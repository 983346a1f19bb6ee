import SpidoNG.Service.Config
import SpidoNG.Pg.Connection

/-!
# The queries of the read handlers

The read handlers put a `SELECT` together from fragments.
-/

namespace SpidoNG.Service

open Bytes Pg

inductive Cond
  | eq (col : Bytes) (k : ℕ)
  | key (col : Bytes) (k : ℕ)
  | isNull (col : Bytes)
  | compare (col : Bytes) (op : FilterOp) (k : ℕ)
  | test (col : Bytes) (op : FilterOp)
  | after (col : Bytes) (k : ℕ)
  deriving DecidableEq

structure Join where
  table : Bytes
  fk : Bytes
  pk : Bytes
  deriving DecidableEq

structure Select where
  projection : Bytes
  table : Bytes
  joins : List Join := []
  conds : List Cond := []
  groupBy : Bytes := []
  orderBy : Bytes := []
  limit : Option ℕ := none
  offset : Option ℕ := none
  deriving DecidableEq

def placeholder (k : ℕ) : Bytes := str "$" ++ decimal k

def Cond.render (table : Bytes) : Cond → Bytes
  | .eq col k => table ++ str "." ++ col ++ str " = " ++ placeholder k
  | .key col k => col ++ str "=" ++ placeholder k
  | .isNull col => table ++ str "." ++ col ++ str " IS NULL"
  | .compare col op k =>
    if op = .in ∨ op = .notIn then
      table ++ str "." ++ col ++ str " " ++ op.sql ++ str "(" ++ placeholder k ++ str "::text[])"
    else table ++ str "." ++ col ++ str " " ++ op.sql ++ str " " ++ placeholder k
  | .test col op => table ++ str "." ++ col ++ str " " ++ op.sql
  | .after col k => table ++ str "." ++ col ++ str " > " ++ placeholder k

def Join.render (parent : Bytes) (j : Join) : Bytes :=
  str " LEFT JOIN " ++ j.table ++ str " ON " ++ j.table ++ str "." ++ j.fk ++ str " = " ++ parent ++
    str "." ++ j.pk

def renderWhere (table : Bytes) (conds : List Cond) : Bytes :=
  if conds.isEmpty then []
  else str " WHERE " ++ List.intercalate (str " AND ") (conds.map (Cond.render table))

def clause (keyword body : Bytes) : Bytes := if body.isEmpty then [] else keyword ++ body

def Select.render (q : Select) : Bytes :=
  str "SELECT " ++ q.projection ++ str " FROM " ++ q.table ++
    q.joins.flatMap (Join.render q.table) ++
    renderWhere q.table q.conds ++ clause (str " ") q.groupBy ++
    clause (str " ORDER BY ") q.orderBy ++
    (q.limit.elim [] fun k => str " LIMIT " ++ placeholder k) ++
    (q.offset.elim [] fun k => str " OFFSET " ++ placeholder k)

abbrev Row := Bytes → Option Bytes

abbrev Database := Bytes → List Row

structure Backend where
  sqlEq : (table col value : Bytes) → PgParam → Bool
  compare : FilterOp → (table col value : Bytes) → PgParam → Bool
  joined : Join → (parent child : Row) → Bool
  finish : Select → List PgParam → List (Row × List (List Row)) → PgResult
  duplicateTable : Select → PgResult

namespace Backend

variable (B : Backend)

def holds (table : Bytes) (params : List PgParam) (row : Row) : Cond → Bool
  | .eq col k | .key col k =>
    match row col, params[k - 1]? with
    | some v, some p => B.sqlEq table col v p
    | _, _ => false
  | .isNull col => (row col).isNone
  | .compare col op k =>
    match row col, params[k - 1]? with
    | some v, some p => B.compare op table col v p
    | _, _ => false
  | .test col op => if op = .isNull then (row col).isNone else (row col).isSome
  | .after col k =>
    match row col, params[k - 1]? with
    | some v, some p => B.compare .gt table col v p
    | _, _ => false

def selected (db : Database) (q : Select) (params : List PgParam) : List Row :=
  (db q.table).filter fun row => q.conds.all (B.holds q.table params row)

def children (db : Database) (q : Select) (row : Row) : List (List Row) :=
  q.joins.map fun j => (db j.table).filter (B.joined j row)

def query (db : Database) (q : Select) (params : List PgParam) : PgResult :=
  if (q.table :: q.joins.map (·.table)).Nodup then
    B.finish q params ((B.selected db q params).map fun row => (row, B.children db q row))
  else B.duplicateTable q

end Backend

end SpidoNG.Service
