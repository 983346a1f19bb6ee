import SpidoNG.Lib.Interaction
import SpidoNG.Wal.Record
import SpidoNG.Service.Sql
import SpidoNG.Service.Render

/-!
# What the handlers call

A handler of a resource is a program over the operations of `Db` and of its token bucket.
-/

namespace SpidoNG.Service

open Bytes Pg

inductive Op
  | tryAcquire
  | execPrepared (name sql : Bytes) (types : List Oid) (params : List PgParam)
  | queryCached (q : Select) (params : List PgParam) (ttl : ℕ) (tag : Bytes)
  | getEntity (table : ℕ) (pk : Bytes) (q : Select) (params : List PgParam)
  | markDirty (table : Bytes)
  | enqueue (endpoint table : Bytes) (row : List PgParam)
  | walAppend (rec : Wal.WalRecord)
  | invalidateTable (table : Bytes)
  | checkout
  | exec (sql : Bytes)
  | log (line : Bytes)
  deriving DecidableEq

def Op.Res : Op → Type
  | .tryAcquire | .checkout => Bool
  | .execPrepared _ _ _ _ | .queryCached _ _ _ _ | .exec _ => PgResult
  | .getEntity _ _ _ _ => Option Bytes
  | .walAppend _ => ℕ
  | .markDirty _ | .enqueue _ _ _ | .invalidateTable _ | .log _ => Unit

instance : (op : Op) → DecidableEq op.Res
  | .tryAcquire | .checkout => inferInstanceAs (DecidableEq Bool)
  | .execPrepared _ _ _ _ | .queryCached _ _ _ _ | .exec _ => inferInstanceAs (DecidableEq PgResult)
  | .getEntity _ _ _ _ => inferInstanceAs (DecidableEq (Option Bytes))
  | .walAppend _ => inferInstanceAs (DecidableEq ℕ)
  | .markDirty _ | .enqueue _ _ _ | .invalidateTable _ | .log _ =>
    inferInstanceAs (DecidableEq Unit)

abbrev Action (α : Type) := Prog Op Op.Res α

abbrev Handler := Action Response

abbrev tryAcquire : Action Bool := .perform Op.tryAcquire

abbrev execPrepared (name sql : Bytes) (types : List Oid) (params : List PgParam) :
    Action PgResult := .perform (Op.execPrepared name sql types params)

abbrev queryCached (q : Select) (params : List PgParam) (ttl : ℕ) (tag : Bytes) :
    Action PgResult := .perform (Op.queryCached q params ttl tag)

abbrev getEntity (table : ℕ) (pk : Bytes) (q : Select) (params : List PgParam) :
    Action (Option Bytes) := .perform (Op.getEntity table pk q params)

abbrev invalidateTable (table : Bytes) : Action Unit := .perform (Op.invalidateTable table)

abbrev checkout : Action Bool := .perform Op.checkout

abbrev exec (sql : Bytes) : Action PgResult := .perform (Op.exec sql)

abbrev log (line : Bytes) : Action Unit := .perform (Op.log line)

def dbWrite (endpoint table : Bytes) (row : List PgParam) : Action Unit := do
  let _ ← (.perform (Op.markDirty table) : Action Unit)
  .perform (Op.enqueue endpoint table row)

end SpidoNG.Service
