import SpidoNG.Lib.Relational
import SpidoNG.Service.Server

/-!
# The queries of lists and single rows

The query that `GET` on a list or on a row sends (`readQuery`), and what it returns
(`ReadQuery.run`).
-/

namespace SpidoNG.Service

open Bytes Pg Relational List Resource

inductive SelectItem
  | column (col : Bytes)
  | bare (col : Bytes)
  | relation (rel : Relation)
  | total

def SelectItem.render (table : Bytes) : SelectItem → Bytes
  | .column col => table ++ str "." ++ col
  | .bare col => col
  | .relation rel => relationAgg rel
  | .total => str "COUNT(*) OVER () AS _spido_total"

structure ReadQuery where
  items : List SelectItem
  separator : Bytes
  groupKey : Option Bytes
  select : Select

structure ReadQuery.Written (Q : ReadQuery) : Prop where
  projection : Q.select.projection =
    intercalate Q.separator (Q.items.map (SelectItem.render Q.select.table))
  groupBy : Q.select.groupBy =
    Q.groupKey.elim [] fun key => str "GROUP BY " ++ Q.select.table ++ str "." ++ key

section

variable (auth : AuthConfig) (r : Resource) (req : Request)

def projectItems (fields : Bytes) : Option (List SelectItem) :=
  if fields.isEmpty then some (r.columns.map .column)
  else
    let names := pieces comma fields
    if !names.isEmpty && names.all r.columns.contains then some (names.map .column) else none

def projectionItems : Option (List SelectItem) :=
  let base := if r.fieldMasking then projectItems r (qparam req.query (str "fields"))
    else some (r.columns.map .column)
  base.map (· ++ r.autoRelations.map .relation)

def totalItem : List SelectItem := if r.pagination.includeTotal then [.total] else []

def groupKey : Option Bytes := if r.relations.isEmpty then none else some r.primaryKey

def listRead : Option (ReadQuery × List PgParam) :=
  if !roleCheck auth r.permissions.list r.permissions.header req then none
  else do
    let proj ← projection r req
    let items ← projectionItems r req
    let w ← applyWhere auth r req (bypassOwn auth r.permissions.list r.permissions.header req)
    let order ← orderBy r req
    let (q, params) := listSelect r req proj order w
    pure (⟨items ++ totalItem r, str ", ", groupKey r, q⟩, params)

def getRead : Option (ReadQuery × List PgParam) :=
  let bypass := bypassOwn auth r.permissions.get r.permissions.header req
  let id := req.param (str "id")
  if !roleCheck auth r.permissions.get r.permissions.header req then none
  else if id.isEmpty then none
  else do
    let w ← ownWhere auth r req bypass ({ : Where }.push (.eq r.primaryKey) (pkParam id))
    if r.readMode = .ramEntityFirst then
      pure (⟨r.columns.map .bare, [comma], none, entitySelect r⟩, [pkParam id])
    else
      let proj ← rowProjection r req
      let items ← projectionItems r req
      let w := softDeleteWhere r w
      pure (⟨items, str ", ", groupKey r, rowSelect r proj w⟩, w.params)

def readQuery : Endpoint → Option (ReadQuery × List PgParam)
  | .list => listRead auth r req
  | .get => getRead auth r req
  | _ => none

end

def readOp (cfg : Config) (r : Resource) (req : Request) (ep : Endpoint) (Q : ReadQuery)
    (params : List PgParam) : Op :=
  if ep = .get ∧ r.readMode = .ramEntityFirst then
    .getEntity (r.tableId cfg) (req.param (str "id")) Q.select params
  else .queryCached Q.select params r.cacheTtlS r.table

lemma intercalate_append {sep : Bytes} {xs ys : List Bytes} (hxs : xs ≠ []) (hys : ys ≠ []) :
    intercalate sep (xs ++ ys) = intercalate sep xs ++ sep ++ intercalate sep ys := by
  obtain ⟨y, ys, rfl⟩ := exists_cons_of_ne_nil hys
  induction xs with
  | nil => exact absurd rfl hxs
  | cons x xs ih =>
    cases xs with
    | nil => simp [intercalate_cons_cons]
    | cons =>
      rw [cons_append, cons_append, intercalate_cons_cons,
        intercalate_cons_cons, ← cons_append, ih (by simp)]
      simp

section

variable {auth : AuthConfig} {r : Resource} {req : Request}

lemma listed_append {xs ys : List Bytes} (hxs : xs ≠ []) (hys : ∀ y ∈ ys, y ≠ []) :
    listed (xs ++ ys) = listed xs ++ clause (str ", ") (listed ys) := by
  unfold listed
  cases ys with
  | nil => simp [clause]
  | cons y ys =>
    have hne : intercalate (str ", ") (y :: ys) ≠ [] := by
      cases ys with
      | nil => simpa using hys y (by simp)
      | cons =>
        rw [intercalate_cons_cons]
        simp [hys y (by simp)]
    rw [intercalate_append hxs (by simp), clause, if_neg (by simpa using hne), append_assoc]

lemma relationAgg_ne_nil (rel : Relation) : relationAgg rel ≠ [] := by
  intro h
  have hlen := congrArg List.length h
  have hpos : 0 < (str "coalesce(json_agg(json_build_object(").length := by decide +kernel
  simp only [relationAgg, length_append, length_nil] at hlen
  omega

def written (r : Resource) (items : List SelectItem) : Bytes :=
  listed (items.map (SelectItem.render r.table))

lemma written_columns_relations {cols : List Bytes} (hcols : cols ≠ []) :
    written r (cols.map .column ++ r.autoRelations.map .relation) =
      listed (cols.map r.qcol) ++ clause (str ", ") r.relationAggs := by
  have hrender : (cols.map SelectItem.column).map (SelectItem.render r.table)
    = cols.map r.qcol := by
    rw [map_map]
    rfl
  have hrels : (r.autoRelations.map SelectItem.relation).map (SelectItem.render r.table) =
      r.autoRelations.map relationAgg := by
    rw [map_map]
    rfl
  unfold written
  rw [map_append, hrender, hrels]
  refine listed_append (by simpa using hcols) fun y hy => ?_
  obtain ⟨rel, -, rfl⟩ := mem_map.1 hy
  exact relationAgg_ne_nil rel

variable {items : List SelectItem}

section

variable (hcolumns : r.columns ≠ [])
include hcolumns

lemma exists_columns_of_projectItems (fields : Bytes) :
    (project r fields = none ∧ projectItems r fields = none) ∨
      ∃ cols, cols ≠ [] ∧ project r fields = some (listed (cols.map r.qcol)) ∧
        projectItems r fields = some (cols.map .column) := by
  unfold project projectItems
  dsimp only
  split_ifs with hemp hnames
  · exact .inr ⟨r.columns, hcolumns, rfl, rfl⟩
  · refine .inr ⟨pieces comma fields, ?_, rfl, rfl⟩
    rw [Bool.and_eq_true] at hnames
    simpa using hnames.1
  · exact .inl ⟨rfl, rfl⟩

lemma projection_eq : projection r req = (projectionItems r req).map (written r) := by
  unfold projection projectionItems
  cases r.fieldMasking with
  | false =>
    simp only [Bool.false_eq_true, if_false, Option.map_some]
    rw [written_columns_relations hcolumns]
    rfl
  | true =>
    rw [if_pos rfl, if_pos rfl]
    obtain ⟨hproj, hitem⟩ | ⟨cols, hcols, hproj, hitem⟩ :=
      exists_columns_of_projectItems hcolumns (qparam req.query (str "fields"))
    · rw [hproj, hitem]
      rfl
    · rw [hproj, hitem, Option.map_some, Option.map_some, Option.map_some,
        written_columns_relations hcols]

lemma rowProjection_eq : rowProjection r req = (projectionItems r req).map (written r) := by
  unfold rowProjection
  split
  · exact projection_eq hcolumns
  · next hmask =>
    have hitem : projectionItems r req =
        some (r.columns.map .column ++ r.autoRelations.map .relation) := by
      simp [projectionItems, hmask]
    rw [hitem, Option.map_some, written, map_append, map_map, map_map]
    rfl

lemma projectionItems_ne_nil (h : projectionItems r req = some items) : items ≠ [] := by
  obtain ⟨base, hbase, rfl⟩ := Option.map_eq_some_iff.1 h
  have hne : base ≠ [] := by
    split at hbase
    · obtain ⟨-, hnone⟩ | ⟨cols, hcols, -, hsome⟩ :=
        exists_columns_of_projectItems hcolumns (qparam req.query (str "fields"))
      · rw [hnone] at hbase
        cases hbase
      · rw [hsome, Option.some.injEq] at hbase
        subst hbase
        simpa using hcols
    · rw [Option.some.injEq] at hbase
      subst hbase
      simpa using hcolumns
  simp [hne]

end

lemma groupByClause_eq : r.groupByClause =
    (groupKey r).elim [] fun key => str "GROUP BY " ++ r.table ++ str "." ++ key := by
  unfold groupByClause groupKey qcol
  split_ifs
  · rfl
  · simp

lemma written_total (hne : items ≠ []) :
    written r (items ++ totalItem r) = written r items ++ totalColumn r := by
  unfold totalItem totalColumn
  split_ifs
  · have htotal : str ", COUNT(*) OVER () AS _spido_total" =
        str ", " ++ str "COUNT(*) OVER () AS _spido_total" := rfl
    unfold written listed
    rw [map_append, intercalate_append (by simpa using hne) (by simp), htotal]
    simp [SelectItem.render]
  · simp

end

section

variable {lib : Platform} {cfg : Config} {r : Resource} {req : Request} {ep : Endpoint}
  {Q : ReadQuery}
  {params : List PgParam}

lemma emits_call_pure_iff {op op' : Op} {f : op.Res → Response} :
    (Prog.call op fun a => Prog.pure (f a) : Handler).Emits op' ↔ op' = op := by
  constructor
  · intro h
    cases h with
    | here => rfl
    | later a h => cases h
  · rintro rfl
    exact .here

lemma not_emits_pure (res : Response) (op : Op) : ¬ (pure res : Handler).Emits op :=
  fun h => nomatch h

lemma emits_listHandler_iff (hr : r.Loaded) (op : Op) :
    (listHandler lib cfg.auth r req).Emits op ↔ ∃ Q params,
      listRead cfg.auth r req = some (Q, params) ∧ op = readOp cfg r req .list Q params := by
  unfold listHandler listRead
  rw [projection_eq hr.columns]
  cases roleCheck cfg.auth r.permissions.list r.permissions.header req with
  | false => simp [not_emits_pure]
  | true =>
  cases projectionItems r req with
  | none => simp [not_emits_pure]
  | some items =>
  cases applyWhere cfg.auth r req
    (bypassOwn cfg.auth r.permissions.list r.permissions.header req) with
  | none => simp [not_emits_pure]
  | some w =>
  cases orderBy r req with
  | none => simp [not_emits_pure]
  | some order =>
  simp only [Option.map_some, Option.bind_eq_bind, Option.bind_some, Bool.not_true,
    Bool.false_eq_true,
    if_false]
  generalize listSelect r req (written r items) order w = x
  refine emits_call_pure_iff.trans ?_
  simp [readOp]

lemma emits_getHandler_iff (hr : r.Loaded) (op : Op) :
    (getHandler lib cfg.auth r (r.tableId cfg) req).Emits op ↔ ∃ Q params,
      getRead cfg.auth r req = some (Q, params) ∧ op = readOp cfg r req .get Q params := by
  unfold getHandler getRead
  dsimp only
  cases roleCheck cfg.auth r.permissions.get r.permissions.header req with
  | false => simp [not_emits_pure]
  | true =>
  cases (req.param (str "id")).isEmpty with
  | true => simp [not_emits_pure]
  | false =>
  cases ownWhere cfg.auth r req (bypassOwn cfg.auth r.permissions.get r.permissions.header req)
      ({ : Where }.push (.eq r.primaryKey) (pkParam (req.param (str "id")))) with
  | none => simp [not_emits_pure]
  | some w =>
  by_cases hmode : r.readMode = .ramEntityFirst
  · simp only [hmode, if_true]
    refine emits_call_pure_iff.trans ?_
    simp [readOp, hmode]
  simp only [hmode, if_false, getFromTable]
  rw [rowProjection_eq hr.columns]
  cases projectionItems r req with
  | none => simp [not_emits_pure]
  | some items =>
  refine emits_call_pure_iff.trans ?_
  simp [readOp, hmode]

lemma emits_handler_iff (hr : r.Loaded) (hep : ep = .list ∨ ep = .get) (op : Op) :
    (handler lib cfg r req ep).Emits op ↔ ∃ Q params,
      readQuery cfg.auth r req ep = some (Q, params) ∧ op = readOp cfg r req ep Q params := by
  obtain rfl | rfl := hep
  · exact emits_listHandler_iff hr op
  · exact emits_getHandler_iff hr op

lemma listSelect_table (proj order : Bytes) (w : Where) :
    (listSelect r req proj order w).1.table = r.table := by
  unfold listSelect
  split_ifs <;> rfl

lemma written_readQuery (hr : r.Loaded) (h : readQuery cfg.auth r req ep = some (Q, params)) :
    Q.Written := by
  cases ep with
  | list =>
    simp only [readQuery, listRead, projection_eq hr.columns] at h
    split at h
    · cases h
    simp only [Option.bind_eq_bind, Option.bind_eq_some_iff, Option.map_eq_some_iff,
      Option.pure_def, Option.some.injEq] at h
    obtain ⟨proj, ⟨items, hitem, rfl⟩, items', hitem', w, -, order, -, hQ⟩ := h
    obtain rfl : items = items' := Option.some.inj (hitem.symm.trans hitem')
    obtain ⟨rfl, rfl⟩ := Prod.mk.inj hQ
    have hprojection : (listSelect r req (written r items) order w).1.projection =
        written r (items ++ totalItem r) := by
      rw [written_total (projectionItems_ne_nil hr.columns hitem)]
      unfold listSelect
      split_ifs <;> rfl
    have hgroupBy : (listSelect r req (written r items) order w).1.groupBy = r.groupByClause := by
      unfold listSelect
      dsimp only
      split_ifs <;> rfl
    constructor
    · rw [hprojection, listSelect_table]
      rfl
    · rw [hgroupBy, listSelect_table]
      exact groupByClause_eq
  | get =>
    simp only [readQuery, getRead, rowProjection_eq hr.columns] at h
    split at h
    · cases h
    split at h
    · cases h
    rw [Option.bind_eq_bind, Option.bind_eq_some_iff] at h
    obtain ⟨w, -, h⟩ := h
    split at h
    · obtain ⟨rfl, rfl⟩ := Prod.mk.inj (Option.some.inj h)
      refine ⟨?_, rfl⟩
      show commaSeparated r.columns = intercalate [comma] _
      rw [map_map]
      exact congrArg _ (map_id' _).symm
    · simp only [Option.bind_eq_bind, Option.bind_eq_some_iff, Option.map_eq_some_iff,
        Option.pure_def, Option.some.injEq] at h
      obtain ⟨proj, ⟨items, hitem, rfl⟩, items', hitem', hQ⟩ := h
      obtain rfl : items = items' := Option.some.inj (hitem.symm.trans hitem')
      obtain ⟨rfl, rfl⟩ := Prod.mk.inj hQ
      exact ⟨rfl, groupByClause_eq⟩
  | _ => cases h

end

abbrev JoinedRow := Row × List (Option Row)

abbrev JsonObject := List (Bytes × Option Bytes)

inductive ResultValue
  | cell (v : Option Bytes)
  | array (xs : List JsonObject)
  | number (n : ℕ)

structure ResultRow where
  row : Row
  values : List (SelectItem × ResultValue)

def Relation.object (rel : Relation) (child : Row) : JsonObject :=
  rel.columns.map fun c => (c, child c)

def Relation.kept (rel : Relation) (child : Row) : Bool := (child (rel.columns.headD [])).isSome

def Relation.partner (rel : Relation) (tables : List Bytes) (x : JoinedRow) : Option Row :=
  (x.2[tables.idxOf rel.table]?).join

def Relation.collect (rel : Relation) (tables : List Bytes) (g : List JoinedRow) :
    List JsonObject :=
  g.filterMap fun x => ((rel.partner tables x).filter rel.kept).map rel.object

def SelectItem.value (tables : List Bytes) (n : ℕ) (row : Row) (g : List JoinedRow) :
    SelectItem → ResultValue
  | .column col | .bare col => .cell (row col)
  | .relation rel => .array (rel.collect tables g)
  | .total => .number n

abbrev Paging := (orderBy : Bytes) → (limit offset : Option PgParam) → List Row → List ℕ

namespace ReadQuery

variable (B : Backend) (page : Paging) (db : Database) (Q : ReadQuery) (params : List PgParam)

def tables : List Bytes := Q.select.joins.map (·.table)

def matching : List JoinedRow :=
  (leftJoins (Q.select.joins.map fun j => (B.joined j, db j.table)) (db Q.select.table)).filter
    fun x => Q.select.conds.all (B.holds Q.select.table params x.1)

def groups : List (List JoinedRow) :=
  match Q.groupKey with
  | none => (Q.matching B db params).map fun x => [x]
  | some key => groupBy (fun x => x.1 key) (Q.matching B db params)

def resultRow (n : ℕ) (g : List JoinedRow) : Option ResultRow :=
  g.head?.map fun x => ⟨x.1, Q.items.map fun item => (item, item.value Q.tables n x.1 g)⟩

def resultRows : List ResultRow :=
  let gs := Q.groups B db params
  gs.filterMap (Q.resultRow gs.length)

def argument (k : Option ℕ) : Option PgParam := k.bind fun k => params[k - 1]?

def paged (rows : List ResultRow) : List ResultRow :=
  (page Q.select.orderBy (argument params Q.select.limit) (argument params Q.select.offset)
    (rows.map (·.row))).filterMap fun i => rows[i]?

def run : Option (List ResultRow) :=
  if (Q.select.table :: Q.tables).Nodup then some (Q.paged page params (Q.resultRows B db params))
  else none

end ReadQuery

end SpidoNG.Service
