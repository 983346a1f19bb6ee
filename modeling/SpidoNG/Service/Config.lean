import SpidoNG.Http.Parser
import SpidoNG.Service.Json

/-!
# Configurations of a service

What `generator/generator.py` makes of a `config.json`, its checks and its fragments of SQL.
-/

namespace SpidoNG.Service

open Bytes

inductive AuthType
  | header
  | jwt
  deriving DecidableEq

inductive ReadMode
  | directDb
  | cacheFirst
  | cacheOnlyWhenPressure
  | staleCacheAllowed
  | ramEntityFirst
  deriving DecidableEq

inductive WriteMode
  | sync
  | asyncDurable
  | batchDurable
  | asyncMemory
  | batchMemory
  | disabled
  deriving DecidableEq

inductive OverloadBehavior
  | delay
  | queue
  | return202
  | return429
  | return503
  | staleCache
  | dropBestEffort
  | batchOnly
  | walOnly

inductive FilterOp
  | eq
  | neq
  | gt
  | gte
  | lt
  | lte
  | like
  | ilike
  | contains
  | startsWith
  | endsWith
  | in
  | notIn
  | isNull
  | notNull
  deriving DecidableEq

namespace FilterOp

def sql : FilterOp → Bytes
  | .eq => str "="
  | .neq => str "<>"
  | .gt => str ">"
  | .gte => str ">="
  | .lt => str "<"
  | .lte => str "<="
  | .like => str "LIKE"
  | .ilike | .contains | .startsWith | .endsWith => str "ILIKE"
  | .in => str "= ANY"
  | .notIn => str "<> ALL"
  | .isNull => str "IS NULL"
  | .notNull => str "IS NOT NULL"

def takesParam : FilterOp → Bool
  | .isNull | .notNull => false
  | _ => true

end FilterOp

inductive PageMode
  | offset
  | cursor
  deriving DecidableEq

inductive Embed
  | auto
  | onDemand
  deriving DecidableEq

inductive StatsOp
  | count
  | min
  | max
  | avg
  | sum
  deriving DecidableEq

def StatsOp.name : StatsOp → Bytes
  | .count => str "count"
  | .min => str "min"
  | .max => str "max"
  | .avg => str "avg"
  | .sum => str "sum"

def StatsOp.sql : StatsOp → Bytes
  | .count => str "COUNT"
  | .min => str "MIN"
  | .max => str "MAX"
  | .avg => str "AVG"
  | .sum => str "SUM"

structure AuthConfig where
  type : AuthType := .header
  secret : Bytes := []
  userClaim : Bytes := str "sub"
  rolesClaim : Bytes := str "roles"
  deriving DecidableEq

structure Filter where
  param : Bytes
  column : Bytes := param
  op : FilterOp

structure SortConfig where
  allowed : List Bytes := []
  default : Bytes := []

structure Pagination where
  default : ℤ := 20
  max : ℤ := 100
  includeTotal : Bool := false
  mode : PageMode := .offset

structure Relation where
  name : Bytes
  table : Bytes
  fk : Bytes
  columns : List Bytes
  embed : Embed := .auto
  deriving DecidableEq

structure Ownership where
  column : Bytes
  header : Bytes := str "X-User-Id"

structure Perms where
  roles : List Bytes := []
  bypassOwnership : List Bytes := []
  deriving DecidableEq

structure Permissions where
  header : Bytes := str "X-User-Roles"
  list : Option Perms := none
  get : Option Perms := none
  create : Option Perms := none
  update : Option Perms := none
  delete : Option Perms := none
  bulk : Option Perms := none
  count : Option Perms := none
  stats : Option Perms := none

structure Hooks where
  transactional : Bool := false
  beforeInsert : Option Bytes := none
  afterInsert : Option Bytes := none
  beforeUpdate : Option Bytes := none
  afterUpdate : Option Bytes := none
  beforeDelete : Option Bytes := none
  afterDelete : Option Bytes := none

structure Idempotency where
  enabled : Bool := false
  table : Bytes := str "idempotency_log"
  header : Bytes := str "Idempotency-Key"

structure Bulk where
  enabled : Bool := false
  maxSize : ℕ := 1000

structure Stats where
  columns : List Bytes
  ops : List StatsOp := [.count, .min, .max, .avg, .sum]
  deriving DecidableEq

structure Aggregations where
  count : Bool := false
  stats : Option Stats := none

structure FieldError where
  field : Bytes
  message : Bytes

/-- `validate_<table>`, which the generator makes of the validation rules: the errors of a body, of
a new row or of an update. -/
abbrev Validator := JsonBody → (isCreate : Bool) → List FieldError

structure Resource where
  path : Bytes
  table : Bytes
  methods : List Http.Method := [.GET]
  primaryKey : Bytes := str "id"
  cacheTtlS : ℕ := 5
  batchWrite : Bool := false
  columns : List Bytes
  readMode : ReadMode := .cacheFirst
  writeMode : WriteMode := .sync
  overloadBehavior : OverloadBehavior := .return503
  filters : List Filter := []
  sort : SortConfig := {}
  pagination : Pagination := {}
  relations : List Relation := []
  ownership : Option Ownership := none
  softDelete : Option Bytes := none
  fieldMasking : Bool := false
  etag : Bool := false
  hooks : Hooks := {}
  permissions : Permissions := {}
  idempotency : Idempotency := {}
  bulk : Bulk := {}
  aggregations : Aggregations := {}
  validate : Option Validator := none

structure Config where
  auth : AuthConfig := {}
  resources : List Resource := []

def bareSort (c : Bytes) : Bytes := if c.head? = some 45 then c.tail else c

inductive ConfigError
  | missingSecret
  | emptyColumns (table : Bytes)
  | filterColumn (table filter column : Bytes)
  | sortAllowed (table field : Bytes)
  | sortDefault (table field : Bytes)
  | paginationInvalid (table : Bytes)
  | cursorWithFieldMasking (table : Bytes)
  | relationColumns (table relation : Bytes)
  | permissionsHeader (table : Bytes)
  | bulkMaxSize (table : Bytes)
  | statsColumns (table : Bytes)
  | statsColumn (table column : Bytes)
  | ownershipColumn (table column : Bytes)
  | softDeleteColumn (table column : Bytes)
  deriving DecidableEq

def require (cond : Bool) (e : ConfigError) : Except ConfigError Unit :=
  if cond then .ok () else .error e

def Resource.load (r : Resource) : Except ConfigError Unit := do
  require (!r.columns.isEmpty) (.emptyColumns r.table)
  r.filters.forM fun f => require (r.columns.contains f.column)
    (.filterColumn r.table f.param f.column)
  r.sort.allowed.forM fun c => require (r.columns.contains (bareSort c)) (.sortAllowed r.table c)
  require (r.sort.default.isEmpty || r.columns.contains (bareSort r.sort.default))
    (.sortDefault r.table r.sort.default)
  require (r.pagination.default ≤ r.pagination.max && 0 < r.pagination.default &&
    0 < r.pagination.max) (.paginationInvalid r.table)
  require (!(r.pagination.mode == .cursor && r.fieldMasking)) (.cursorWithFieldMasking r.table)
  r.relations.forM fun rel => require (!rel.columns.isEmpty) (.relationColumns r.table rel.name)
  require (!r.permissions.header.isEmpty) (.permissionsHeader r.table)
  require (0 < r.bulk.maxSize) (.bulkMaxSize r.table)
  match r.aggregations.stats with
  | none => pure ()
  | some stats => do
    require (!stats.columns.isEmpty) (.statsColumns r.table)
    stats.columns.forM fun c => require (r.columns.contains c) (.statsColumn r.table c)
  match r.ownership with
  | none => pure ()
  | some own => require (r.columns.contains own.column) (.ownershipColumn r.table own.column)
  match r.softDelete with
  | none => pure ()
  | some col => require (r.columns.contains col) (.softDeleteColumn r.table col)

def Config.load (cfg : Config) : Except ConfigError Unit := do
  require (cfg.auth.type == .header || !cfg.auth.secret.isEmpty) .missingSecret
  cfg.resources.forM Resource.load

def Config.Accepted (cfg : Config) : Prop := cfg.load = .ok ()

def Config.generated (cfg : Config) : List Resource :=
  cfg.resources.pwFilter fun r r' => r.table ≠ r'.table

lemma Config.mem_generated_of_singleton (r : Resource) (auth : AuthConfig) :
    r ∈ Config.generated ⟨auth, [r]⟩ := by
  unfold Config.generated
  rw [List.pwFilter_cons_of_pos (by simp)]
  exact List.mem_cons_self

structure Resource.Loaded (r : Resource) : Prop where
  columns : r.columns ≠ []
  filters : ∀ f ∈ r.filters, f.column ∈ r.columns
  sortAllowed : ∀ c ∈ r.sort.allowed, bareSort c ∈ r.columns
  sortDefault : r.sort.default ≠ [] → bareSort r.sort.default ∈ r.columns
  page : 0 < r.pagination.default ∧ r.pagination.default ≤ r.pagination.max
  cursor : r.pagination.mode = .cursor → r.fieldMasking = false
  relations : ∀ rel ∈ r.relations, rel.columns ≠ []
  stats : ∀ stats ∈ r.aggregations.stats, stats.columns ≠ [] ∧ ∀ c ∈ stats.columns, c ∈ r.columns
  ownership : ∀ own ∈ r.ownership, own.column ∈ r.columns
  softDelete : ∀ col ∈ r.softDelete, col ∈ r.columns

lemma require_eq_ok_iff {cond : Bool} {e : ConfigError} : require cond e = .ok () ↔ cond := by
  cases cond <;> simp [require]

lemma bind_eq_ok_iff {x : Except ConfigError Unit} {y : Unit → Except ConfigError Unit} :
    (x >>= y) = .ok () ↔ x = .ok () ∧ y () = .ok () := by
  cases x with
  | error => exact ⟨fun h => (by cases h), fun h => (by cases h.1)⟩
  | ok => exact ⟨fun h => ⟨rfl, h⟩, fun h => h.2⟩

lemma forM_eq_ok_iff {α : Type} {l : List α} {f : α → Except ConfigError Unit} :
    l.forM f = .ok () ↔ ∀ a ∈ l, f a = .ok () := by
  induction l with
  | nil => exact ⟨fun _ _ h => (by cases h), fun _ => rfl⟩
  | cons a l ih =>
    rw [List.forall_mem_cons, ← ih]
    exact bind_eq_ok_iff

lemma Resource.loaded_of_load {r : Resource} (h : r.load = .ok ()) : r.Loaded := by
  have hrest : (∀ stats ∈ r.aggregations.stats,
        stats.columns ≠ [] ∧ ∀ c ∈ stats.columns, c ∈ r.columns) ∧
      (∀ own ∈ r.ownership, own.column ∈ r.columns) ∧ ∀ col ∈ r.softDelete, col ∈ r.columns := by
    unfold Resource.load at h
    cases hstats : r.aggregations.stats <;> cases hown : r.ownership <;>
      cases hsoft : r.softDelete <;>
      simp only [hstats, hown, hsoft, bind_eq_ok_iff, forM_eq_ok_iff, require_eq_ok_iff] at h <;>
      simp at h ⊢ <;> tauto
  simp only [Resource.load, bind_eq_ok_iff, forM_eq_ok_iff, require_eq_ok_iff] at h
  obtain ⟨hcolumns, hfilters, hall, hdefaults, hpage, hcursor, hrelations, -⟩ := h
  refine ⟨by simpa using hcolumns, by simpa using hfilters, by simpa using hall, ?_, ?_, ?_,
    by simpa using hrelations, hrest.1, hrest.2.1, hrest.2.2⟩
  · intro hne
    simpa [hne] using hdefaults
  · simp only [Bool.and_eq_true, decide_eq_true_eq] at hpage
    exact ⟨hpage.1.2, hpage.1.1⟩
  · intro hmode
    simpa [hmode] using hcursor

lemma Config.Accepted.loaded {cfg : Config} (h : cfg.Accepted) {r : Resource}
    (hr : r ∈ cfg.generated) : r.Loaded := by
  unfold Config.Accepted Config.load at h
  rw [bind_eq_ok_iff, forM_eq_ok_iff] at h
  exact Resource.loaded_of_load (h.2 r (List.pwFilter_subset _ hr))

namespace Resource

variable (r : Resource)

def truthy (s : Option Bytes) : Option Bytes := s.filter (!·.isEmpty)

def softDeleteColumn : Option Bytes := truthy r.softDelete

def batched : Bool := r.batchWrite || r.writeMode == .batchDurable || r.writeMode == .batchMemory

def autoRelations : List Relation := r.relations.filter (·.embed == .auto)

def tableId (cfg : Config) : ℕ := ((cfg.resources.map (·.table)).eraseDups).idxOf r.table + 1

def qcol (col : Bytes) : Bytes := r.table ++ str "." ++ col

def listed (xs : List Bytes) : Bytes := List.intercalate (str ", ") xs

def selectListBase : Bytes := listed (r.columns.map r.qcol)

def relationAgg (rel : Relation) : Bytes :=
  str "coalesce(json_agg(json_build_object(" ++
    listed (rel.columns.map fun c => str "'" ++ c ++ str "', " ++ rel.table ++ str "." ++ c) ++
    str ")) FILTER (WHERE " ++ rel.table ++ str "." ++ rel.columns.headD [] ++
    str " IS NOT NULL), '[]'::json) AS " ++ rel.name

def relationAggs : Bytes := listed (r.autoRelations.map relationAgg)

def selectList : Bytes := listed (r.columns.map r.qcol ++ r.autoRelations.map relationAgg)

def groupByClause : Bytes :=
  if r.relations.isEmpty then [] else str "GROUP BY " ++ r.qcol r.primaryKey

def sortDefaultSql : Bytes :=
  if r.sort.default.isEmpty then []
  else r.qcol (bareSort r.sort.default) ++
    (if r.sort.default.head? = some 45 then str " DESC" else str " ASC")

def statsSelect (stats : Stats) : Bytes :=
  listed (stats.columns.flatMap fun c => stats.ops.map fun op =>
    op.sql ++ str "(" ++ r.qcol c ++ str ") AS " ++ c ++ str "_" ++ op.name)

end Resource

end SpidoNG.Service
