import SpidoNG.Service.Server
import SpidoNG.Service.Store

/-!
# What a caller can learn of other owners' rows

The rows of a resource with `ownership` belong to callers.
-/

namespace SpidoNG.Service

open Bytes Pg Prog List

section

variable (B : Backend) (r : Resource) (own : Ownership) (owner : Bytes)

def visible (row : Row) : Bool :=
  (row own.column).any (fun v => B.sqlEq r.table own.column v (.fromText owner)) &&
    r.softDeleteColumn.all fun col => (row col).isNone

structure Agree (db db' : Database) : Prop where
  rows : (db r.table).filter (visible B r own owner) = (db' r.table).filter (visible B r own owner)
  related : ∀ row ∈ db r.table, visible B r own owner row = true → ∀ j ∈ joins r,
    (db j.table).filter (B.joined j row) = (db' j.table).filter (B.joined j row)

end

def Confidential (lib : Platform) (cfg : Config) (r : Resource) (own : Ownership) (ep : Endpoint) :
    Prop :=
  ∀ (B : Backend) (c : Caches) (req : Request) (db db' : Database),
    bypassOwn cfg.auth (r.perms ep) r.permissions.header req = false →
      Agree B r own (userId cfg.auth own req) db db' →
        (handler lib cfg r req ep).eval (answers B c db) =
          (handler lib cfg r req ep).eval (answers B c db')

def Endpoint.reads : Endpoint → Bool
  | .list | .get | .count | .stats => true
  | _ => false

def Entered (cfg : Config) (r : Resource) (own : Ownership) : Prop :=
  ∃ req : Request, roleCheck cfg.auth r.permissions.get r.permissions.header req = true ∧
    bypassOwn cfg.auth r.permissions.get r.permissions.header req = false ∧
    userId cfg.auth own req ≠ []

namespace Where

structure Extends (w' w : Where) : Prop where
  conds : w.conds ⊆ w'.conds
  params : w.params <+: w'.params

lemma Extends.refl (w : Where) : Extends w w := ⟨fun _ => id, prefix_rfl⟩

lemma Extends.trans {w w' w'' : Where} (h' : Extends w'' w') (h : Extends w' w) : Extends w'' w :=
  ⟨fun _ hc => h'.conds (h.conds hc), h.params.trans h'.params⟩

lemma extends_add (w : Where) (c : Cond) : Extends (w.add c) w :=
  ⟨fun _ hc => by simp [add, hc], prefix_rfl⟩

lemma extends_push (w : Where) (c : ℕ → Cond) (p : PgParam) : Extends (w.push c p) w :=
  ⟨fun _ hc => by simp [push, hc], prefix_append _ _⟩

def Owned (own : Ownership) (owner : Bytes) (w : Where) : Prop :=
  ∃ k, .eq own.column k ∈ w.conds ∧ w.params[k - 1]? = some (.fromText owner)

def Undeleted (r : Resource) (w : Where) : Prop := ∀ col ∈ r.softDeleteColumn, .isNull col ∈ w.conds

variable {own : Ownership} {owner : Bytes} {w w' : Where}

lemma owned_push (w : Where) : Owned own owner (w.push (.eq own.column) (.fromText owner)) :=
  ⟨w.params.length + 1, by simp [push], by simp [push]⟩

lemma Owned.mono (h : Owned own owner w) (he : Extends w' w) : Owned own owner w' := by
  obtain ⟨k, hc, hp⟩ := h
  obtain ⟨t, ht⟩ := he.params
  refine ⟨k, he.conds hc, ?_⟩
  rw [← ht, List.getElem?_append_left (List.getElem?_eq_some_iff.1 hp).1, hp]

lemma Undeleted.mono {r : Resource} (h : Undeleted r w) (he : Extends w' w) : Undeleted r w' :=
  fun col hcol => he.conds (h col hcol)

end Where

open Where

lemma extends_applyFilter (query : Bytes) (w : Where) (f : Filter) :
    Extends (applyFilter query w f) w := by
  unfold applyFilter
  dsimp only
  split_ifs
  · exact .refl w
  · exact extends_push w _ _
  · exact extends_add w _
  · exact .refl w

lemma extends_foldl_applyFilter (query : Bytes) (fs : List Filter) (w : Where) :
    Extends (fs.foldl (applyFilter query) w) w := by
  induction fs generalizing w with
  | nil => exact .refl w
  | cons f _ ih => exact (ih _).trans (extends_applyFilter query w f)

lemma extends_softDeleteWhere (r : Resource) (w : Where) : Extends (softDeleteWhere r w) w := by
  unfold softDeleteWhere
  cases r.softDeleteColumn with
  | none => exact .refl w
  | some => exact extends_add w _

lemma undeleted_softDeleteWhere (r : Resource) (w : Where) : Undeleted r (softDeleteWhere r w) := by
  intro col hcol
  rw [Option.mem_def] at hcol
  simp [softDeleteWhere, hcol, add]

lemma extends_cursorWhere (r : Resource) (req : Request) (w : Where) :
    Extends (cursorWhere r req w) w := by
  unfold cursorWhere
  dsimp only
  split_ifs
  · exact extends_push w _ _
  · exact .refl w

section

variable {auth : AuthConfig} {r : Resource} {own : Ownership} {req : Request} {w w' : Where}

lemma owned_of_ownWhere (hown : r.ownership = some own)
    (h : ownWhere auth r req false w = some w') :
    Owned own (userId auth own req) w' := by
  simp only [ownWhere, hown, Bool.false_eq_true, if_false] at h
  split_ifs at h
  cases h
  exact owned_push w

lemma owned_of_applyWhere (hown : r.ownership = some own)
    (h : applyWhere auth r req false = some w) :
    Owned own (userId auth own req) w ∧ Undeleted r w := by
  obtain ⟨w₀, hw₀, rfl⟩ := Option.map_eq_some_iff.1 h
  have hfilter := extends_foldl_applyFilter req.query r.filters (softDeleteWhere r w₀)
  refine ⟨?_, (undeleted_softDeleteWhere r w₀).mono hfilter⟩
  exact (owned_of_ownWhere hown hw₀).mono (hfilter.trans (extends_softDeleteWhere r w₀))

end

section

variable {B : Backend} {r : Resource} {own : Ownership} {owner : Bytes} {db db' : Database}

structure Guards (r : Resource) (own : Ownership) (owner : Bytes) (q : Select)
    (params : List PgParam) : Prop where
  table : q.table = r.table
  joins : q.joins ⊆ joins r
  owned : Owned own owner ⟨q.conds, params⟩
  undeleted : Undeleted r ⟨q.conds, params⟩

variable {params : List PgParam} {q : Select}

lemma Guards.visible (hg : Guards r own owner q params)
    {row : Row} (h : q.conds.all (B.holds q.table params row)) : visible B r own owner row := by
  rw [all_eq_true] at h
  unfold Service.visible
  rw [Bool.and_eq_true]
  constructor
  · obtain ⟨k, hc, hp⟩ := hg.owned
    have hk := h _ hc
    simp only [Backend.holds, hp] at hk
    cases hv : row own.column with
    | none => simp [hv] at hk
    | some =>
      simp only [hv] at hk
      rw [← hg.table]
      simpa using hk
  · cases hsd : r.softDeleteColumn with
    | none => rfl
    | some col => simpa [Backend.holds] using h _ (hg.undeleted col hsd)

lemma Guards.selected_eq (hg : Guards r own owner q params)
    (ha : Agree B r own owner db db') : B.selected db q params = B.selected db' q params := by
  -- the conditions pick their rows from among the caller's
  have hfilter : ∀ l : List Row, l.filter (fun row => q.conds.all (B.holds q.table params row)) =
      (l.filter (Service.visible B r own owner)).filter
        fun row => q.conds.all (B.holds q.table params row) := by
    intro l
    rw [filter_filter]
    refine filter_congr fun row _ => ?_
    cases hrow : q.conds.all (B.holds q.table params row) with
    | false => rfl
    | true => rw [hg.visible hrow]; rfl
  unfold Backend.selected
  rw [hfilter, hfilter (db' q.table), hg.table, ha.rows]

lemma Guards.query_eq (hg : Guards r own owner q params)
    (ha : Agree B r own owner db db') : B.query db q params = B.query db' q params := by
  unfold Backend.query
  split_ifs
  · rw [← hg.selected_eq ha]
    congr 1
    refine map_congr_left fun row hrow => ?_
    obtain ⟨hmem, hconds⟩ := mem_filter.1 hrow
    rw [hg.table] at hmem
    have hchild : B.children db q row = B.children db' q row :=
      map_congr_left fun j hj =>
        ha.related row hmem (hg.visible hconds) j (hg.joins hj)
    rw [hchild]
  · rfl

def Guarded (r : Resource) (own : Ownership) (owner : Bytes) : Op → Prop
  | .queryCached q params _ _ => Guards r own owner q params
  | _ => False

lemma answers_eq (c : Caches) (ha : Agree B r own owner db db') (op : Op)
    (hop : Guarded r own owner op) : answers B c db op = answers B c db' op := by
  cases op with
  | queryCached q params =>
    show dbQueryCached B c db q params = dbQueryCached B c db' q params
    unfold dbQueryCached
    rw [Guards.query_eq hop ha]
  | _ => exact absurd hop id

end

variable {owner : Bytes}

section

variable {lib : Platform} {auth : AuthConfig} {r : Resource} {own : Ownership} {req : Request}

lemma guarded_aggregate (hown : r.ownership = some own) {perms : Option Perms}
    (hbypass : bypassOwn auth perms r.permissions.header req = false) (projection : Bytes)
    (respond : PgResult → Response) : (aggregate lib auth r perms projection req respond).Always
      (Guarded r own (userId auth own req)) := by
  unfold aggregate
  rw [hbypass]
  split
  · trivial
  split
  · trivial
  next w hw =>
  obtain ⟨howned, hund⟩ := owned_of_applyWhere hown hw
  refine Always.perform_bind ?_ fun _ => trivial
  exact ⟨rfl, by simp [aggregateSelect], howned, hund⟩

lemma guards_listSelect {w : Where} (hown : Owned own owner w)
    (hund : Undeleted r w) (proj order : Bytes) :
    Guards r own owner (listSelect r req proj order w).1 (listSelect r req proj order w).2 := by
  have hext : Extends ⟨(listSelect r req proj order w).1.conds, (listSelect r req proj order w).2⟩
      (cursorWhere r req w) := by
    unfold listSelect
    split_ifs
    · exact ⟨fun _ => id, prefix_append _ _⟩
    · exact ⟨fun _ => id, prefix_append _ _⟩
  have hall := hext.trans (extends_cursorWhere r req w)
  refine ⟨?_, ?_, hown.mono hall, hund.mono hall⟩
  · unfold listSelect
    split_ifs <;> rfl
  · unfold listSelect
    dsimp only
    split_ifs <;> exact fun _ => id

lemma guarded_listHandler (hown : r.ownership = some own)
    (hbypass : bypassOwn auth r.permissions.list r.permissions.header req = false) :
    (listHandler lib auth r req).Always (Guarded r own (userId auth own req)) := by
  unfold listHandler
  rw [hbypass]
  split
  · trivial
  split
  · trivial
  split
  · trivial
  next w hw =>
  split
  · trivial
  obtain ⟨howned, hund⟩ := owned_of_applyWhere hown hw
  exact Always.perform_bind (guards_listSelect howned hund _ _) fun _ => trivial

lemma guarded_getFromTable {w : Where} (hown : Owned own owner w) :
    (getFromTable lib r req w).Always (Guarded r own owner) := by
  unfold getFromTable
  split
  · trivial
  refine Always.perform_bind ?_ fun _ => trivial
  exact ⟨rfl, fun _ => id, hown.mono (extends_softDeleteWhere r w), undeleted_softDeleteWhere r w⟩

lemma guarded_getHandler (hown : r.ownership = some own) (tableId : ℕ)
    (hbypass : bypassOwn auth r.permissions.get r.permissions.header req = false)
    (hram : r.readMode = .ramEntityFirst →
      roleCheck auth r.permissions.get r.permissions.header req → userId auth own req = []) :
    (getHandler lib auth r tableId req).Always (Guarded r own (userId auth own req)) := by
  unfold getHandler
  dsimp only
  rw [hbypass]
  split
  · trivial
  next hrole =>
  split
  · trivial
  split
  · trivial
  next w hw =>
  split
  · next hmode =>
    have howner := hram hmode (by simpa using hrole)
    simp [ownWhere, hown, howner] at hw
  · exact guarded_getFromTable (owned_of_ownWhere hown hw)

end

variable {own : Ownership}

lemma confidential_of_guarded {lib : Platform} {cfg : Config} {r : Resource}
    {ep : Endpoint} (h : ∀ req : Request,
      bypassOwn cfg.auth (r.perms ep) r.permissions.header req = false →
        (handler lib cfg r req ep).Always (Guarded r own (userId cfg.auth own req))) :
    Confidential lib cfg r own ep := by
  intro B c req db db' hbypass ha
  exact eval_congr (h req hbypass) (answers_eq c ha)

section

variable (r : Resource) (id : Bytes)

def textBackend : Backend where
  sqlEq _ _ value p := value == p.value
  compare _ _ _ value p := value == p.value
  joined j parent child := parent j.pk == child j.fk
  finish _ _ rows :=
    { fields := r.columns.map fun col => { name := col }
      rows := rows.map fun row => r.columns.map row.1 }
  duplicateTable _ := .error []

def emptyCaches : Caches where
  digest text := text
  result _ := none
  entity _ _ := none
  stored _ _ row := some row

def oneRow : Database := fun table => if table = r.table then [fun _ => some id] else []

def noRow : Database := fun _ => []

lemma agree_noRow (h : id ≠ owner) : Agree (textBackend r) r own owner noRow (oneRow r id) := by
  refine ⟨?_, by simp [noRow]⟩
  have hrow : visible (textBackend r) r own owner (fun _ => some id) = false := by
    simp [visible, textBackend, PgParam.fromText, h]
  simp [noRow, oneRow, hrow]

lemma eval_getFromRam (B : Backend) (c : Caches) (db : Database) (tableId : ℕ) :
    (getFromRam r tableId id).eval (answers B c db) =
      entityResponse (dbGetEntity B c db tableId id (entitySelect r) [pkParam id]) := rfl

lemma eval_noRow (tableId : ℕ) :
    (getFromRam r tableId id).eval (answers (textBackend r) emptyCaches noRow) =
      .plain 404 (str "not found") := by
  have hrows : ((textBackend r).query noRow (entitySelect r) [pkParam id]).rows = [] := by
    simp [Backend.query, entitySelect, Backend.selected, noRow, textBackend]
  have hnone : dbGetEntity (textBackend r) emptyCaches noRow tableId id (entitySelect r)
      [pkParam id] = none := by
    simp [dbGetEntity, emptyCaches, hrows]
  rw [eval_getFromRam, hnone]
  rfl

lemma eval_oneRow (tableId : ℕ) (hid : pkParam id = .text id) :
    ((getFromRam r tableId id).eval (answers (textBackend r) emptyCaches (oneRow r id))).status =
      200 := by
  have hresult : (textBackend r).query (oneRow r id) (entitySelect r) [pkParam id] =
      { fields := r.columns.map fun col => { name := col }
        rows := [r.columns.map fun _ => some id] } := by
    simp [Backend.query, entitySelect, Backend.selected, oneRow, textBackend, Backend.holds, hid,
      PgParam.text]
  obtain ⟨data, hsome⟩ : ∃ data, dbGetEntity (textBackend r) emptyCaches (oneRow r id) tableId id
      (entitySelect r) [pkParam id] = some data := by
    simp [dbGetEntity, emptyCaches, hresult]
  rw [eval_getFromRam, hsome]
  rfl

def askFor (req : Request) : Request := { req with params := [(str "id", id)] }

@[simp] lemma param_askFor (req : Request) : (askFor id req).param (str "id") = id := by
  simp [askFor, Request.param]

end

lemma getHandler_of_entered (lib : Platform) {auth : AuthConfig} {r : Resource}
    (req : Request) (tableId : ℕ) (hown : r.ownership = some own)
    (hram : r.readMode = .ramEntityFirst)
    (hrole : roleCheck auth r.permissions.get r.permissions.header req)
    (hbypass : bypassOwn auth r.permissions.get r.permissions.header req = false)
    (howner : userId auth own req ≠ []) (hid : req.param (str "id") ≠ []) :
    getHandler lib auth r tableId req = getFromRam r tableId (req.param (str "id")) := by
  unfold getHandler
  simp [hrole, hbypass, hid, ownWhere, hown, howner, hram]

lemma not_confidential_of_entered {lib : Platform} {cfg : Config} {r : Resource}
    (hown : r.ownership = some own) (hram : r.readMode = .ramEntityFirst)
    (h : Entered cfg r own) : ¬ Confidential lib cfg r own .get := by
  obtain ⟨req, hrole, hbypass, howner⟩ := h
  obtain ⟨id, hne, hnil, hpk⟩ : ∃ id, id ≠ userId cfg.auth own req ∧ id ≠ [] ∧
      pkParam id = .text id := by
    by_cases hx : str "x" = userId cfg.auth own req
    · refine ⟨str "y", ?_, by decide, by decide⟩
      rw [← hx]
      decide
    · exact ⟨str "x", hx, by decide, by decide⟩
  intro hconf
  -- the same caller asks for the row, and gets it whoever owns it
  have hget : handler lib cfg r (askFor id req) .get = getFromRam r (r.tableId cfg) id := by
    have hram' := getHandler_of_entered lib (askFor id req) (r.tableId cfg) hown hram hrole hbypass
      howner (by simpa using hnil)
    rwa [param_askFor] at hram'
  have heval := hconf (textBackend r) emptyCaches (askFor id req) noRow (oneRow r id) hbypass
    (agree_noRow r id hne)
  rw [hget, eval_noRow] at heval
  have hone := eval_oneRow r id (r.tableId cfg) hpk
  rw [← heval] at hone
  exact absurd hone (by decide)

/-- **An endpoint that reads is confidential unless it looks rows up in the entity cache**, for some
caller without a bypass role. -/
theorem confidential_iff (lib : Platform) (cfg : Config) (r : Resource) (own : Ownership)
    (ep : Endpoint) (hown : r.ownership = some own) (hep : ep.reads = true) :
    Confidential lib cfg r own ep ↔
      ¬ (ep = .get ∧ r.readMode = .ramEntityFirst ∧ Entered cfg r own) := by
  constructor
  · rintro hconf ⟨rfl, hram, hent⟩
    exact not_confidential_of_entered hown hram hent hconf
  · intro hnot
    refine confidential_of_guarded fun req hbypass => ?_
    cases ep with
    | list => exact guarded_listHandler hown hbypass
    | count => exact guarded_aggregate hown hbypass _ _
    | stats =>
      unfold handler
      dsimp only
      split
      · trivial
      · exact guarded_aggregate hown hbypass _ _
    | get =>
      refine guarded_getHandler hown _ hbypass fun hram hrole => ?_
      by_contra howner
      exact hnot ⟨rfl, hram, req, hrole, hbypass, howner⟩
    | _ => cases hep

def letters : Resource :=
  { path := str "/letters", table := str "letters",
    columns := [str "id", str "owner", str "text"], readMode := .ramEntityFirst,
    ownership := some { column := str "owner" } }

def lettersConfig : Config := { resources := [letters] }

theorem confidential_list_letters :
    Confidential ⟨fun _ => []⟩ lettersConfig letters { column := str "owner" } .list :=
  (confidential_iff ⟨fun _ => []⟩ lettersConfig letters { column := str "owner" } .list rfl rfl).2
    (by simp)

def requestOfU : Request :=
  { method := .GET, path := str "/letters/x", query := [], version := str "HTTP/1.1",
    headers := [⟨str "X-User-Id", str "u"⟩], body := [], keepAlive := true, params := [] }

theorem not_confidential_get_letters : lettersConfig.Accepted ∧
      ¬ Confidential ⟨fun _ => []⟩ lettersConfig letters { column := str "owner" } .get := by
  refine ⟨by unfold Config.Accepted; decide +kernel, ?_⟩
  exact not_confidential_of_entered rfl rfl
    ⟨requestOfU, by decide +kernel, by decide +kernel, by decide +kernel⟩

end SpidoNG.Service
