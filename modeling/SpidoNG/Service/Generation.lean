import SpidoNG.Batch.Writer
import SpidoNG.Service.Server

/-!
# What the generator writes

`generator.py` writes one file of handlers for each resource, named after its table.
-/

namespace SpidoNG.Service

open Bytes Batch List

structure BatchResource extends Resource where
  batchSize : ℕ := 500
  flushIntervalMs : ℕ := 10
  dataModel : DataModel := .State

structure BatchEntry where
  primaryKey : Bytes
  batchSize : ℕ
  flushIntervalMs : ℕ
  dataModel : DataModel
  columns : List Bytes

structure Route where
  method : Http.Method
  path : Bytes
  resource : Resource
  endpoint : Endpoint

def BatchResource.batchEntry (r : BatchResource) : BatchEntry where
  primaryKey := r.primaryKey
  batchSize := r.batchSize
  flushIntervalMs := r.flushIntervalMs
  dataModel := r.dataModel
  columns := r.columns

def Resource.route (r : Resource) (e : Endpoint) : Route :=
  let (method, path) : Http.Method × Bytes :=
    match e with
    | .count => (.GET, r.path ++ str "/count")
    | .stats => (.GET, r.path ++ str "/stats")
    | .list => (.GET, r.path)
    | .get => (.GET, r.path ++ str "/:id")
    | .create => (.POST, r.path)
    | .bulk => (.POST, r.path ++ str "/bulk")
    | .update => (.PUT, r.path ++ str "/:id")
    | .delete => (.DELETE, r.path ++ str "/:id")
  ⟨method, path, r, e⟩

def Resource.routes (r : Resource) : List Route :=
  ([.count, .stats, .list, .get, .create, .bulk, .update, .delete].filter r.serves).map r.route

def handlerFiles (rs : List BatchResource) : Bytes → Option BatchResource :=
  rs.foldl (fun files r => Function.update files r.table (some r)) fun _ => none

def registeredRoutes (rs : List BatchResource) : List Route :=
  rs.flatMap fun r => ((handlerFiles rs r.table).map (·.routes)).getD []

def batchTables (rs : List BatchResource) : Bytes → Option BatchEntry :=
  (rs.filter fun r => r.batched).foldl
    (fun tables r => Function.update tables r.table (some r.batchEntry)) fun _ => none

structure Complete (rs : List BatchResource) : Prop where
  routes : ∀ r ∈ rs, ∀ e, r.serves e = true → r.route e ∈ registeredRoutes rs
  batch : ∀ r ∈ rs, r.batched = true → batchTables rs r.table = some r.batchEntry

def lastOver (rs : List BatchResource) (table : Bytes) : Option BatchResource :=
  rs.reverse.find? fun r => r.table == table

/-- A resource with routes is the last one over its table, and a batched one has the batch settings
of the last batched one. -/
structure Unreplaced (rs : List BatchResource) : Prop where
  routes : ∀ r ∈ rs, (∃ e, r.serves e = true) →
    (lastOver rs r.table).map BatchResource.toResource = some r.toResource
  batch : ∀ r ∈ rs, r.batched = true →
    (lastOver (rs.filter fun r => r.batched) r.table).map BatchResource.batchEntry
    = some r.batchEntry

lemma foldl_update {α : Type} (f : BatchResource → α) (rs : List BatchResource)
    (init : Bytes → Option α) (table : Bytes) :
    rs.foldl (fun (m : Bytes → Option α) r => Function.update m r.table (some (f r))) init table =
      ((lastOver rs table).map f).or (init table) := by
  induction rs generalizing init with
  | nil => rfl
  | cons r rs ih =>
    rw [foldl_cons, ih, lastOver, lastOver, reverse_cons, find?_append]
    cases rs.reverse.find? fun r => r.table == table with
    | some => rfl
    | none =>
      by_cases h : r.table = table
      · subst h
        simp
      · simp [h, Function.update_of_ne (Ne.symm h)]

lemma handlerFiles_eq (rs : List BatchResource) (table : Bytes) :
    handlerFiles rs table = lastOver rs table := by
  have h := foldl_update id rs (fun _ => none) table
  simpa [handlerFiles] using h

lemma batchTables_eq (rs : List BatchResource) (table : Bytes) : batchTables rs table =
      (lastOver (rs.filter fun r => r.batched) table).map BatchResource.batchEntry := by
  have h := foldl_update BatchResource.batchEntry (rs.filter fun r => r.batched) (fun _ =>
    none) table
  simpa [batchTables] using h

lemma mem_routes {r : Resource} {x : Route} : x ∈ r.routes ↔ ∃ e, r.serves e ∧ x = r.route e := by
  constructor
  · intro h
    obtain ⟨e, he, rfl⟩ := mem_map.1 h
    exact ⟨e, (mem_filter.1 he).2, rfl⟩
  · rintro ⟨e, he, rfl⟩
    refine mem_map.2 ⟨e, mem_filter.2 ⟨?_, he⟩, rfl⟩
    cases e <;> decide

variable {rs : List BatchResource}

lemma table_of_lastOver {table : Bytes} {l : BatchResource}
    (h : lastOver rs table = some l) : l.table = table := by
  simpa using find?_some h

lemma mem_registeredRoutes {x : Route} :
    x ∈ registeredRoutes rs ↔ ∃ r ∈ rs, ∃ l, lastOver rs r.table = some l ∧ x ∈ l.routes := by
  unfold registeredRoutes
  rw [mem_flatMap]
  refine exists_congr fun r => and_congr_right fun _ => ?_
  rw [handlerFiles_eq]
  cases lastOver rs r.table with
  | none | some => simp

/-- Every resource is in the generated program, if and only if none with routes or batch settings is
replaced by another one over its table. -/
theorem complete_iff (rs : List BatchResource) : Complete rs ↔ Unreplaced rs := by
  constructor
  · intro h
    refine ⟨fun r hr ⟨e, he⟩ => ?_, fun r hr hbatched => ?_⟩
    · obtain ⟨r', hr', l, hlast, hroute⟩ := mem_registeredRoutes.1 (h.routes r hr e he)
      obtain ⟨e', -, heq⟩ := mem_routes.1 hroute
      -- the route tells the resource that its file was written for
      have hresource : r.toResource = l.toResource := congrArg Route.resource heq
      have htable : r.table = r'.table := by
        rw [hresource]
        exact table_of_lastOver hlast
      rw [htable, hlast, hresource]
      rfl
    · rw [← batchTables_eq]
      exact h.batch r hr hbatched
  · intro h
    refine ⟨fun r hr e he => ?_, fun r hr hbatched => ?_⟩
    · obtain ⟨l, hlast, hl⟩ := Option.map_eq_some_iff.1 (h.routes r hr ⟨e, he⟩)
      refine mem_registeredRoutes.2 ⟨r, hr, l, hlast, ?_⟩
      rw [hl]
      exact mem_routes.2 ⟨e, he, rfl⟩
    · rw [batchTables_eq]
      exact h.batch r hr hbatched

def itemsAt (path : String) (batchSize : ℕ) : BatchResource where
  path := str path
  table := str "items"
  methods := [.GET, .POST]
  columns := [str "id", str "name"]
  batchWrite := true
  batchSize := batchSize

theorem not_complete : Config.Accepted ⟨{}, [(itemsAt "/items" 100).toResource,
      (itemsAt "/public" 500).toResource]⟩ ∧
    ¬ Complete [itemsAt "/items" 100, itemsAt "/public" 500] := by
  refine ⟨by unfold Config.Accepted; decide +kernel, fun h => ?_⟩
  have hroute := h.routes (itemsAt "/items" 100) mem_cons_self .list (by decide +kernel)
  have hpath := mem_map_of_mem (f := fun x : Route => (x.method, x.path)) hroute
  exact absurd hpath (by decide +kernel)

end SpidoNG.Service
