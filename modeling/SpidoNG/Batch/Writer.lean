import SpidoNG.Pg.Bind

/-!
# The batch writer

The configuration of `BatchWriter` (`spido-pg/src/batch_writer.cpp`) and what `send_batch` builds.
-/

namespace SpidoNG.Batch

open Bytes Pg List

inductive DataModel
  | State
  | Event
  deriving DecidableEq

structure BatchTableConfig where
  columns : List Bytes
  primaryKey : Bytes
  batchSize : ℕ := 500
  maxRetry : ℕ := 3
  upsert : Bool := false
  dataModel : DataModel := .State
  pkIndex : Option ℕ := none
  versionIndex : Option ℕ := none
  deriving DecidableEq

def lastIndex (c : Bytes) : ℕ → List Bytes → Option ℕ → Option ℕ
  | _, [], found => found
  | i, x :: xs, found => lastIndex c (i + 1) xs (if x = c then some i else found)

def BatchTableConfig.prepared (cfg : BatchTableConfig) : BatchTableConfig :=
  { cfg with
    pkIndex := lastIndex cfg.primaryKey 0 cfg.columns cfg.pkIndex
    versionIndex := lastIndex (str "version") 0 cfg.columns cfg.versionIndex
    upsert := cfg.upsert || cfg.dataModel == .State }

def clampScale (combined : ℚ) : ℚ := min (max combined (1 / 10)) 16

def roundHalfUp (x : ℚ) : ℕ := (x + 1 / 2).floor.toNat

def BatchTableConfig.scaledBatchSize (cfg : BatchTableConfig) (combined : ℚ) : ℕ :=
  max 1 (roundHalfUp (cfg.batchSize * clampScale combined))

abbrev Row := List PgParam

def keyBytes (i : ℕ) (row : Row) : Bytes := (row[i]?.map PgParam.value).getD []

def coalesceBy (i : ℕ) : List Row → List Row
  | [] => []
  | row :: rows =>
    if rows.any fun r => keyBytes i r = keyBytes i row then coalesceBy i rows
    else row :: coalesceBy i rows

def BatchTableConfig.coalesce (cfg : BatchTableConfig) (rows : List Row) : List Row :=
  match cfg.dataModel, cfg.pkIndex with
  | .State, some i => coalesceBy i rows
  | _, _ => rows

structure OnConflict where
  key : Bytes
  set : List Bytes
  versionGuard : Bool
  deriving DecidableEq

structure Insert where
  table : Bytes
  columns : List Bytes
  rows : List Row
  onConflict : Option OnConflict

def BatchTableConfig.conflict (cfg : BatchTableConfig) : OnConflict :=
  { key := cfg.primaryKey
    set := cfg.columns.filter (· ≠ cfg.primaryKey)
    versionGuard := cfg.versionIndex.isSome }

def BatchTableConfig.onConflict (cfg : BatchTableConfig) : Option OnConflict :=
  if cfg.upsert && !cfg.primaryKey.isEmpty then some cfg.conflict else none

def BatchTableConfig.insertOf (cfg : BatchTableConfig) (table : Bytes) (rows : List Row) : Insert :=
  { table, columns := cfg.columns, rows, onConflict := cfg.onConflict }

def placeholderGroup (cols next : ℕ) : Bytes :=
  str "(" ++ (str ",").intercalate ((range' next cols).map fun k => str "$" ++ decimal k) ++ str ")"

def OnConflict.render (c : OnConflict) (table : Bytes) : Bytes :=
  str " ON CONFLICT (" ++ c.key ++ str ") DO UPDATE SET " ++
    (str ",").intercalate (c.set.map fun col => col ++ str "=EXCLUDED." ++ col) ++
    if c.versionGuard then str " WHERE " ++ table ++ str ".version <= EXCLUDED.version" else []

def Insert.render (s : Insert) : Bytes :=
  str "INSERT INTO " ++ s.table ++ str " (" ++ (str ",").intercalate s.columns ++ str ") VALUES " ++
    (str ",").intercalate
      ((List.range s.rows.length).map fun r =>
        placeholderGroup s.columns.length (r * s.columns.length + 1)) ++
    match s.onConflict with
    | none => []
    | some c => c.render s.table

def Insert.params (s : Insert) : List PgParam := s.rows.flatten

def stmtName (table : Bytes) (n : ℕ) : Bytes := str "bw_" ++ table ++ str "_" ++ decimal n

def BatchTableConfig.sendBatch (cfg : BatchTableConfig) (table : Bytes)
    (drained : List Row) : Insert :=
  cfg.insertOf table (cfg.coalesce drained)

/-- How many rows of a queue the flusher takes; the length of the queue is cut to 32 bits. -/
def taken (queued dynBatchSize : ℕ) : ℕ := min (queued % 2 ^ 32) dynBatchSize

def drain {α : Type} (dynBatchSize : ℕ) (queue : List α) : List α :=
  queue.take (taken queue.length dynBatchSize)

def wideEvents : BatchTableConfig :=
  { columns := [str "kind"], primaryKey := str "id", batchSize := 65536, dataModel := .Event }

def eventBatch (n : ℕ) : Insert :=
  wideEvents.prepared.sendBatch (str "events")
    (drain (wideEvents.scaledBatchSize 1) (replicate n [.fromText (str "a")]))

lemma eventBatch_rows {n : ℕ} (h : n ≤ wideEvents.scaledBatchSize 1) :
    (eventBatch n).rows = replicate n [.fromText (str "a")] := by
  show drain (wideEvents.scaledBatchSize 1) (replicate n [PgParam.fromText (str "a")]) = _
  have hlt : n < 2 ^ 32 := h.trans_lt (by decide +kernel)
  rw [drain, taken, length_replicate, Nat.mod_eq_of_lt hlt, Nat.min_eq_left h, take_replicate,
    Nat.min_self]

lemma length_eventBatch_params {n : ℕ} (h : n ≤ wideEvents.scaledBatchSize 1) :
    (eventBatch n).params.length = n := by
  rw [Insert.params, length_flatten, eventBatch_rows h, map_replicate, sum_replicate]
  simp

/-- **Bind messages.** The server reads the statement and the parameters that were passed if and
only if they fit. -/
theorem bind_decodes_iff (name : Bytes) (hname : (0 : UInt8) ∉ name) (params : List PgParam) :
    (decodeBind (bindFrame name params)).map (fun m => (m.statement, m.params)) =
      some (name, params.map PgParam.sent) ↔ BindFits name params := by
  constructor
  · intro h
    refine ⟨length_of_decodes h, ?_⟩
    obtain ⟨m, hm, -⟩ := Option.map_eq_some_iff.1 h
    simp only [decodeBind, bindFrame, frame, if_true] at hm
    obtain ⟨body, hbody, -⟩ := Option.bind_eq_some_iff.1 hm
    have hlen := length_of_readBody hbody
    rw [List.length_append, length_putI32] at hlen
    have := length_bindBody name params
    omega
  · intro h
    rw [decodeBind_bindFrame hname h]
    rfl

theorem bind_decodes_three :
    (decodeBind (bindFrame (str "ins_notes") [.fromText (str "a"), .null, .i4 7])).map
      (fun m => (m.statement, m.params)) =
    some (str "ins_notes", [(0, some (str "a")), (1, none), (1, some [0, 0, 0, 7])]) :=
  (bind_decodes_iff (str "ins_notes") (by decide +kernel) _).2 ⟨by decide, by decide +kernel⟩

theorem not_bind_decodes_eventBatch :
    (0 : UInt8) ∉ stmtName (str "events") (eventBatch 65536).rows.length ∧
    (decodeBind (bindFrame (stmtName (str "events") (eventBatch 65536).rows.length)
        (eventBatch 65536).params)).map (fun m => (m.statement, m.params)) ≠
      some (stmtName (str "events") (eventBatch 65536).rows.length,
        (eventBatch 65536).params.map PgParam.sent) := by
  have hsize : 65536 ≤ wideEvents.scaledBatchSize 1 := by decide +kernel
  refine ⟨?_, ?_⟩
  · rw [eventBatch_rows hsize, length_replicate]
    decide +kernel
  · intro h
    have hlt := length_of_decodes h
    rw [length_eventBatch_params hsize] at hlt
    omega

end SpidoNG.Batch
