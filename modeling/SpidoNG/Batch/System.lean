import SpidoNG.Batch.Writer
import SpidoNG.Lib.Runs

/-!
# The batch writer and its threads

`BatchWriter` keeps a queue for every table.
-/

namespace SpidoNG.Batch

open Bytes Pg List Option Function

def supersededBy (i : ℕ) : List Row → List Row
  | [] => []
  | row :: rows =>
    if rows.any fun r => keyBytes i r = keyBytes i row then row :: supersededBy i rows
    else supersededBy i rows

def BatchTableConfig.superseded (cfg : BatchTableConfig) (rows : List Row) : List Row :=
  match cfg.dataModel, cfg.pkIndex with
  | .State, some i => supersededBy i rows
  | _, _ => []

lemma length_coalesceBy_add (i : ℕ) (rows : List Row) :
    (coalesceBy i rows).length + (supersededBy i rows).length = rows.length := by
  induction rows with
  | nil => rfl
  | cons _ _ ih =>
    unfold coalesceBy supersededBy
    split
    · rw [length_cons, length_cons, ← ih]
      omega
    · rw [length_cons, length_cons, ← ih]
      omega

lemma BatchTableConfig.length_coalesce_add (cfg : BatchTableConfig) (rows : List Row) :
    (cfg.coalesce rows).length + (cfg.superseded rows).length = rows.length := by
  unfold BatchTableConfig.coalesce BatchTableConfig.superseded
  cases cfg.dataModel with
  | Event => rfl
  | State =>
    cases cfg.pkIndex with
    | none => rfl
    | some i => exact length_coalesceBy_add i rows

inductive Flusher
  | waiting
  | drained (rows : List Row)
  | sending (rows : List Row) (attempt : ℕ)
  | observing (rows : ℕ)
  | exited
  deriving DecidableEq

def Flusher.batch : Flusher → List Row
  | .drained rows => rows
  | .sending rows _ => rows
  | _ => []

structure BatchWriter.TableState where
  cfg : BatchTableConfig
  queue : List Row
  dynBatchSize : ℕ
  flushRequest : Bool
  stop : Bool
  flusher : Flusher
  flushed : ℕ
  failed : ℕ
  enqueued : List Row
  batches : List (List Row)
  dropped : ℕ

inductive TableEvent
  | enqueue (row : Row)
  | requestFlush
  | wake
  | send
  | answer (ok : Bool)
  | observe
  | retune (combined : ℚ)
  | stop
  deriving DecidableEq

namespace BatchWriter.TableState

def start (cfg : BatchTableConfig) : TableState :=
  { cfg := cfg.prepared, queue := [], dynBatchSize := cfg.batchSize, flushRequest := false
    stop := false, flusher := .waiting, flushed := 0, failed := 0
    enqueued := [], batches := [], dropped := 0 }

def taken (s : TableState) : ℕ := Batch.taken s.queue.length s.dynBatchSize

def enqueue (s : TableState) (row : Row) : TableState :=
  { s with
    queue := s.queue ++ [row]
    flushRequest := s.flushRequest || decide (s.dynBatchSize ≤ s.queue.length + 1)
    enqueued := s.enqueued ++ [row] }

def wake (s : TableState) : TableState :=
  if s.stop = true ∧ s.queue = [] then { s with flusher := .exited }
  else
    { s with
      queue := s.queue.drop s.taken
      flushRequest := false
      flusher := .drained (s.queue.take s.taken)
      batches := s.batches ++ [s.queue.take s.taken] }

def send (s : TableState) (rows : List Row) : TableState :=
  if rows = [] then { s with flusher := .waiting }
  else
    { s with
      flusher := .sending (s.cfg.coalesce rows) 0
      dropped := s.dropped + (s.cfg.superseded rows).length }

def answer (s : TableState) (rows : List Row) (attempt : ℕ) (ok : Bool) : TableState :=
  if ok then { s with flushed := s.flushed + rows.length, flusher := .observing rows.length }
  else if s.cfg.maxRetry ≤ attempt + 1 then
    { s with failed := s.failed + rows.length, flusher := .observing rows.length }
  else { s with flusher := .sending rows (attempt + 1) }

def step (s : TableState) : TableEvent → Option TableState
  | .enqueue row => some (s.enqueue row)
  | .requestFlush => some { s with flushRequest := true }
  | .retune combined => some { s with dynBatchSize := s.cfg.scaledBatchSize combined }
  | .stop => some { s with stop := true }
  | .wake =>
    match s.flusher with
    | .waiting => some s.wake
    | _ => none
  | .send =>
    match s.flusher with
    | .drained rows => some (s.send rows)
    | _ => none
  | .answer ok =>
    match s.flusher with
    | .sending rows attempt => some (s.answer rows attempt ok)
    | _ => none
  | .observe =>
    match s.flusher with
    | .observing 0 => some { s with flusher := .waiting }
    | .observing (n + 1) => some { s with flusher := .observing n }
    | _ => none

variable {s s' : TableState} {e : TableEvent}

lemma step_cases (h : s.step e = some s') : (∃ row, e = .enqueue row ∧ s' = s.enqueue row) ∨
    (e = .requestFlush ∧ s' = { s with flushRequest := true }) ∨ (∃ combined, e = .retune combined ∧
      s' = { s with dynBatchSize := s.cfg.scaledBatchSize combined }) ∨
    (e = .stop ∧ s' = { s with stop := true }) ∨ (e = .wake ∧ s.flusher = .waiting ∧ s' = s.wake) ∨
    (e = .send ∧ ∃ rows, s.flusher = .drained rows ∧ s' = s.send rows) ∨
    (∃ ok, e = .answer ok ∧ ∃ rows attempt, s.flusher = .sending rows attempt ∧
      s' = s.answer rows attempt ok) ∨
    (e = .observe ∧ s.flusher = .observing 0 ∧ s' = { s with flusher := .waiting }) ∨
    (e = .observe ∧ ∃ n, s.flusher = .observing (n + 1) ∧
      s' = { s with flusher := .observing n }) := by
  cases e with
  | enqueue | requestFlush | retune | stop => simp_all [step]
  | wake | send | answer =>
    cases hf : s.flusher <;> simp_all [step]
  | observe =>
    cases hf : s.flusher with
    | observing n => cases n <;> simp_all [step]
    | _ => simp_all [step]

/-- No row is lost between the caller and the counters, and the batches are the enqueued rows in
their order. -/
structure Conserved (s : TableState) : Prop where
  count : s.enqueued.length =
    s.queue.length + s.flusher.batch.length + s.dropped + s.flushed + s.failed
  order : s.batches.flatten ++ s.queue = s.enqueued

lemma conserved_start (cfg : BatchTableConfig) : (start cfg).Conserved := ⟨rfl, rfl⟩

lemma Conserved.enqueue (h : s.Conserved) (row : Row) : (s.enqueue row).Conserved where
  count := by
    show (s.enqueued ++ [row]).length = (s.queue ++ [row]).length + s.flusher.batch.length +
      s.dropped + s.flushed + s.failed
    rw [length_append, length_append, h.count]
    omega
  order := by
    show s.batches.flatten ++ (s.queue ++ [row]) = s.enqueued ++ [row]
    rw [← append_assoc, h.order]

lemma Conserved.wake (h : s.Conserved) (hf : s.flusher = .waiting) : s.wake.Conserved := by
  have hcount := h.count
  rw [hf] at hcount
  unfold TableState.wake
  split
  · exact ⟨hcount, h.order⟩
  · refine ⟨?_, ?_⟩
    · show s.enqueued.length = (s.queue.drop s.taken).length + (s.queue.take s.taken).length +
        s.dropped + s.flushed + s.failed
      rw [Nat.add_comm (s.queue.drop _).length, ← length_append, take_append_drop, hcount]
      rfl
    · show (s.batches ++ [s.queue.take s.taken]).flatten ++ s.queue.drop s.taken = s.enqueued
      rw [flatten_append, flatten_singleton, append_assoc, take_append_drop, h.order]

lemma Conserved.send {rows : List Row} (h : s.Conserved) (hf : s.flusher = .drained rows) :
    (s.send rows).Conserved := by
  have hcount := h.count
  rw [hf] at hcount
  unfold TableState.send
  split
  case isTrue hnil =>
    subst hnil
    exact ⟨hcount, h.order⟩
  case isFalse =>
    refine ⟨?_, h.order⟩
    have hrows := s.cfg.length_coalesce_add rows
    show s.enqueued.length = s.queue.length + (s.cfg.coalesce rows).length +
      (s.dropped + (s.cfg.superseded rows).length) + s.flushed + s.failed
    rw [hcount]
    show s.queue.length + rows.length + s.dropped + s.flushed + s.failed = _
    omega

lemma Conserved.answer {rows : List Row} {attempt : ℕ} (h : s.Conserved)
    (hf : s.flusher = .sending rows attempt) (ok : Bool) :
    (s.answer rows attempt ok).Conserved := by
  have hcount := h.count
  rw [hf] at hcount
  replace hcount : s.enqueued.length =
    s.queue.length + rows.length + s.dropped + s.flushed + s.failed := hcount
  unfold TableState.answer
  split_ifs
  · refine ⟨?_, h.order⟩
    show s.enqueued.length = s.queue.length + 0 + s.dropped + (s.flushed + rows.length) + s.failed
    omega
  · refine ⟨?_, h.order⟩
    show s.enqueued.length = s.queue.length + 0 + s.dropped + s.flushed + (s.failed + rows.length)
    omega
  · exact ⟨hcount, h.order⟩

lemma Conserved.step (h : s.Conserved) (hstep : s.step e = some s') : s'.Conserved := by
  obtain ⟨row, -, rfl⟩ | ⟨-, rfl⟩ | ⟨c, -, rfl⟩ | ⟨-, rfl⟩ | ⟨-, hf, rfl⟩ | ⟨-, rows, hf, rfl⟩ |
    ⟨ok, -, rows, attempt, hf, rfl⟩ | ⟨-, hf, rfl⟩ | ⟨-, n, hf, rfl⟩ := step_cases hstep
  · exact h.enqueue row
  · exact ⟨h.count, h.order⟩
  · exact ⟨h.count, h.order⟩
  · exact ⟨h.count, h.order⟩
  · exact h.wake hf
  · exact h.send hf
  · exact h.answer hf ok
  · exact ⟨by simpa [hf, Flusher.batch] using h.count, h.order⟩
  · exact ⟨by simpa [hf, Flusher.batch] using h.count, h.order⟩

def Exits (s : TableState) : Prop := s.flusher = .exited → s.stop = true ∧ s.queue = []

lemma Exits.step (h : s.Exits) (hstep : s.step e = some s')
    (hrow : ∀ row, e = .enqueue row → s.stop = false) : s'.Exits := by
  obtain ⟨row, rfl, rfl⟩ | ⟨-, rfl⟩ | ⟨c, -, rfl⟩ | ⟨-, rfl⟩ | ⟨-, hf, rfl⟩ | ⟨-, rows, hf, rfl⟩ |
    ⟨ok, -, rows, attempt, hf, rfl⟩ | ⟨-, hf, rfl⟩ | ⟨-, n, hf, rfl⟩ := step_cases hstep
  · intro hexit
    exact absurd (h hexit).1 (by rw [hrow row rfl]; exact Bool.false_ne_true)
  · exact h
  · exact h
  · exact fun hexit => ⟨rfl, (h hexit).2⟩
  · intro hexit
    unfold TableState.wake at hexit ⊢
    split at hexit
    case isTrue hstop =>
      rw [if_pos hstop]
      exact hstop
    case isFalse => exact absurd hexit nofun
  · intro hexit
    unfold TableState.send at hexit
    split at hexit <;> cases hexit
  · intro hexit
    unfold TableState.answer at hexit
    split_ifs at hexit
  · exact fun hexit => absurd hexit nofun
  · exact fun hexit => absurd hexit nofun

lemma stop_step (hstep : s.step e = some s') (he : e ≠ .stop) : s'.stop = s.stop := by
  obtain ⟨row, rfl, rfl⟩ | ⟨-, rfl⟩ | ⟨c, -, rfl⟩ | ⟨rfl, -⟩ | ⟨-, hf, rfl⟩ | ⟨-, rows, hf, rfl⟩ |
    ⟨ok, -, rows, attempt, hf, rfl⟩ | ⟨-, hf, rfl⟩ | ⟨-, n, hf, rfl⟩ := step_cases hstep
  · rfl
  · rfl
  · rfl
  · exact absurd rfl he
  · unfold TableState.wake
    split <;> rfl
  · unfold TableState.send
    split <;> rfl
  · unfold TableState.answer
    split_ifs <;> rfl
  · rfl
  · rfl

end BatchWriter.TableState

inductive Lifetime
  | alive
  | destroying
  | destroyed
  deriving DecidableEq

structure BatchWriter where
  names : List Bytes
  states : Bytes → Option BatchWriter.TableState
  lifetime : Lifetime

inductive WriterEvent
  | table (name : Bytes) (e : TableEvent)
  | destroy
  | destroyed
  deriving DecidableEq

def TableEvent.within : TableEvent → Lifetime → Bool
  | .enqueue _, l | .requestFlush, l => l == .alive
  | .stop, l => l == .destroying
  | _, l => l != .destroyed

def TableEvent.isCall : TableEvent → Bool
  | .enqueue _ | .requestFlush => true
  | _ => false

namespace BatchWriter

def start (tables : List (Bytes × BatchTableConfig)) : BatchWriter :=
  { names := tables.map Prod.fst
    states := fun name => (tables.lookup name).map TableState.start
    lifetime := .alive }

def setTable (w : BatchWriter) (name : Bytes) (s : TableState) : BatchWriter :=
  { w with states := update w.states name (some s) }

def joinable (w : BatchWriter) : Bool :=
  w.names.all fun name => (w.states name).all fun s => s.flusher == .exited

def step (w : BatchWriter) : WriterEvent → Option BatchWriter
  | .table name e =>
    if e.within w.lifetime then
      match w.states name with
      | some s => (s.step e).map (w.setTable name)
      | none => if e.isCall then some w else none
    else none
  | .destroy => if w.lifetime = .alive then some { w with lifetime := .destroying } else none
  | .destroyed =>
    if w.lifetime = .destroying ∧ w.joinable = true then some { w with lifetime := .destroyed }
    else none

variable {w w' : BatchWriter} {tables : List (Bytes × BatchTableConfig)} {es : List WriterEvent}

lemma step_cases {e : WriterEvent} (h : w.step e = some w') :
    (∃ name f s s', e = .table name f ∧ f.within w.lifetime ∧ w.states name = some s ∧
      s.step f = some s' ∧ w' = w.setTable name s') ∨
    (∃ name f, e = .table name f ∧ f.isCall ∧ w.states name = none ∧ w' = w) ∨
    (e = .destroy ∧ w.lifetime = .alive ∧ w' = { w with lifetime := .destroying }) ∨
    (e = .destroyed ∧ w.lifetime = .destroying ∧ w.joinable ∧
      w' = { w with lifetime := .destroyed }) := by
  cases e with
  | table name f =>
    simp only [step] at h
    split at h
    case isFalse => cases h
    case isTrue hwithin =>
      cases hs : w.states name with
      | some s =>
        rw [hs] at h
        obtain ⟨s', hs', rfl⟩ := map_eq_some_iff.1 h
        exact .inl ⟨name, f, s, s', rfl, hwithin, hs, hs', rfl⟩
      | none =>
        rw [hs] at h
        simp only at h
        split at h
        · cases h
          exact .inr (.inl ⟨name, f, rfl, ‹_›, hs, rfl⟩)
        · cases h
  | destroy =>
    simp only [step] at h
    split at h
    · cases h
      exact .inr (.inr (.inl ⟨rfl, ‹_›, rfl⟩))
    · cases h
  | destroyed =>
    simp only [step] at h
    split at h
    case isTrue hd =>
      cases h
      exact .inr (.inr (.inr ⟨rfl, hd.1, hd.2, rfl⟩))
    case isFalse => cases h

structure Sound (w : BatchWriter) : Prop where
  conserved : ∀ {name s}, w.states name = some s → s.Conserved
  exits : ∀ {name s}, w.states name = some s → s.Exits
  running : ∀ {name s}, w.states name = some s → w.lifetime = .alive → s.stop = false
  joined : ∀ {name s}, w.states name = some s → w.lifetime = .destroyed → s.flusher = .exited
  named : ∀ {name}, name ∈ w.names ↔ (w.states name).isSome

lemma sound_start (tables : List (Bytes × BatchTableConfig)) : (start tables).Sound := by
  have hstart : ∀ {name s}, (start tables).states name = some s →
    ∃ cfg, s = TableState.start cfg := by
    intro name s hs
    obtain ⟨cfg, -, rfl⟩ := map_eq_some_iff.1 hs
    exact ⟨cfg, rfl⟩
  constructor
  case conserved =>
    intro name s hs
    obtain ⟨cfg, rfl⟩ := hstart hs
    exact TableState.conserved_start cfg
  case exits =>
    intro name s hs
    obtain ⟨cfg, rfl⟩ := hstart hs
    exact fun hexit => absurd hexit nofun
  case running =>
    intro name s hs _
    obtain ⟨cfg, rfl⟩ := hstart hs
    rfl
  case joined => exact fun _ h => absurd h nofun
  case named =>
    intro name
    show name ∈ tables.map Prod.fst ↔ ((tables.lookup name).map TableState.start).isSome
    rw [isSome_map]
    simp

lemma setTable_states {name name' : Bytes} {s t : TableState}
    (h : (w.setTable name s).states name' = some t) :
    name' = name ∧ t = s ∨ name' ≠ name ∧ w.states name' = some t := by
  replace h : update w.states name (some s) name' = some t := h
  by_cases hn : name' = name
  · subst hn
    rw [update_self] at h
    exact .inl ⟨rfl, (some.inj h).symm⟩
  · rw [update_of_ne hn] at h
    exact .inr ⟨hn, h⟩

lemma Sound.setTable {name : Bytes} {s s' : TableState} {f : TableEvent} (h : w.Sound)
    (hwithin : f.within w.lifetime) (hs : w.states name = some s) (hstep : s.step f = some s') :
    (w.setTable name s').Sound := by
  constructor
  case conserved =>
    intro name' t ht
    obtain ⟨-, rfl⟩ | ⟨-, ht⟩ := setTable_states ht
    · exact (h.conserved hs).step hstep
    · exact h.conserved ht
  case exits =>
    intro name' t ht
    obtain ⟨-, rfl⟩ | ⟨-, ht⟩ := setTable_states ht
    · refine (h.exits hs).step hstep fun row hrow => ?_
      subst hrow
      exact h.running hs (eq_of_beq hwithin)
    · exact h.exits ht
  case running =>
    intro name' t ht halv
    obtain ⟨-, rfl⟩ | ⟨-, ht⟩ := setTable_states ht
    · refine (TableState.stop_step hstep fun hstop => ?_).trans (h.running hs halv)
      subst hstop
      have hdestroying : w.lifetime = .destroying := eq_of_beq hwithin
      rw [show w.lifetime = .alive from halv] at hdestroying
      cases hdestroying
    · exact h.running ht halv
  case joined =>
    intro name' t ht hdes
    exfalso
    rw [show w.lifetime = .destroyed from hdes] at hwithin
    cases f <;> cases hwithin
  case named =>
    intro name'
    show name' ∈ w.names ↔ (update w.states name (some s') name').isSome
    by_cases hn : name' = name
    · subst hn
      rw [update_self, h.named, hs]
      rfl
    · rw [update_of_ne hn, h.named]

lemma Sound.step {e : WriterEvent} (h : w.Sound) (hstep : w.step e = some w') : w'.Sound := by
  obtain ⟨name, f, s, s', -, hwithin, hs, hs', rfl⟩ | ⟨name, f, -, -, -, rfl⟩ | ⟨-, halv, rfl⟩ |
    ⟨-, hdestroying, hjoin, rfl⟩ := step_cases hstep
  · exact h.setTable hwithin hs hs'
  · exact h
  · exact ⟨h.conserved, h.exits, fun _ h => absurd h nofun, fun _ h => absurd h nofun, h.named⟩
  · refine ⟨h.conserved, h.exits, fun _ h => absurd h nofun, fun {name s} hs _ => ?_, h.named⟩
    have hname : name ∈ w.names := h.named.2 (by rw [show w.states name = some s from hs]; rfl)
    have hall := all_eq_true.1 hjoin name hname
    rw [show w.states name = some s from hs] at hall
    exact eq_of_beq hall

lemma sound_of_run (hrun : Runs.run step (start tables) es = some w) :
    w.Sound ∧ w.names = tables.map Prod.fst := by
  have hok : Runs.Meets step (fun _ _ => True) (start tables) es :=
    Runs.meets_of_forall (fun _ _ _ => trivial) _
  refine Runs.run_induction (I := fun w => w.Sound ∧ w.names = tables.map Prod.fst)
    (fun {w e w'} h _ hstep => ⟨h.1.step hstep, ?_⟩) ⟨sound_start tables, rfl⟩ hok hrun
  obtain ⟨name, f, s, s', -, -, -, -, rfl⟩ | ⟨name, f, -, -, -, rfl⟩ | ⟨-, -, rfl⟩ | ⟨-, -,
    -, rfl⟩ :=
    step_cases hstep
  all_goals exact h.2

/-- In every run each configured table has its rows conserved and in order, and when the destructor
has returned its queue is empty and its flusher has left. -/
theorem conserved_of_run (hrun : Runs.run step (start tables) es = some w) (name : Bytes)
    (hname : name ∈ tables.map Prod.fst) : ∃ s, w.states name = some s ∧ s.Conserved ∧
      (w.lifetime = .destroyed → s.queue = [] ∧ s.flusher = .exited) := by
  obtain ⟨hsound, hnames⟩ := sound_of_run hrun
  rw [← hnames] at hname
  obtain ⟨s, hs⟩ := isSome_iff_exists.1 (hsound.named.1 hname)
  refine ⟨s, hs, hsound.conserved hs, fun hdestroyed => ?_⟩
  have hexited := hsound.joined hs hdestroyed
  exact ⟨(hsound.exits hs hexited).2, hexited⟩

def oneRetry : List (Bytes × BatchTableConfig) :=
  [(str "t", { columns := [str "id", str "v"], primaryKey := str "id", maxRetry := 2 })]

def busyRun : List WriterEvent :=
  let row (k v : String) : Row := [.fromText (str k), .fromText (str v)]
  (([.enqueue (row "a" "1"), .enqueue (row "a" "2"), .wake, .enqueue (row "b" "1"), .send,
    .answer false, .answer true, .observe, .observe, .retune 1, .wake, .send, .answer false,
    .answer false, .observe, .observe, .enqueue (row "c" "1")] : List TableEvent).map
      (.table (str "t"))) ++
  [.destroy] ++
  (([.stop, .wake, .send, .answer true, .observe, .observe, .wake] : List TableEvent).map
    (.table (str "t"))) ++
  [.destroyed]

def TableState.counts (s : TableState) : ℕ × ℕ × ℕ × ℕ :=
  (s.enqueued.length, s.dropped, s.flushed, s.failed)

theorem conserved_busyRun :
    ∃ w s, Runs.run step (start oneRetry) busyRun = some w ∧ w.lifetime = .destroyed ∧
      w.states (str "t") = some s ∧ s.counts = (4, 1, 2, 1) ∧ s.Conserved ∧ s.queue = [] := by
  have heval : (Runs.run step (start oneRetry) busyRun).map
      (fun w => (w.lifetime, (w.states (str "t")).map TableState.counts)) =
      some (.destroyed, some (4, 1, 2, 1)) := by
    decide +kernel
  obtain ⟨w, hrun, hw⟩ := map_eq_some_iff.1 heval
  obtain ⟨hlife, hcounts⟩ := Prod.mk.inj hw
  obtain ⟨s, hs, hconserved, hend⟩ := conserved_of_run hrun (str "t") (by decide +kernel)
  rw [hs] at hcounts
  exact ⟨w, s, hrun, hlife, hs, some.inj hcounts, hconserved, (hend hlife).1⟩

end BatchWriter

end SpidoNG.Batch
