import SpidoNG.Batch.System

/-!
# The dirty marks of the query cache

`Db::write` marks the table dirty; the flush observer takes one mark back for every row sent.
-/

namespace SpidoNG.Db

open Bytes Pg Batch List Option Function BatchWriter.TableState

structure Marks where
  writer : BatchWriter
  dirty : Bytes → ℕ
  writing : List (Bytes × Row)

inductive MarkEvent
  | write (table : Bytes) (row : Row)
  | enqueue (call : ℕ)
  | writer (e : WriterEvent)

def isEnqueue : WriterEvent → Bool
  | .table _ (.enqueue _) => true
  | _ => false

namespace Marks

def start (tables : List (Bytes × BatchTableConfig)) : Marks :=
  { writer := .start tables, dirty := fun _ => 0, writing := [] }

def isDirty (m : Marks) (table : Bytes) : Bool := 0 < m.dirty table

def observes (s : BatchWriter.TableState) : Bool :=
  match s.flusher with
  | .observing (_ + 1) => true
  | _ => false

def cleaned (m : Marks) : WriterEvent → Bytes → ℕ
  | .table table .observe =>
    if (m.writer.states table).any observes then
      update m.dirty table (m.dirty table - 1)
    else m.dirty
  | _ => m.dirty

def step (m : Marks) : MarkEvent → Option Marks
  | .write table row =>
    if m.writer.lifetime = .alive then
      some { m with
        dirty := update m.dirty table (m.dirty table + 1)
        writing := m.writing ++ [(table, row)] }
    else none
  | .enqueue call =>
    (m.writing[call]?).bind fun c =>
      (m.writer.step (.table c.1 (.enqueue c.2))).map fun w =>
        { m with writer := w, writing := m.writing.eraseIdx call }
  | .writer e =>
    if isEnqueue e then none
    else (m.writer.step e).map fun w => { m with writer := w, dirty := m.cleaned e }

def Settled (s : BatchWriter.TableState) : Prop :=
  s.queue = [] ∧ (s.flusher = .waiting ∨ s.flusher = .exited)

/-- No mark is left once every row has been flushed or dead-lettered, and a table with a row on its
way is marked. -/
structure Balanced (m : Marks) : Prop where
  clean : m.writing = [] → (∀ name s, m.writer.states name = some s → Settled s) →
    ∀ table, m.isDirty table = false
  dirty : ∀ name s, m.writer.states name = some s → s.queue ≠ [] ∨ s.flusher.batch ≠ [] →
    m.isDirty name = true

def distinct (cfg : BatchTableConfig) (rows : List Row) : Bool :=
  match cfg.dataModel, cfg.pkIndex with
  | .State, some i => decide (rows.map (keyBytes i)).Nodup
  | _, _ => true

def takenBack (m : Marks) : MarkEvent → Bool
  | .write table _ => (m.writer.states table).isSome
  | .writer (.table table .send) =>
    (m.writer.states table).all fun s => distinct s.cfg s.flusher.batch
  | _ => true

variable {rows : List Row} {name : Bytes} {w : BatchWriter}

lemma supersededBy_eq_nil {i : ℕ} (h : (rows.map (keyBytes i)).Nodup) :
    supersededBy i rows = [] := by
  induction rows with
  | nil => rfl
  | cons _ _ ih =>
    obtain ⟨hrow, hrows⟩ := nodup_cons.1 h
    unfold supersededBy
    rw [if_neg, ih hrows]
    intro hany
    obtain ⟨r, hr, hkey⟩ := any_eq_true.1 hany
    exact hrow (mem_map.2 ⟨r, hr, of_decide_eq_true hkey⟩)

lemma length_coalesce_of_distinct {cfg : BatchTableConfig}
    (h : distinct cfg rows) : (cfg.coalesce rows).length = rows.length := by
  have hsplit := cfg.length_coalesce_add rows
  have hnil : cfg.superseded rows = [] := by
    unfold distinct at h
    unfold BatchTableConfig.superseded
    cases hmodel : cfg.dataModel with
    | Event => rfl
    | State =>
      cases hind : cfg.pkIndex with
      | none => rfl
      | some =>
        rw [hmodel, hind] at h
        exact supersededBy_eq_nil (of_decide_eq_true h)
  rw [hnil] at hsplit
  exact hsplit

variable {m m' : Marks} {tables : List (Bytes × BatchTableConfig)} {es : List MarkEvent}

def outstanding : Flusher → ℕ
  | .drained rows => rows.length
  | .sending rows _ => rows.length
  | .observing n => n
  | _ => 0

def pending (s : BatchWriter.TableState) : ℕ := s.queue.length + outstanding s.flusher

def pendingOf (w : BatchWriter) (table : Bytes) : ℕ := ((w.states table).map pending).getD 0

structure Tallied (m : Marks) : Prop where
  marks : ∀ table, m.dirty table = (m.writing.map Prod.fst).count table + pendingOf m.writer table
  configured : ∀ c ∈ m.writing, (m.writer.states c.1).isSome = true

lemma Tallied.balanced (h : m.Tallied) : m.Balanced where
  clean := by
    intro hwriter hset table
    have hmarks := h.marks table
    have hpen : pendingOf m.writer table = 0 := by
      unfold pendingOf
      cases hs : m.writer.states table with
      | none => rfl
      | some s =>
        obtain ⟨hque, hflushed⟩ := hset table s hs
        show s.queue.length + outstanding s.flusher = 0
        rw [hque]
        rcases hflushed with hf | hf <;> rw [hf] <;> rfl
    rw [hwriter, hpen] at hmarks
    exact decide_eq_false (by rw [hmarks]; exact lt_irrefl 0)
  dirty := by
    intro name s hs hrow
    have hmarks := h.marks name
    have hpen : 0 < pendingOf m.writer name := by
      unfold pendingOf
      rw [hs]
      show 0 < s.queue.length + outstanding s.flusher
      rcases hrow with hque | hbatch
      · have := length_pos_of_ne_nil hque
        omega
      · have hle : s.flusher.batch.length ≤ outstanding s.flusher := by
          cases s.flusher <;> simp [Flusher.batch, outstanding]
        have := length_pos_of_ne_nil hbatch
        omega
    exact decide_eq_true (by omega)

section Table

variable {s s' : BatchWriter.TableState} {f : TableEvent}

lemma pending_enqueue (s : BatchWriter.TableState) (row : Row) :
    pending (s.enqueue row) = pending s + 1 := by
  show (s.queue ++ [row]).length + outstanding s.flusher
    = s.queue.length + outstanding s.flusher + 1
  rw [length_append, length_singleton]
  omega

lemma pending_wake (hf : s.flusher = .waiting) : pending s.wake = pending s := by
  have hpen : pending s = s.queue.length := by
    unfold pending
    rw [hf]
    rfl
  unfold wake
  split
  · exact hpen.symm
  · show (s.queue.drop s.taken).length + (s.queue.take s.taken).length = pending s
    rw [Nat.add_comm, ← length_append, take_append_drop, hpen]

lemma pending_send (hf : s.flusher = .drained rows)
    (h : distinct s.cfg rows) : pending (s.send rows) = pending s := by
  have hpen : pending s = s.queue.length + rows.length := by
    unfold pending
    rw [hf]
    rfl
  unfold send
  split
  case isTrue hnil =>
    subst hnil
    exact hpen.symm
  case isFalse =>
    show s.queue.length + (s.cfg.coalesce rows).length = pending s
    rw [length_coalesce_of_distinct h, hpen]

lemma pending_answer {attempt : ℕ} (hf : s.flusher = .sending rows attempt)
    (ok : Bool) : pending (s.answer rows attempt ok) = pending s := by
  have hpen : pending s = s.queue.length + rows.length := by
    unfold pending
    rw [hf]
    rfl
  unfold answer
  split_ifs <;> exact hpen.symm

lemma pending_step (hstep : s.step f = some s') (hf : ∀ row, f ≠ .enqueue row)
    (hsend : f = .send → distinct s.cfg s.flusher.batch) :
    pending s' + (if f = .observe ∧ observes s then 1 else 0) = pending s := by
  obtain ⟨row, rfl, -⟩ | ⟨rfl, rfl⟩ | ⟨c, rfl, rfl⟩ | ⟨rfl, rfl⟩ | ⟨rfl, hw, rfl⟩ | ⟨rfl, rows,
    hd, rfl⟩ |
    ⟨ok, rfl, rows, attempt, ha, rfl⟩ | ⟨rfl, ho, rfl⟩ | ⟨rfl, n, ho, rfl⟩ :=
    step_cases hstep
  · exact absurd rfl (hf row)
  · rfl
  · rfl
  · rfl
  · exact pending_wake hw
  · have hdestroying := hsend rfl
    rw [hd] at hdestroying
    exact pending_send hd hdestroying
  · exact pending_answer ha ok
  · have hnone : observes s = false := by
      unfold observes
      rw [ho]
    rw [if_neg fun h => absurd h.2 (by rw [hnone]; exact Bool.false_ne_true)]
    unfold pending
    rw [ho]
    rfl
  · have hsome : observes s := by
      unfold observes
      rw [ho]
    rw [if_pos ⟨rfl, hsome⟩]
    unfold pending
    rw [ho]
    rfl

end Table

variable {s : BatchWriter.TableState}

lemma pendingOf_of_states (h : w.states name = some s) : pendingOf w name = pending s := by
  unfold pendingOf
  rw [h]
  rfl

lemma pendingOf_setTable_self (w : BatchWriter) (name : Bytes) (s : BatchWriter.TableState) :
    pendingOf (w.setTable name s) name = pending s := by
  show (((update w.states name (some s)) name).map pending).getD 0 = _
  rw [update_self]
  rfl

lemma pendingOf_setTable_of_ne {name' : Bytes}
    (h : name' ≠ name) : pendingOf (w.setTable name s) name' = pendingOf w name' := by
  show (((update w.states name (some s)) name').map pending).getD 0 = _
  rw [update_of_ne h]
  rfl

lemma isSome_setTable {name' : Bytes}
    (h : (w.states name').isSome) : ((w.setTable name s).states name').isSome := by
  show (update w.states name (some s) name').isSome
  by_cases hn : name' = name
  · rw [hn, update_self]
    rfl
  · rwa [update_of_ne hn]

lemma tallied_start (tables : List (Bytes × BatchTableConfig)) : (start tables).Tallied where
  marks := by
    intro table
    show 0 = 0 + (((tables.lookup table).map BatchWriter.TableState.start).map pending).getD 0
    cases tables.lookup table <;> rfl
  configured := fun c hc => absurd hc not_mem_nil

lemma Tallied.write (h : m.Tallied) {table : Bytes} {row : Row}
    (hconf : (m.writer.states table).isSome) : Tallied { m with
      dirty := update m.dirty table (m.dirty table + 1)
      writing := m.writing ++ [(table, row)] } where
  marks := by
    intro table'
    show update m.dirty table (m.dirty table + 1) table' =
      ((m.writing ++ [(table, row)]).map Prod.fst).count table' + pendingOf m.writer table'
    rw [map_append, count_append]
    by_cases ht : table' = table
    · subst ht
      rw [update_self, h.marks table']
      show _ = _ + count table' [table'] + _
      rw [count_singleton_self]
      omega
    · rw [update_of_ne ht, h.marks table']
      show _ = _ + count table' [table] + _
      rw [count_singleton, if_neg (by simpa using Ne.symm ht)]
      rfl
  configured := by
    intro c hc
    rcases mem_append.1 hc with hc | hc
    · exact h.configured c hc
    · rw [mem_singleton.1 hc]
      exact hconf

lemma count_eraseIdx {calls : List (Bytes × Row)} {call : ℕ} {c : Bytes × Row}
    (hcall : calls[call]? = some c) (table : Bytes) : (calls.map Prod.fst).count table =
      ((calls.eraseIdx call).map Prod.fst).count table + if table = c.1 then 1 else 0 := by
  obtain ⟨hlt, rfl⟩ := List.getElem?_eq_some_iff.1 hcall
  have hperm := ((List.getElem_cons_eraseIdx_perm hlt).map Prod.fst).count_eq table
  rw [← hperm, List.map_cons, List.count_cons]
  congr 1
  by_cases ht : table = calls[call].1
  · simp [ht]
  · simp [ht, Ne.symm ht]

lemma Tallied.enqueue (h : m.Tallied) {call : ℕ} {c : Bytes × Row}
    (hcall : m.writing[call]? = some c)
    (hstep : m.writer.step (.table c.1 (.enqueue c.2)) = some w) :
    Tallied { m with writer := w, writing := m.writing.eraseIdx call } := by
  have hconf := h.configured c (mem_of_getElem? hcall)
  obtain ⟨name, f, s, s', he, -, hs, hs', rfl⟩ | ⟨name, f, he, -, hnone, rfl⟩ | ⟨he, -⟩ | ⟨he, -⟩ :=
    BatchWriter.step_cases hstep
  · cases he
    cases hs'
    constructor
    · intro table
      have hmarks := h.marks table
      rw [count_eraseIdx hcall table] at hmarks
      refine hmarks.trans ?_
      by_cases ht : table = c.1
      · rw [if_pos ht, ht, pendingOf_setTable_self, pendingOf_of_states hs, pending_enqueue]
        show _ = count c.1 ((m.writing.eraseIdx call).map Prod.fst) + _
        omega
      · rw [if_neg ht, pendingOf_setTable_of_ne ht]
        rfl
    · exact fun c' hc' => isSome_setTable (h.configured c' (mem_of_mem_eraseIdx hc'))
  · cases he
    rw [hnone] at hconf
    cases hconf
  · cases he
  · cases he

lemma Tallied.setTable (h : m.Tallied) {f : TableEvent}
    {s' : BatchWriter.TableState} (hs : m.writer.states name = some s) (hstep : s.step f = some s')
    (hf : ∀ row, f ≠ .enqueue row) (hsend : f = .send → distinct s.cfg s.flusher.batch) :
    Tallied { m with writer := m.writer.setTable name s', dirty := m.cleaned (.table name f) } := by
  have hpen := pending_step hstep hf hsend
  have hclean : m.cleaned (.table name f) = update m.dirty name
      (m.dirty name - if f = .observe ∧ observes s then 1 else 0) := by
    by_cases hobs : f = .observe ∧ observes s
    · obtain ⟨rfl, hobs⟩ := hobs
      rw [if_pos ⟨rfl, hobs⟩]
      show (if (m.writer.states name).any observes then _ else _) = _
      rw [if_pos (by rw [hs]; exact hobs)]
    · rw [if_neg hobs, Nat.sub_zero, update_eq_self]
      cases f with
      | observe =>
        show (if (m.writer.states name).any observes then _ else _) = _
        rw [if_neg (by rw [hs]; exact fun h => hobs ⟨rfl, h⟩)]
      | _ => rfl
  constructor
  · intro table
    show m.cleaned (.table name f) table =
      (m.writing.map Prod.fst).count table + pendingOf (m.writer.setTable name s') table
    rw [hclean]
    by_cases ht : table = name
    · have hmarks := h.marks name
      rw [pendingOf_of_states hs] at hmarks
      rw [ht, update_self, pendingOf_setTable_self, hmarks]
      omega
    · rw [update_of_ne ht, pendingOf_setTable_of_ne ht, h.marks table]
  · exact fun c hc => isSome_setTable (h.configured c hc)

lemma Tallied.writer (h : m.Tallied) {e : WriterEvent}
    (he : isEnqueue e = false) (hok : m.takenBack (.writer e)) (hstep : m.writer.step e = some w) :
    Tallied { m with writer := w, dirty := m.cleaned e } := by
  obtain ⟨name, f, s, s', rfl, -, hs, hs', rfl⟩ | ⟨name, f, rfl, hcall, -, rfl⟩ | ⟨rfl, -, rfl⟩ |
    ⟨rfl, -, -, rfl⟩ := BatchWriter.step_cases hstep
  · refine h.setTable hs hs' (fun row hrow => ?_) fun hsend => ?_
    · subst hrow
      cases he
    · subst hsend
      replace hok : (m.writer.states name).all (fun s => distinct s.cfg s.flusher.batch) := hok
      rw [hs] at hok
      exact hok
  · have hsame : m.cleaned (.table name f) = m.dirty := by
      cases f with
      | observe => cases hcall
      | _ => rfl
    rw [hsame]
    exact h
  · exact ⟨h.marks, h.configured⟩
  · exact ⟨h.marks, h.configured⟩

lemma Tallied.step {e : MarkEvent} (h : m.Tallied) (hok : m.takenBack e)
    (hstep : m.step e = some m') : m'.Tallied := by
  cases e with
  | write =>
    simp only [Marks.step] at hstep
    split at hstep
    · cases hstep
      exact h.write hok
    · cases hstep
  | enqueue =>
    obtain ⟨c, hcall, hstep⟩ := bind_eq_some_iff.1 hstep
    obtain ⟨w, hw, rfl⟩ := map_eq_some_iff.1 hstep
    exact h.enqueue hcall hw
  | writer =>
    simp only [Marks.step] at hstep
    split at hstep
    · cases hstep
    · obtain ⟨w, hw, rfl⟩ := map_eq_some_iff.1 hstep
      exact h.writer (Bool.eq_false_iff.2 ‹_›) hok hw

/-- In a run in which every write is to a configured table and no batch has two rows of one key, the
marks are balanced in every state. -/
theorem balanced_of_run (hrun : Runs.run step (start tables) es = some m)
    (hok : Runs.Meets step (fun m e => m.takenBack e = true) (start tables) es) : m.Balanced :=
  Tallied.balanced (Runs.run_induction (fun h hok hstep => h.step hok hstep) (tallied_start tables)
    hok hrun)

def accounts : List (Bytes × BatchTableConfig) :=
  [(str "t", { columns := [str "id", str "v"], primaryKey := str "id" })]

def accountRow (k v : String) : Row := [.fromText (str k), .fromText (str v)]

def flushedRun : List MarkEvent :=
  [.write (str "t") (accountRow "a" "1"), .enqueue 0, .write (str "t") (accountRow "b" "1"),
    .enqueue 0] ++
    [.wake, .send, .answer true, .observe, .observe, .observe].map fun f =>
    .writer (.table (str "t") f)

theorem balanced_flushedRun :
    ∃ m, Runs.run step (start accounts) flushedRun = some m ∧ m.dirty (str "t") = 0 ∧
      m.Balanced := by
  have heval : (Runs.run step (start accounts) flushedRun).map (fun m => m.dirty (str "t"))
    = some 0 := by
    decide +kernel
  have hok : Runs.meetsAll step takenBack (start accounts) flushedRun = true := rfl
  obtain ⟨m, hrun, hm⟩ := map_eq_some_iff.1 heval
  exact ⟨m, hrun, hm, balanced_of_run hrun (Runs.meets_of_meetsAll hok)⟩

def coalescedRun : List MarkEvent :=
  [.write (str "t") (accountRow "a" "1"), .enqueue 0, .write (str "t") (accountRow "a" "2"),
    .enqueue 0] ++
    [.wake, .send, .answer true, .observe, .observe].map fun f => .writer (.table (str "t") f)

lemma states_eq_none_of_run {m₀ : Marks} (h : m₀.writer.states name = none)
    (hrun : Runs.run step m₀ es = some m) : m.writer.states name = none := by
  have hwriter : ∀ {w w' : BatchWriter} {e : WriterEvent}, w.states name = none →
      w.step e = some w' → w'.states name = none := by
    intro w w' e hw hstep
    obtain ⟨name', f, s, s', -, -, hs, -, rfl⟩ | ⟨-, -, -, -, -, rfl⟩ | ⟨-, -, rfl⟩ | ⟨-, -,
      -, rfl⟩ :=
      BatchWriter.step_cases hstep
    · have hne : name ≠ name' := by
        rintro rfl
        rw [hw] at hs
        cases hs
      exact (update_of_ne hne _ _).trans hw
    all_goals exact hw
  have hok : Runs.Meets step (fun _ _ => True) m₀ es :=
    Runs.meets_of_forall (fun _ _ _ => trivial) _
  refine Runs.run_induction (I := fun m => m.writer.states name = none)
    (fun {m e m'} hm _ hstep => ?_) h hok hrun
  cases e with
  | write =>
    simp only [Marks.step] at hstep
    split at hstep
    · cases hstep
      exact hm
    · cases hstep
  | enqueue =>
    obtain ⟨c, -, hstep⟩ := bind_eq_some_iff.1 hstep
    obtain ⟨w, hw, rfl⟩ := map_eq_some_iff.1 hstep
    exact hwriter hm hw
  | writer =>
    simp only [Marks.step] at hstep
    split at hstep
    · cases hstep
    · obtain ⟨w, hw, rfl⟩ := map_eq_some_iff.1 hstep
      exact hwriter hm hw

theorem not_balanced_coalescedRun :
    ∃ m, Runs.run step (start accounts) coalescedRun = some m ∧ ¬ m.Balanced := by
  have heval : (Runs.run step (start accounts) coalescedRun).map (fun m => (m.isDirty (str "t"),
      m.writing.length, (m.writer.states (str "t")).map fun s => (s.queue.length, s.flusher))) =
      some (true, 0, some (0, .waiting)) := by
    decide +kernel
  obtain ⟨m, hrun, hm⟩ := map_eq_some_iff.1 heval
  obtain ⟨hdirty, hm⟩ := Prod.mk.inj hm
  obtain ⟨hwriting, hstates⟩ := Prod.mk.inj hm
  refine ⟨m, hrun, fun hbalanced => ?_⟩
  have hclean := hbalanced.clean (length_eq_zero_iff.1 hwriting) ?_ (str "t")
  · rw [hdirty] at hclean
    cases hclean
  intro name s hs
  by_cases hname : name = str "t"
  · subst hname
    rw [hs] at hstates
    obtain ⟨hqueue, hflusher⟩ := Prod.mk.inj (some.inj hstates)
    exact ⟨length_eq_zero_iff.1 hqueue, .inl hflusher⟩
  · have hnone : (start accounts).writer.states name = none := by
      show (accounts.lookup name).map BatchWriter.TableState.start = none
      simp [accounts, lookup_cons, beq_false_of_ne hname]
    rw [states_eq_none_of_run hnone hrun] at hs
    cases hs

end Marks

end SpidoNG.Db
