import SpidoNG.Db.System

/-!
# The rows of the batch writer, and stamps

A row that was enqueued is in a queue or in a batch, or it is settled.
-/

namespace SpidoNG.Db

open Bytes Pg Cache Batch Threads List Option Function DbState

variable {G : Type} {ts ts' : TableState}

namespace DbState

def queued (y : DbState G) (table : Bytes) : List ℕ :=
  ((y.tables table).map fun ts => ts.queue.map Item.ticket).getD []

def stopped (y : DbState G) (table : Bytes) : Bool := (y.tables table).any TableState.stop

def Flushed (y : DbState G) (table : Bytes) (n : ℕ) : Prop := ∃ f, ⟨n, table, f⟩ ∈ y.settled

def Waiting (y : DbState G) (table : Bytes) (n : ℕ) : Prop :=
  n ∈ y.queued table ∨ n ∈ y.inFlight table

def Held (y : DbState G) (table : Bytes) (n : ℕ) : Prop :=
  n ∈ y.queued table ∨ n ∈ y.inFlight table ∨ y.Flushed table n

def Has (y : DbState G) (table : Bytes) (n : ℕ) : Prop :=
  (y.tables table).isSome = true ∧ y.Held table n

variable {table : Bytes} {y : DbState G}

lemma queued_of_tables
    (hts : y.tables table = some ts) : y.queued table = ts.queue.map Item.ticket := by
  simp [queued, hts]

lemma queued_setTable_self (y : DbState G) (table : Bytes) (ts : TableState) :
    (y.setTable table ts).queued table = ts.queue.map Item.ticket := by
  simp [queued, setTable]

lemma queued_setTable_of_ne {table' : Bytes} (h : table' ≠ table) (y : DbState G)
    (ts : TableState) : (y.setTable table ts).queued table' = y.queued table' := by
  simp [queued, setTable, h]

lemma queued_stopAll (y : DbState G) (table : Bytes) : y.stopAll.queued table = y.queued table := by
  cases hts : y.tables table <;> simp [queued, stopAll, hts]

lemma stopped_setTable
    (hts : y.tables table = some ts) (hstop : ts'.stop = ts.stop) (table' : Bytes) :
    (y.setTable table ts').stopped table' = y.stopped table' := by
  by_cases ht : table' = table
  · subst ht
    simp [stopped, setTable, hts, hstop]
  · simp [stopped, setTable, ht]

lemma isSome_setTable (hts : y.tables table = some ts) (table' : Bytes) :
    ((y.setTable table ts').tables table').isSome = (y.tables table').isSome := by
  by_cases ht : table' = table
  · subst ht
    simp [setTable, hts]
  · simp [setTable, ht]

end DbState

structure Moves (time : ℕ) (y y' : DbState G) : Prop where
  settled : ∀ r ∈ y.settled, r ∈ y'.settled
  fresh : ∀ r ∈ y'.settled, r ∈ y.settled ∨ r.time = time ∧ r.ticket ∈ y.inFlight r.table
  waiting : ∀ {table n}, y'.Waiting table n → y.Waiting table n ∨ n = time
  held : ∀ {table n}, y.Held table n → y'.Held table n
  stopped : ∀ {table}, y.stopped table = true → y'.stopped table = true
  known : ∀ table, (y'.tables table).isSome = (y.tables table).isSome

variable {n : ℕ}

namespace Moves

variable {time : ℕ} {y : DbState G}

lemma refl (time : ℕ) (y : DbState G) : Moves time y y :=
  ⟨fun _ hr => hr, fun _ hr => .inl hr, fun h => .inl h, fun h => h, fun h => h, fun _ => rfl⟩

variable {table : Bytes}

lemma has {y' : DbState G} (h : Moves time y y') (hn : y.Has table n) :
    y'.Has table n := ⟨(h.known table).trans hn.1, h.held hn.2⟩

lemma flushed {y' : DbState G} (h : Moves time y y')
    (hn : y.Flushed table n) : y'.Flushed table n := by
  obtain ⟨f, hf⟩ := hn
  exact ⟨f, h.settled _ hf⟩

lemma setTable (hts : y.tables table = some ts) (hque : ∀ i ∈ ts.queue, i ∈ ts'.queue)
    (hnew : ∀ i ∈ ts'.queue, i ∈ ts.queue ∨ i.ticket = time) (hstop : ts'.stop = ts.stop) :
    Moves time y (y.setTable table ts') where
  settled _ hr := hr
  fresh _ hr := .inl hr
  waiting := by
    rintro table' n (hn | hn)
    · by_cases ht : table' = table
      · subst ht
        rw [queued_setTable_self] at hn
        obtain ⟨i, hi, rfl⟩ := mem_map.1 hn
        rcases hnew i hi with hi | hi
        · left
          left
          rw [queued_of_tables hts]
          exact mem_map_of_mem hi
        · exact .inr hi
      · rw [queued_setTable_of_ne ht] at hn
        exact .inl (.inl hn)
    · exact .inl (.inr hn)
  held := by
    rintro table' n (hn | hn)
    · left
      by_cases ht : table' = table
      · subst ht
        rw [queued_of_tables hts] at hn
        obtain ⟨i, hi, rfl⟩ := mem_map.1 hn
        rw [queued_setTable_self]
        exact mem_map_of_mem (hque i hi)
      · rwa [queued_setTable_of_ne ht]
    · exact .inr hn
  stopped := by
    intro table' hn
    rwa [stopped_setTable hts hstop]
  known := isSome_setTable hts

lemma settle (table : Bytes) (b : Sending) (pg : G) :
    Moves time y { y.settle time table b with pg := pg } where
  settled r hr := mem_append_right _ hr
  fresh r hr := by
    rcases mem_append.1 hr with hr | hr
    · obtain ⟨n, hn, rfl⟩ := mem_map.1 hr
      exact .inr ⟨rfl, mem_of_mem_filter hn⟩
    · exact .inl hr
  waiting := by
    rintro table' n (hn | hn)
    · exact .inl (.inl hn)
    · refine .inl (.inr ?_)
      by_cases ht : table' = table
      · subst ht
        simp only [DbState.settle, update_self] at hn
        exact mem_of_mem_filter hn
      · simpa [DbState.settle, ht] using hn
  held := by
    rintro table' n (hn | hn | ⟨f, hf⟩)
    · exact .inl hn
    · by_cases ht : table' = table
      · subst ht
        by_cases hmem : n ∈ b.tickets
        · refine .inr (.inr ⟨time, mem_append_left _ (mem_map_of_mem ?_)⟩)
          exact mem_filter.2 ⟨hn, decide_eq_true hmem⟩
        · refine .inr (.inl ?_)
          simp only [DbState.settle, update_self, mem_filter, decide_eq_true_eq]
          exact ⟨hn, hmem⟩
      · refine .inr (.inl ?_)
        simpa [DbState.settle, ht] using hn
    · exact .inr (.inr ⟨f, mem_append_right _ hf⟩)
  stopped h := h
  known _ := rfl

lemma drain (hts : y.tables table = some ts)
    {drained : List Item} (hque : ts.queue = drained ++ ts'.queue) (hstop : ts'.stop = ts.stop) :
    Moves time y { y.setTable table ts' with
      inFlight := Function.update y.inFlight table
        (y.inFlight table ++ drained.map Item.ticket) } where
  settled _ hr := hr
  fresh _ hr := .inl hr
  waiting := by
    have hqueue : y.queued table = drained.map Item.ticket ++ ts'.queue.map Item.ticket := by
      rw [queued_of_tables hts, hque, map_append]
    rintro table' n (hn | hn)
    · refine .inl (.inl ?_)
      by_cases ht : table' = table
      · subst ht
        rw [hqueue]
        exact mem_append_right _ ((queued_setTable_self ..) ▸ hn)
      · exact (queued_setTable_of_ne ht ..) ▸ hn
    · left
      by_cases ht : table' = table
      · subst ht
        simp only [update_self] at hn
        rcases mem_append.1 hn with hn | hn
        · exact .inr hn
        · refine .inl ?_
          rw [hqueue]
          exact mem_append_left _ hn
      · refine .inr ?_
        simpa [ht] using hn
  held := by
    rintro table' n (hn | hn | hn)
    · by_cases ht : table' = table
      · subst ht
        rw [queued_of_tables hts, hque, map_append] at hn
        rcases mem_append.1 hn with hn | hn
        · refine .inr (.inl ?_)
          simp only [update_self]
          exact mem_append_right _ hn
        · exact .inl ((queued_setTable_self ..).symm ▸ hn)
      · exact .inl ((queued_setTable_of_ne ht ..).symm ▸ hn)
    · refine .inr (.inl ?_)
      by_cases ht : table' = table
      · subst ht
        simp only [update_self]
        exact mem_append_left _ hn
      · simpa [ht] using hn
    · exact .inr (.inr hn)
  stopped := by
    intro table' hn
    rwa [← stopped_setTable hts hstop] at hn
  known := isSome_setTable hts

lemma stopAll : Moves time y y.stopAll where
  settled _ hr := hr
  fresh _ hr := .inl hr
  waiting := by
    rintro table n (hn | hn)
    · exact .inl (.inl (queued_stopAll y table ▸ hn))
    · exact .inl (.inr hn)
  held := by
    rintro table n (hn | hn)
    · exact .inl ((queued_stopAll y table).symm ▸ hn)
    · exact .inr hn
  stopped := by
    intro table hn
    cases hts : y.tables table with
    | none => simp [DbState.stopped, hts] at hn
    | some => simp [DbState.stopped, DbState.stopAll, hts]
  known table := isSome_map

end Moves

variable {x : DbOp} {r : x.Res}

section Operations

variable {S : Server G} {cfg : DbConfig} {time : ℕ} {ok : Bool} {y y' : DbState G}

lemma exec_moves (h : exec S cfg time ok x y = some (r, y')) : Moves time y y' := by
  cases x with
  | query =>
    cases h
    exact .refl _ _
  | commit =>
    simp only [exec] at h
    split_ifs at h
    · cases h
      exact ⟨fun _ hr => hr, fun _ hr => .inl hr, fun hn => .inl hn, fun hn => hn, fun hn => hn,
        fun _ => rfl⟩
    · cases h
      exact .refl _ _
  | enqueue =>
    simp only [exec] at h
    split at h
    · cases h
      exact .refl _ _
    · rename_i ts hts
      cases h
      refine .setTable hts (fun i hi => mem_append_left _ hi) (fun i hi => ?_) rfl
      rcases mem_append.1 hi with hi | hi
      · exact .inl hi
      · rw [mem_singleton.1 hi]
        exact .inr rfl
  | requestFlush | retune =>
    simp only [exec] at h
    split at h
    · cases h
      exact .refl _ _
    · rename_i ts hts
      cases h
      exact .setTable hts (fun i hi => hi) (fun i hi => .inl hi) rfl
  | awaitDrained =>
    simp only [exec] at h
    split at h
    · cases h
      exact .refl _ _
    · split_ifs at h
      cases h
      exact .refl _ _
  | drain =>
    simp only [exec] at h
    split at h
    · cases h
      exact .refl _ _
    · rename_i ts hts
      cases h
      refine .drain hts ?_ rfl
      have hle : taken ts.queue.length ts.dynBatchSize ≤ ts.queue.length :=
        (Nat.min_le_left _ _).trans (Nat.mod_le _ _)
      simp only [Batch.drain, length_take]
      rw [Nat.min_eq_left hle, take_append_drop]
  | execBatch table b =>
    simp only [exec] at h
    split_ifs at h
    · cases h
      exact .settle table b _
    · cases h
      exact .refl _ _
  | deadLetter table b =>
    cases h
    exact .settle table b _
  | stop =>
    cases h
    exact .stopAll

def DbOp.stamp : (x : DbOp) → x.Res → Option ℕ
  | .query _ _, r => some r.asOf
  | .commit _ _, r => r
  | .enqueue _ _, r => r
  | _, _ => none

lemma stamp_of_exec (h : exec S cfg time ok x y = some (r, y')) {m : ℕ}
    (hm : x.stamp r = some m) : m = time := by
  cases x with
  | query =>
    cases h
    exact (some.inj hm).symm
  | commit =>
    simp only [exec] at h
    split_ifs at h
    · cases h
      exact (some.inj hm).symm
    · cases h
      cases hm
  | enqueue =>
    simp only [exec] at h
    split at h
    · cases h
      cases hm
    · cases h
      exact (some.inj hm).symm
  | _ => cases hm

def DbOp.ticket : (x : DbOp) → x.Res → Option (Bytes × ℕ)
  | .enqueue table _, r => r.map fun n => (table, n)
  | _, _ => none

lemma has_of_exec (h : exec S cfg time ok x y = some (r, y'))
    {table : Bytes} (hn : x.ticket r = some (table, n)) : y'.Has table n := by
  cases x with
  | enqueue =>
    simp only [exec] at h
    split at h
    · cases h
      cases hn
    · cases h
      cases hn
      refine ⟨by simp [setTable], .inl ?_⟩
      simp [queued, setTable]
  | _ => cases hn

end Operations

def stamp : (c : CacheCall Answer ⊕ DbOp) → CallRet DbOp.Res c → Option ℕ
  | .inr x, r => x.stamp r
  | .inl _, _ => none

def ticket : (c : CacheCall Answer ⊕ DbOp) → CallRet DbOp.Res c → Option (Bytes × ℕ)
  | .inr x, r => x.ticket r
  | .inl _, _ => none

lemma stamp_of_ticket {c : CacheCall Answer ⊕ DbOp} {r : CallRet DbOp.Res c} {table : Bytes}
    (h : ticket c r = some (table, n)) : stamp c r = some n := by
  cases c with
  | inl => cases h
  | inr x =>
    cases x with
    | enqueue =>
      obtain ⟨n', rfl, heq⟩ := map_eq_some_iff.1 h
      cases heq
      rfl
    | _ => cases h

def Performs : (op : CacheOp Answer ⊕ DbOp) → OpRes DbOp.Res op → ℕ × DbState G →
    ℕ × DbState G → Prop
  | .inl _, _, _, _ => True
  | .inr x, r, a, b => (∀ m, x.stamp r = some m → m = a.1) ∧
      ∀ table n, x.ticket r = some (table, n) → b.2.Has table n

def rowRely : Rely (ℕ × DbState G) (CacheOp Answer ⊕ DbOp) (OpRes DbOp.Res) where
  rel a b := a.1 ≤ b.1 ∧ ∀ table n, a.2.Has table n → b.2.Has table n
  refl _ := ⟨le_rfl, fun _ _ h => h⟩
  trans h h' := ⟨h.1.trans h'.1, fun table n hn => h'.2 table n (h.2 table n hn)⟩
  does op a r b := (a.1 < b.1 ∧ ∀ table n, a.2.Has table n → b.2.Has table n) ∧ Performs op r a b
  ok _ _ := True

def Dated (c : CacheCall Answer ⊕ DbOp) (b : ℕ) (r : Option (CallRet DbOp.Res c))
    (a : ℕ × DbState G) : Prop :=
  ∀ x, r = some x → (∀ m, stamp c x = some m → b ≤ m ∧ m < a.1) ∧
    ∀ table n, ticket c x = some (table, n) → a.2.Has table n

lemma under_row (cfg : CacheConfig Answer) {b fuel : ℕ} (c : CacheCall Answer ⊕ DbOp)
    {a : ℕ × DbState G} (hb : b ≤ a.1) :
    (callBody cfg b fuel c : Code Answer DbOp.Res _).Under rowRely (Dated c b) a := by
  cases c with
  | inl c =>
    refine (Prog.Under.of_always (I := fun _ => True) (signed_callBody cfg fuel (.inl c))
      (fun _ _ => trivial) (fun _ _ => ⟨trivial, fun _ _ _ => trivial⟩) trivial).mono ?_
    rintro r a - x -
    exact ⟨fun m hm => (by cases hm), fun table n hn => (by cases hn)⟩
  | inr =>
    rintro a1 ⟨ha1, -⟩
    refine ⟨trivial, ?_⟩
    rintro r a2 ⟨⟨ha2, -⟩, hstamp, hticket⟩ a3 ⟨ha3, hhas⟩ x' ⟨⟩
    refine ⟨fun m hm => ?_, fun table n hn => hhas _ _ (hticket table n hn)⟩
    have := hstamp m hm
    omega

section Runs

variable {S : Server G} {cfg : DbConfig} {s s' : DbSys G} {e : DbEvent}

section

variable {time : ℕ} {env : ℕ × Bool} {t : DbThread} {a a' : State DbThread Answer × DbState G}

lemma exec_of_execBoth
    (h : execBoth cfg.cache (client S cfg) time env t (.inr x) a = some (r, a')) :
    exec S cfg time env.2 x a.2 = some (r, a'.2) := by
  obtain ⟨⟨r', y⟩, hexec, heq⟩ := map_eq_some_iff.1 h
  cases heq
  exact hexec

lemma snd_of_execBoth {op : CacheOp Answer} {r : op.Res}
    (h : (dbMachine S cfg).exec time env t (.inl op) a = some (r, a')) : a'.2 = a.2 := by
  obtain ⟨x, -, heq⟩ := map_eq_some_iff.1 h
  cases heq
  rfl

end

lemma moves_of_change (hc : Change (dbMachine S cfg) s e s') :
    Moves s.time s.shared.2 s'.shared.2 := by
  cases hc with
  | quiet hshared | enter _ _ _ _ _ hshared | leave _ _ _ _ _ hshared =>
    rw [hshared]; exact .refl _ _
  | act _ _ _ _ op _ _ _ _ hexec =>
    cases op with
    | inl => rw [snd_of_execBoth hexec]; exact .refl _ _
    | inr => exact exec_moves (exec_of_execBoth hexec)

def Noted (r : CacheRecord DbThread Answer DbOp.Res) (a : ℕ × DbState G) : Prop :=
  (∀ m, stamp r.call r.ret = some m → r.began ≤ m ∧ m < r.ended) ∧
    ∀ table n, ticket r.call r.ret = some (table, n) → a.2.Has table n

structure Accounts (cfg : DbConfig) (s : DbSys G) : Prop where
  keeps : Keeps rowRely Dated Noted s (s.time, s.shared.2)
  waiting_lt : ∀ {table n}, s.shared.2.Waiting table n → n < s.time
  settled_lt : ∀ r ∈ s.shared.2.settled, r.ticket < r.time ∧ r.time < s.time
  known : ∀ table, (s.shared.2.tables table).isSome = (cfg.tables.lookup table).isSome

lemma Accounts.step (h : Accounts cfg s) (hstep : Step (dbMachine S cfg) s e s') :
    Accounts cfg s' := by
  have hc := hstep.change
  have htime := hstep.time
  have hmoves := moves_of_change hc
  refine ⟨h.keeps.step hc ?_ ?_ ?_ ?_ ?_, ?_, ?_, fun table =>
    (hmoves.known table).trans (h.known table)⟩
  · exact fun c fuel => under_row cfg.cache c (by show s.time ≤ s'.time; omega)
  · exact ⟨by show s.time ≤ s'.time; omega, fun table n hn => hmoves.has hn⟩
  · intro t env c b op k r _ _ hexec
    refine ⟨⟨by show s.time < s'.time; omega, fun table n hn => hmoves.has hn⟩, ?_⟩
    cases op with
    | inl => trivial
    | inr =>
      have hexec := exec_of_execBoth hexec
      exact ⟨fun m hm => stamp_of_exec hexec hm, fun table n hn => has_of_exec hexec hn⟩
  · intro t job c b r hdated
    exact ⟨(hdated r rfl).1, fun table n hn => hmoves.has ((hdated r rfl).2 table n hn)⟩
  · exact fun hr => ⟨hr.1, fun table n hn => hmoves.has (hr.2 table n hn)⟩
  · intro table n hn
    rcases hmoves.waiting hn with hn | rfl
    · have := h.waiting_lt hn
      omega
    · omega
  · intro r hr
    rcases hmoves.fresh r hr with hr | ⟨hnow, hflight⟩
    · have := h.settled_lt r hr
      omega
    · have := h.waiting_lt (.inr hflight)
      omega

lemma accounts_init (cfg : DbConfig) (pg : G) : Accounts cfg (cfg.start pg) where
  keeps := keeps_init _ _ _ _ _
  waiting_lt := by
    rintro table n (hn | hn)
    · cases hts : cfg.tables.lookup table <;>
        simp [Sys.init, DbConfig.initial, queued, hts] at hn
    · cases hn
  settled_lt := by rintro r ⟨⟩
  known table := by simp [Sys.init, DbConfig.initial]

lemma accounts_of_run {pg : G} {es : List DbEvent}
    (hrun : run (dbMachine S cfg) (cfg.start pg) es = some s) : Accounts cfg s :=
  run_induction (fun h _ hstep => h.step hstep) (accounts_init cfg pg) (meets_true _ es) hrun

end Runs

end SpidoNG.Db
