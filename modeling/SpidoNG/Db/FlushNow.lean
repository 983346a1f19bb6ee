import SpidoNG.Db.InFlight

/-!
# Waiting for a flush

`BatchWriter::flush_now` waits until the queue of the table is empty, and `Db::write_sync` waits
with it. The rows of a batch are drained before they are sent, and rows with one key are coalesced:

* `FlushedOnReturn` is what the two functions promise;
* `flushed_on_return` proves it for runs in which no wait ends while the flusher is at work and no
  row is coalesced away, and `not_flushed_on_return` shows that both conditions are needed;
* `has_of_enqueued` says of every run where a row is that was enqueued.
-/

namespace SpidoNG.Db

open Bytes Pg Cache Batch Threads

variable {G : Type}

/-- The operation outside the cache that a call performs next. -/
def operation (a : Active (OpRes (V := Answer) DbOp.Res) (CallRet (V := Answer) DbOp.Res)) :
    Option DbOp :=
  match a.rest with
  | .call (.inr x) _ => some x
  | _ => none

def DbOp.awaited : DbOp → Option Bytes
  | .awaitDrained table => some table
  | _ => none

def DbOp.whole : DbOp → Bool
  | .execBatch _ b => b.kept = b.tickets
  | .deadLetter _ b _ => b.kept = b.tickets
  | _ => true

/-- No wait for a table ends while its flusher is at work. -/
def waitsIdle (s : DbSys G) : DbEvent → Bool
  | .step t _ => (s.active t).all fun a => (operation a).all fun x =>
      x.awaited.all fun table => (s.pending (.flusher table)).isNone
  | _ => true

/-- No batch has lost rows to coalescing. -/
def sendsWhole (s : DbSys G) : DbEvent → Bool
  | .step t _ => (s.active t).all fun a => (operation a).all DbOp.whole
  | _ => true

structure Quiet (s : DbSys G) (e : DbEvent) : Prop where
  idle : waitsIdle s e = true
  whole : sendsWhole s e = true

def synced : (job : DbJob) → job.Out → Option (Bytes × ℕ)
  | .writeSync table _, out => out.map fun n => (table, n)
  | _, _ => none

/-- The row was in a statement that PostgreSQL executed or that went to the dead letters. -/
def DbState.Sent (y : DbState G) (table : Bytes) (n : ℕ) : Prop := (table, n) ∈ y.sent

/-- When `flush_now` returns, the rows enqueued before it was called are sent; when `write_sync`
returns, so is its row. -/
structure FlushedOnReturn (cfg : DbConfig) (s : DbSys G) : Prop where
  flushNow : ∀ {j table₀ table r n}, j ∈ s.jobs → j.job = .flushNow table₀ →
    table ∈ cfg.asked table₀ →
    r ∈ s.calls → ticket r.call r.ret = some (table, n) → r.ended ≤ j.began →
      s.shared.2.stopped table = false → s.shared.2.Sent table n
  writeSync : ∀ {j table n}, j ∈ s.jobs → synced j.job j.out = some (table, n) →
    s.shared.2.stopped table = false → ∃ own ∈ s.calls, own.job = j.began ∧
      ticket own.call own.ret = some (table, n) ∧ ∀ r ∈ s.calls, ∀ n',
        ticket r.call r.ret = some (table, n') → r.ended ≤ own.ended → s.shared.2.Sent table n'

def FlushedBy (b : ℕ) (table : Bytes) (s : DbSys G) : Prop :=
  s.shared.2.stopped table = true ∨ ∀ r ∈ s.calls, ∀ n, ticket r.call r.ret = some (table, n) →
    r.ended ≤ b → s.shared.2.Flushed table n

structure Later (s s' : DbSys G) : Prop where
  time : s.time ≤ s'.time
  calls : ∀ r ∈ s'.calls, r ∈ s.calls ∨ s.time ≤ r.ended
  flushed : ∀ table n, s.shared.2.Flushed table n → s'.shared.2.Flushed table n
  stopped : ∀ table, s.shared.2.stopped table = true → s'.shared.2.stopped table = true

lemma Later.trans {s s' s'' : DbSys G} (h : Later s s') (h' : Later s' s'') : Later s s'' where
  time := h.time.trans h'.time
  calls := by
    intro r hr
    rcases h'.calls r hr with hr | hr
    · exact h.calls r hr
    · exact .inr (h.time.trans hr)
  flushed table n hn := h'.flushed table n (h.flushed table n hn)
  stopped table hn := h'.stopped table (h.stopped table hn)

variable {table : Bytes}

lemma Later.flushedBy {s s' : DbSys G} (h : Later s s') {b : ℕ}
    (hb : b < s.time) (hf : FlushedBy b table s) : FlushedBy b table s' := by
  rcases hf with hf | hf
  · exact .inl (h.stopped table hf)
  · refine .inr fun r hr n hn hrb => ?_
    rcases h.calls r hr with hr | hr
    · exact h.flushed table n (hf r hr n hn hrb)
    · omega

def awaitRely : Rely (DbSys G) (CacheOp Answer ⊕ DbOp) (OpRes DbOp.Res) where
  rel := Later
  refl _ := ⟨le_rfl, fun _ hr => .inl hr, fun _ _ hn => hn, fun _ hn => hn⟩
  trans := Later.trans
  does op s _ s' := Later s s' ∧ ∀ table, op = .inr (.awaitDrained table) →
    ∀ b < s.time, FlushedBy b table s
  ok _ _ := True

def Awaited (c : CacheCall Answer ⊕ DbOp) (b : ℕ) (s : DbSys G) : Prop :=
  b < s.time ∧ ∀ table, c = .inr (.awaitDrained table) → FlushedBy b table s

lemma Awaited.later {c : CacheCall Answer ⊕ DbOp} {b : ℕ} {s s' : DbSys G} (h : Awaited c b s)
    (hs : Later s s') : Awaited c b s' :=
  ⟨h.1.trans_le hs.time, fun table hc => hs.flushedBy h.1 (h.2 table hc)⟩

lemma under_await (cfg : CacheConfig Answer) {b fuel : ℕ} (c : CacheCall Answer ⊕ DbOp)
    {s : DbSys G} (hb : b < s.time) :
    (callBody cfg b fuel c : Code Answer DbOp.Res _).Under awaitRely (fun _ => Awaited c b) s := by
  cases c with
  | inl c =>
    refine (Prog.Under.of_always (ρ := awaitRely) (I := fun s => b < s.time)
      (signed_callBody cfg fuel (.inl c))
      (fun hs hb => lt_of_lt_of_le hb hs.time)
      (fun _ hb => ⟨trivial, fun _ _ hs => lt_of_lt_of_le hb hs.1.time⟩) hb).mono ?_
    rintro r s' hb'
    exact ⟨hb', fun table hc => by cases hc⟩
  | inr =>
    intro s1 h1
    refine ⟨trivial, ?_⟩
    rintro r s2 ⟨h2, hawt⟩ s3 h3
    have hb1 : b < s1.time := lt_of_lt_of_le hb h1.time
    refine ⟨hb1.trans_le (h2.trans h3).time, ?_⟩
    rintro table ⟨⟩
    exact (h2.trans h3).flushedBy hb1 (hawt table rfl b hb1)

section Runs

variable {S : Server G} {cfg : DbConfig} {pg : G} {es : List DbEvent} {s s' : DbSys G} {e : DbEvent}

lemma later_of_change (hc : Change (dbMachine S cfg) s e s') (htime : s'.time = s.time + 1) :
    Later s s' := by
  have hmoves := moves_of_change hc
  refine ⟨by omega, fun r hr => ?_, fun _ _ hn => hmoves.flushed hn, fun _ hn => hmoves.stopped hn⟩
  rcases hc.record_cases hr with hr | ⟨-, hend, -⟩
  · exact .inl hr
  · exact .inr hend.ge

lemma drained_of_exec {time : ℕ} {ok : Bool} {y y' : DbState G} {r : Unit}
    (h : exec S cfg time ok (.awaitDrained table) y = some (r, y')) :
    y.queued table = [] ∨ y.stopped table := by
  simp only [exec] at h
  split at h
  · rename_i hts
    left
    simp [DbState.queued, hts]
  · rename_i ts hts
    split_ifs at h with hdone
    rcases Bool.or_eq_true_iff.1 hdone with hemp | hstop
    · left
      simp [DbState.queued, hts, List.isEmpty_iff.1 hemp]
    · right
      simpa [DbState.stopped, hts] using hstop

abbrev Keeping (s : DbSys G) : Prop :=
  Keeps awaitRely (fun c b _ => Awaited c b) (fun r => Awaited r.call r.began) s s

lemma keeping_step (hrun : run (dbMachine S cfg) (cfg.start pg) es = some s) (h : Keeping s)
    (hidle : waitsIdle s e) (hstep : Step (dbMachine S cfg) s e s') : Keeping s' := by
  have hc := hstep.change
  have htime := hstep.time
  have hlat := later_of_change hc htime
  refine h.step hc (fun c fuel => under_await cfg.cache c (by omega)) hlat ?_
    (fun h => h.later hlat) (fun h => h.later hlat)
  intro t env c b op k r hev hact hexec
  refine ⟨hlat, ?_⟩
  rintro table rfl b' hb'
  rcases drained_of_exec (exec_of_execBoth hexec) with hque | hstop
  · -- Nothing is queued and nothing is drained, so what was enqueued is settled.
    have hflight : s.shared.2.inFlight table = [] := by
      refine inFlight_of_idle hrun ?_
      rw [hev] at hidle
      simpa [waitsIdle, hact, operation, DbOp.awaited] using hidle
    refine .inr fun r hr n hn _ => ?_
    rcases (((accounts_of_run hrun).keeps.returned hr).2 table n hn).2 with hn | hn | hn
    · simp [hque] at hn
    · simp [hflight] at hn
    · exact hn
  · exact .inl hstop

lemma keeping_of_run (hmeets : Meets (dbMachine S cfg) Quiet (cfg.start pg) es)
    (hrun : run (dbMachine S cfg) (cfg.start pg) es = some s) : Keeping s :=
  run_reached (fun hs h hquiet hstep => keeping_step hs h hquiet.idle hstep) (keeps_init _ _ _ _ _)
    hmeets hrun

/-- What is settled is sent. -/
abbrev AllSent (y : DbState G) : Prop := ∀ f ∈ y.settled, y.Sent f.table f.ticket

lemma AllSent.settle {y : DbState G} (h : AllSent y) (time : ℕ) (table : Bytes) {b : Sending}
    (hwhole : b.kept = b.tickets) : AllSent (y.settle time table b) := by
  intro f hf
  rcases List.mem_append.1 hf with hf | hf
  · obtain ⟨n, hn, rfl⟩ := List.mem_map.1 hf
    refine List.mem_append_left _ (List.mem_map.2 ⟨n, ?_, rfl⟩)
    rw [hwhole]
    exact of_decide_eq_true (List.mem_filter.1 hn).2
  · exact List.mem_append_right _ (h f hf)

lemma AllSent.exec {y y' : DbState G} (h : AllSent y) {time : ℕ} {ok : Bool} {x : DbOp} {r : x.Res}
    (hexec : exec S cfg time ok x y = some (r, y')) (hwhole : x.whole) : AllSent y' := by
  cases x with
  | execBatch table b =>
    simp only [Db.exec] at hexec
    split_ifs at hexec
    · cases hexec
      exact h.settle time table (of_decide_eq_true hwhole)
    · cases hexec
      exact h
  | deadLetter table b =>
    cases hexec
    exact h.settle time table (of_decide_eq_true hwhole)
  | commit | enqueue | requestFlush | awaitDrained | retune | drain =>
    simp only [Db.exec] at hexec
    split at hexec <;> first
      | cases hexec
        exact h
      | (split_ifs at hexec
         cases hexec
         exact h)
  | query | stop =>
    cases hexec
    exact h

lemma allSent_of_run (hmeets : Meets (dbMachine S cfg) Quiet (cfg.start pg) es)
    (hrun : run (dbMachine S cfg) (cfg.start pg) es = some s) : AllSent s.shared.2 := by
  refine run_induction (I := fun s => AllSent s.shared.2) ?_ ?_ hmeets hrun
  · intro s e s' h hquiet hstep
    cases hstep.change with
    | quiet hshared | enter _ _ _ _ _ hshared | leave _ _ _ _ _ hshared => rwa [hshared]
    | act t env c b op k r hev hactive hexec =>
      cases op with
      | inl => rwa [snd_of_execBoth hexec]
      | inr x =>
        refine h.exec (exec_of_execBoth hexec) ?_
        have hwhole := hquiet.whole
        rw [hev] at hwhole
        simpa [sendsWhole, hactive, operation] using hwhole
  · rintro f ⟨⟩

def flushes : DbJob → Option Bytes
  | .flushNow table => some table
  | _ => none

lemma eq_of_flushes {job : DbJob} (h : flushes job = some table) : job = .flushNow table := by
  cases job with
  | flushNow =>
    cases h
    rfl
  | _ => cases h

lemma eq_of_synced {j : JobRecord DbThread DbJob.Out} {n : ℕ}
    (h : synced j.job j.out = some (table, n)) :
    ∃ row, j = ⟨j.thread, .writeSync table row, some n, j.began, j.ended⟩ := by
  obtain ⟨t, job, out, b, e⟩ := j
  cases job with
  | writeSync _ row =>
    obtain ⟨n', rfl, heq⟩ := Option.map_eq_some_iff.1 h
    cases heq
    exact ⟨row, rfl⟩
  | _ => cases h

lemma mem_asked (h : (cfg.tables.lookup table).isSome) : table ∈ cfg.asked table := by
  unfold DbConfig.asked
  split_ifs with ht
  · obtain ⟨c, hc⟩ := Option.isSome_iff_exists.1 h
    obtain ⟨l, l', heq, -⟩ := List.lookup_eq_some_iff.1 hc
    rw [heq]
    simp
  · exact List.mem_singleton_self table

/-- If no wait for a table ends while its flusher is at work, and no rows are coalesced, then what
`flush_now` and `write_sync` wait for is sent when they return. -/
theorem flushed_on_return (S : Server G) (cfg : DbConfig)
    (hmeets : Meets (dbMachine S cfg) Quiet (cfg.start pg) es)
    (hrun : run (dbMachine S cfg) (cfg.start pg) es = some s) : FlushedOnReturn cfg s := by
  have hkeeps := keeping_of_run hmeets hrun
  have hist := histories_of_dbRun hrun
  -- A wait that began after the row was enqueued.
  have hwait : ∀ {w r : DbRecord} {table n}, w ∈ s.calls → r ∈ s.calls →
      w.call = .inr (.awaitDrained table) → ticket r.call r.ret = some (table, n) →
        r.ended ≤ w.began → s.shared.2.stopped table = false → s.shared.2.Sent table n := by
    intro w r table n hw hr hcall hn hrw hstop
    rcases (hkeeps.returned hw).2 table hcall with hstopped | hflushed
    · rw [hstop] at hstopped
      cases hstopped
    · obtain ⟨f, hf⟩ := hflushed r hr n hn hrw
      exact allSent_of_run hmeets hrun _ hf
  constructor
  · rintro ⟨t, job, out, b, e⟩ table₀ table r n hj rfl hasked hr hn hrj hstop
    obtain ⟨w, hw, hof, hcall⟩ := hist.finished hj () rfl table hasked
    have hgt := (jobStamped_of_run hrun).record_gt hw
    rw [hof.job] at hgt
    exact hwait hw hr hcall hn (hrj.trans hgt.le) hstop
  · intro j table n hj hsynced hstop
    obtain ⟨row, heq⟩ := eq_of_synced hsynced
    rw [heq] at hj
    obtain ⟨own, ⟨hown, hof, hn⟩, hwaits⟩ := hist.finished hj (some n) rfl n rfl
    have hacc := accounts_of_run hrun
    have hknown : (cfg.tables.lookup table).isSome = true := by
      rw [← hacc.known table]
      exact ((hacc.keeps.returned hown).2 table n hn).1
    obtain ⟨w, ⟨hw, -, hcall⟩, hlt⟩ := hwaits table (mem_asked hknown)
    refine ⟨own, hown, hof.job, hn, fun r hr n' hn' hrown => ?_⟩
    exact hwait hw hr hcall hn' (by omega) hstop

/-- In every run, a row for which `enqueue` has returned is queued or in flight until its batch is
accepted or given up, and an answer is as of a time within its call. -/
theorem has_of_enqueued (hrun : run (dbMachine S cfg) (cfg.start pg) es = some s) : ∀ r ∈ s.calls,
    (∀ table n, ticket r.call r.ret = some (table, n) → s.shared.2.Has table n) ∧
      ∀ m, stamp r.call r.ret = some m → r.began ≤ m ∧ m < r.ended :=
  fun _ hr => ((accounts_of_run hrun).keeps.returned hr).symm

def waitedAfter : List DbEvent :=
  jobEvents (.worker 0) (.write (str "t") [.fromText (str "x")]) [1, 1] ++
    jobEvents (.flusher (str "t")) (.flush (str "t")) [1, 1, 1] ++
      jobEvents (.worker 1) (.flushNow (str "t")) [1, 1]

theorem flushed_on_return_waitedAfter :
    ∃ s, run (dbMachine .content .small) (DbConfig.small.start ()) waitedAfter = some s ∧
      (∃ j ∈ s.jobs, j.job = .flushNow (str "t")) ∧
        (∃ r ∈ s.calls, (ticket r.call r.ret).isSome = true) ∧ FlushedOnReturn .small s := by
  have hmeets : meetsAll (dbMachine .content .small) (fun s e => waitsIdle s e && sendsWhole s e)
      (DbConfig.small.start ()) waitedAfter = true := by
    decide +kernel
  have hfound : (run (dbMachine .content .small) (DbConfig.small.start ()) waitedAfter).any
      (fun s => s.jobs.any (fun j => flushes j.job = some (str "t")) &&
        s.calls.any fun r => (ticket r.call r.ret).isSome) = true := by
    decide +kernel
  simp only [Option.any_eq_true, List.any_eq_true, Bool.and_eq_true, decide_eq_true_eq] at hfound
  obtain ⟨s, hrun, ⟨j, hj, hjob⟩, r, hr, hticket⟩ := hfound
  refine ⟨s, hrun, ⟨j, hj, eq_of_flushes hjob⟩, ⟨r, hr, hticket⟩,
    flushed_on_return .content .small ((meets_of_meetsAll hmeets).mono fun s e h => ?_) hrun⟩
  obtain ⟨hidle, hwhole⟩ := Bool.and_eq_true_iff.1 h
  exact ⟨hidle, hwhole⟩

theorem has_of_enqueued_waitedAfter :
    ∃ s, run (dbMachine .content .small) (DbConfig.small.start ()) waitedAfter = some s ∧
      ∀ r ∈ s.calls, ∀ table n, ticket r.call r.ret = some (table, n) → s.shared.2.Has table n := by
  have hsome : (run (dbMachine .content .small) (DbConfig.small.start ()) waitedAfter).isSome := by
    decide +kernel
  obtain ⟨s, hrun⟩ := Option.isSome_iff_exists.1 hsome
  exact ⟨s, hrun, fun r hr => (has_of_enqueued hrun r hr).1⟩

/-- A row is written and drained, and `flush_now` returns before it is sent. -/
def waitedBetween : List DbEvent :=
  jobEvents (.worker 0) (.write (str "t") [.fromText (str "x")]) [1, 1] ++
    .start (.flusher (str "t")) (.flush (str "t")) 1 :: (callEvents (.flusher (str "t")) 1 ++
      jobEvents (.worker 1) (.flushNow (str "t")) [1, 1])

/-- Two rows with one key are written, and the statement has the second one only. -/
def wroteTwice : List DbEvent :=
  jobEvents (.worker 0) (.write (str "t") [.fromText (str "x")]) [1, 1] ++
    jobEvents (.worker 0) (.write (str "t") [.fromText (str "x")]) [1, 1] ++
      jobEvents (.flusher (str "t")) (.flush (str "t")) [1, 1, 1] ++
        jobEvents (.worker 1) (.flushNow (str "t")) [1, 1]

/-- After a `flush_now`, a row that was enqueued before it has not been sent. -/
def unsent (s : DbSys G) : Bool :=
  !s.shared.2.stopped (str "t") && s.jobs.any fun j => flushes j.job = some (str "t") &&
    s.calls.any fun r => r.ended ≤ j.began &&
      (ticket r.call r.ret).any fun x => x.1 = str "t" && x ∉ s.shared.2.sent

lemma not_flushedOnReturn_of_unsent {s : DbSys G} (h : unsent s) : ¬ FlushedOnReturn .small s := by
  simp only [unsent, Option.any_eq_true, List.any_eq_true, Bool.and_eq_true, decide_eq_true_eq,
    Bool.not_eq_true'] at h
  obtain ⟨hstop, j, hj, hjob, r, hr, hrj, ⟨table, n⟩, hn, rfl, hunsent⟩ := h
  intro hflushed
  exact hunsent (hflushed.flushNow hj (eq_of_flushes hjob) (by decide) hr hn hrj hstop)

/-- Neither of the two conditions of `flushed_on_return` is enough. -/
theorem not_flushed_on_return :
    (∃ es s, run (dbMachine .content .small) (DbConfig.small.start ()) es = some s ∧
      Meets (dbMachine .content .small) (fun s e => sendsWhole s e = true)
        (DbConfig.small.start ()) es ∧
        ¬ FlushedOnReturn .small s) ∧
    ∃ es s, run (dbMachine .content .small) (DbConfig.small.start ()) es = some s ∧
      Meets (dbMachine .content .small) (fun s e => waitsIdle s e = true)
        (DbConfig.small.start ()) es ∧
        ¬ FlushedOnReturn .small s := by
  have hbetween : (run (dbMachine .content .small) (DbConfig.small.start ()) waitedBetween).any
      unsent = true := by decide +kernel
  have htwice : (run (dbMachine .content .small) (DbConfig.small.start ()) wroteTwice).any
      unsent = true := by decide +kernel
  constructor
  · obtain ⟨s, hrun, hs⟩ := (Option.any_eq_true _ _).1 hbetween
    exact ⟨_, s, hrun, meets_of_meetsAll (by decide +kernel), not_flushedOnReturn_of_unsent hs⟩
  · obtain ⟨s, hrun, hs⟩ := (Option.any_eq_true _ _).1 htwice
    exact ⟨_, s, hrun, meets_of_meetsAll (by decide +kernel), not_flushedOnReturn_of_unsent hs⟩

end Runs

end SpidoNG.Db
