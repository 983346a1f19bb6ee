import SpidoNG.Db.Refill

/-!
# Queries of a table with batched writes

`query_cached` neither waits for the flush nor looks whether the table is dirty.
-/

namespace SpidoNG.Db

open Bytes Pg Cache Batch Threads

variable {G : Type}

def DbJob.queryTag : DbJob → Option Bytes
  | .queryCached _ _ _ tag => some tag
  | _ => none

def DbJob.writeTable : DbJob → Option Bytes
  | .write table _ => some table
  | _ => none

def wrote : (job : DbJob) → job.Out → Option (Bytes × ℕ)
  | .write table _, out => out.map fun n => (table, n)
  | _, _ => none

def FollowsFlush (s : DbSys G) : Prop :=
  ∀ w ∈ s.jobs, ∀ q ∈ s.jobs, ∀ table n a, wrote w.job w.out = some (table, n) →
    queried q.job q.out = some (table, a) → w.ended ≤ q.ended →
      ∃ f, ⟨n, table, f⟩ ∈ s.shared.2.settled ∧ f ≤ a.asOf

/-- The table was invalidated after a step, and the thread has run the invalidation or has cleared
its own table since, before another step. -/
def Reaches (s : DbSys G) (table : Bytes) (m : ℕ) (t : DbThread) (b : ℕ) : Prop :=
  ∃ i ∈ s.calls, ∃ c ∈ s.calls, invalidated i.call = some table ∧ m < i.began ∧
    clears c.call = true ∧ (c = i ∨ i.ended ≤ c.began) ∧ c.thread = t ∧ c.ended ≤ b

structure Ready (s : DbSys G) (t : DbThread) (table : Bytes) : Prop where
  idle : ∀ u j, s.pending u = some j → j.job.writeTable ≠ some table
  queued : s.shared.2.queued table = []
  inFlight : s.shared.2.inFlight table = []
  reaches : ∀ f ∈ s.shared.2.settled, f.table = table → Reaches s table f.time t s.time

def Ordered (s : DbSys G) : DbEvent → Prop
  | .start t job _ => (∀ table, job.queryTag = some table → Ready s t table) ∧
      ∀ table, job.writeTable = some table → table ≠ [] ∧
        ∀ u j, s.pending u = some j → j.job.queryTag ≠ some table
  | _ => True

structure Careful (cfg : DbConfig) (s : DbSys G) (e : DbEvent) : Prop where
  regular : Regular cfg s e
  ordered : Ordered s e

structure Prepared (s : DbSys G) (table : Bytes) (t : DbThread) (b : ℕ) : Prop where
  flushed : ∀ {r n}, r ∈ s.calls → ticket r.call r.ret = some (table, n) → r.ended < b →
    ∃ f < b, ⟨n, table, f⟩ ∈ s.shared.2.settled
  reaches : ∀ {f}, f ∈ s.shared.2.settled → f.table = table → f.time < b →
    Reaches s table f.time t b

structure Parted (s : DbSys G) : Prop where
  serial : ∀ {table b job o b' job' o'}, job.queryTag = some table → job'.writeTable = some table →
    Spans s b job o → Spans s b' job' o' → Serial b o b' o'
  named : ∀ {b job table}, Begun s b job → job.writeTable = some table → table ≠ []
  running : ∀ {t j table}, s.pending t = some j → j.job.queryTag = some table →
    Prepared s table t j.began
  finished : ∀ {r table}, r ∈ s.jobs → r.job.queryTag = some table →
    Prepared s table r.thread r.began

section Steps

variable {S : Server G} {cfg : DbConfig} {s s' : DbSys G} {e : DbEvent} {table : Bytes}
  {t : DbThread}
  {b : ℕ}

lemma Reaches.step {m : ℕ} (h : Reaches s table m t b) (hc : Change (dbMachine S cfg) s e s') :
    Reaches s' table m t b := by
  obtain ⟨i, hi, c, hcmem, h⟩ := h
  exact ⟨i, hc.calls_mono hi, c, hc.calls_mono hcmem, h⟩

lemma Prepared.step (h : Prepared s table t b) (hb : b ≤ s.time)
    (hc : Change (dbMachine S cfg) s e s') : Prepared s' table t b where
  flushed := by
    intro r n hr hn hrb
    rcases hc.record_cases hr with hr | ⟨-, hend, -⟩
    · obtain ⟨f, hf, hmem⟩ := h.flushed hr hn hrb
      exact ⟨f, hf, (moves_of_change hc).settled _ hmem⟩
    · omega
  reaches := by
    intro f hf htable hfb
    rcases (moves_of_change hc).fresh f hf with hf | ⟨hnow, -⟩
    · exact (h.reaches hf htable hfb).step hc
    · omega

lemma Ready.prepared (h : Ready s t table) (hacc : Accounts cfg s) : Prepared s table t s.time where
  flushed := by
    intro r n hr hn _
    rcases ((hacc.keeps.returned hr).2 table n hn).2 with hn | hn | ⟨f, hf⟩
    · simp [h.queued] at hn
    · simp [h.inFlight] at hn
    · exact ⟨f, (hacc.settled_lt _ hf).2, hf⟩
  reaches hf htable _ := h.reaches _ hf htable

lemma Parted.step (h : Parted s) (hjobs : JobStamped s) (hacc : Accounts cfg s)
    (hok : Ordered s e) (hstep : Step (dbMachine S cfg) s e s') : Parted s' where
  serial := by
    intro table b job o b' job' o' hq hw
    refine serial_step (A := fun job => job.queryTag = some table)
      (B := fun job => job.writeTable = some table) hjobs hstep ?_ ?_ ?_ h.serial hq hw
    · intro job hq hw
      cases job with
      | queryCached => cases hw
      | _ => cases hq
    · rintro t job fuel u j rfl hq hj
      exact (hok.1 table hq).idle u j hj
    · rintro t job fuel u j rfl hw hj
      exact (hok.2 table hw).2 u j hj
  named := by
    intro b job table hbegan hw
    rcases hbegan.cases hstep.jobChange with hbegan | ⟨t, fuel, rfl⟩
    · exact h.named hbegan hw
    · exact (hok.2 table hw).1
  running := by
    intro t j table hj hq
    rcases hstep.jobChange.pending_cases hj with ⟨-, hbeg, fuel, rfl, -⟩ | ⟨i, hi, hjob, hbeg⟩
    · rw [hbeg]
      exact ((hok.1 table hq).prepared hacc).step le_rfl hstep.change
    · rw [← hbeg]
      exact (h.running hi (hjob ▸ hq)).step (hjobs.pending_lt hi).le hstep.change
  finished := by
    intro r table hr hq
    rcases hstep.jobChange.job_cases hr with hr | ⟨hpen, -, -⟩
    · have := hjobs.job_lt hr
      exact (h.finished hr hq).step (by omega) hstep.change
    · exact (h.running hpen hq).step (hjobs.pending_lt hpen).le hstep.change

end Steps

section Runs

variable {S : Server G} {cfg : DbConfig} {pg : G} {es : List DbEvent} {s : DbSys G}

lemma parted_init (cfg : DbConfig) (pg : G) : Parted (cfg.start pg) where
  serial := by
    rintro table b job (_ | x) b' job' o' - - hspan
    · obtain ⟨t, j, hj, -⟩ := hspan
      cases hj
    · obtain ⟨r, hr, -⟩ := hspan
      cases hr
  named := by
    rintro b job table (⟨t, j, hj, -⟩ | ⟨r, hr, -⟩)
    · cases hj
    · cases hr
  running hj := by cases hj
  finished hr := by cases hr

lemma parted_of_run (hmeets : Meets (dbMachine S cfg) (Careful cfg) (cfg.start pg) es)
    (hrun : run (dbMachine S cfg) (cfg.start pg) es = some s) : Parted s := by
  have h : Stamped s ∧ JobStamped s ∧ Accounts cfg s ∧ Parted s := by
    refine run_induction (I := fun s => Stamped s ∧ JobStamped s ∧ Accounts cfg s ∧ Parted s) ?_
      ⟨stamped_init _, jobStamped_init _, accounts_init cfg pg, parted_init cfg pg⟩ hmeets hrun
    rintro s e s' ⟨hs, hj, hacc, h⟩ hok hstep
    exact ⟨hs.step hstep.change hstep.time, hj.step hs hstep, hacc.step hstep,
      h.step hj hacc hok.ordered hstep⟩
  exact h.2.2.2

variable {j : JobRecord DbThread DbJob.Out} {table : Bytes}

lemma eq_of_wrote {n : ℕ} (h : wrote j.job j.out = some (table, n)) :
    ∃ row, j = ⟨j.thread, .write table row, some n, j.began, j.ended⟩ := by
  obtain ⟨t, job, out, b, e⟩ := j
  cases job with
  | write _ row =>
    obtain ⟨n', rfl, heq⟩ := Option.map_eq_some_iff.1 h
    cases heq
    exact ⟨row, rfl⟩
  | _ => cases h

lemma queryTag_of_queried {a : Answer}
    (h : queried j.job j.out = some (table, a)) : j.job.queryTag = some table := by
  obtain ⟨sql, params, ttl, heq⟩ := eq_of_queried h
  rw [heq]
  rfl

lemma exists_first {y : DbState G} {n f₀ : ℕ} (h : ⟨n, table, f₀⟩ ∈ y.settled) :
    ∃ f ≤ f₀, ⟨n, table, f⟩ ∈ y.settled ∧ ∀ f' < f, ⟨n, table, f'⟩ ∉ y.settled := by
  classical
  have hex : ∃ f, ⟨n, table, f⟩ ∈ y.settled := ⟨f₀, h⟩
  exact ⟨Nat.find hex, Nat.find_min' hex h, Nat.find_spec hex, fun f' hf' => Nat.find_min hex hf'⟩

/-- If queries and writes do not overlap, and queries begin only when all rows are settled and their
thread has noticed, then no answer is from before the flush. -/
theorem follows_flush (S : Server G) (cfg : DbConfig)
    (hmeets : Meets (dbMachine S cfg) (Careful cfg) (cfg.start pg) es)
    (hrun : run (dbMachine S cfg) (cfg.start pg) es = some s) : FollowsFlush s := by
  intro w hw q hq table n a hwrote hqueried hafter
  have hparted := parted_of_run hmeets hrun
  have hjobs := jobStamped_of_run hrun
  have hacc := accounts_of_run hrun
  have htag := queryTag_of_queried hqueried
  obtain ⟨row, heq⟩ := eq_of_wrote hwrote
  have hwtable : w.job.writeTable = some table := by rw [heq]; rfl
  have hwspan : Spans s w.began w.job (some w.ended) := ⟨w, hw, rfl, rfl, rfl⟩
  -- The row was enqueued by a call of the write.
  obtain ⟨r, hr, hof, hticket⟩ : ∃ r, Enqueues table n w.thread w.began s.calls r := by
    rw [heq] at hw
    exact (histories_of_dbRun hrun).finished hw (some n) rfl n rfl
  have hrw := (hjobs.call_within hr hw hof.job).2
  have hwn : w.began < n := by
    have hgt := hjobs.record_gt hr
    have hstamp := ((hacc.keeps.returned hr).1 n (stamp_of_ticket hticket)).1
    rw [hof.job] at hgt
    omega
  -- The query began after the write had returned.
  have hqspan : Spans s q.began q.job (some q.ended) := ⟨q, hq, rfl, rfl, rfl⟩
  have hwq : w.ended < q.began := by
    rcases hparted.serial htag hwtable hqspan hwspan with ⟨x, hx, hlt⟩ | ⟨x, hx, hlt⟩
    · cases hx
      have := hjobs.job_lt hw
      omega
    · cases hx
      exact hlt
  have hprepared := hparted.finished hq htag
  obtain ⟨f₀, hf₀, hmem₀⟩ := hprepared.flushed hr hticket (by omega)
  obtain ⟨f, hf, hmem, hfirst⟩ := exists_first hmem₀
  obtain ⟨i, hi, c, hc, hdrop, hfi, hclears, hcut, hthread, hcq⟩ :=
    hprepared.reaches hmem rfl (by dsimp only; omega)
  have hnf := (hacc.settled_lt _ hmem).1
  dsimp only at hfi hnf
  obtain ⟨sql, params, ttl, hjob⟩ := eq_of_queried hqueried
  refine ⟨f, hmem, asOf_of_cut
    (hmeets.mono fun _ _ h => h.regular.on (cfg.cacheKey sql params) table) hrun
    (hparted.named (.inr ⟨w, hw, rfl, rfl⟩) hwtable) hi hdrop hfi.le ?_ hc hclears hcut hq
    (by rw [hjob]; rfl) hqueried hthread.symm hcq⟩
  -- A query from before the flush is from before the write, or it would have waited for the flush.
  rintro b sql params ttl hbegun - hbf
  obtain ⟨o, hspan⟩ := hbegun.spans
  rcases hparted.serial rfl hwtable hspan hwspan with ⟨x, rfl, hlt⟩ | ⟨x, hx, hlt⟩
  · obtain ⟨q', hq', hb, -, rfl⟩ := hspan
    exact ⟨q', hq', hb, by omega⟩
  · cases hx
    have hflushed : ∃ f' < b, ⟨n, table, f'⟩ ∈ s.shared.2.settled := by
      rcases hbegun with ⟨t, j, hj, rfl, hjob⟩ | ⟨q', hq', rfl, hjob⟩
      · exact (hparted.running hj (by rw [hjob]; rfl)).flushed hr hticket (by omega)
      · exact (hparted.finished hq' (by rw [hjob]; rfl)).flushed hr hticket (by omega)
    obtain ⟨f', hf', hmem'⟩ := hflushed
    exact absurd hmem' (hfirst f' (by omega))

def askedAfterFlush : List DbEvent :=
  jobEvents (.worker 0) (.write (str "t") [.fromText (str "x")]) [1, 1] ++
    jobEvents (.flusher (str "t")) (.flush (str "t")) [1, 1, 1] ++
      jobEvents (.worker 0) (.update (str "u") [] (str "t")) [1, 2] ++
        jobEvents (.worker 0) (.queryCached (str "q") [] 0 (str "t")) [3, 1, 22]

/-- No job runs when one is started, and a query is started on the thread that has invalidated its
table since the last row was settled. -/
def carefulTurn (ts : List DbThread) (tag : Bytes) (s : DbSys G) (e : DbEvent) : Bool :=
  takesTurn ts tag s e && match e with
    | .start t job _ => ts.all (fun u => (s.pending u).isNone) && job.writeTable.all (· ≠ []) &&
        job.queryTag.all fun table =>
          (s.shared.2.queued table).isEmpty && (s.shared.2.inFlight table).isEmpty &&
            s.shared.2.settled.all fun f => s.calls.any fun i =>
              invalidated i.call = some table &&
                (f.time < i.began && (i.thread = t && i.ended ≤ s.time))
    | _ => true

lemma Confined.careful {ts : List DbThread} {tag : Bytes} {e : DbEvent} (h : Confined ts tag s)
    (he : carefulTurn ts tag s e) : Careful cfg s e := by
  obtain ⟨hturn, he⟩ := Bool.and_eq_true_iff.1 he
  refine ⟨h.regular hturn, ?_⟩
  cases e with
  | start =>
    simp only [Bool.and_eq_true, List.all_eq_true, Option.all_eq_true, List.any_eq_true,
      List.isEmpty_iff, decide_eq_true_eq, Option.isNone_iff_eq_none] at he
    obtain ⟨⟨hidle, hnamed⟩, hready⟩ := he
    have hnone : ∀ u j, s.pending u ≠ some j := by
      intro u j hj
      rw [hidle u (h.pending hj)] at hj
      cases hj
    refine ⟨fun table hq => ?_, fun table hw =>
      ⟨hnamed table hw, fun u j hj => absurd hj (hnone u j)⟩⟩
    obtain ⟨⟨hque, hflight⟩, hall⟩ := hready table hq
    refine ⟨fun u j hj => absurd hj (hnone u j), hque, hflight, fun f hf _ => ?_⟩
    obtain ⟨i, hi, hdrop, hfi, hthread, hend⟩ := hall f hf
    refine ⟨i, hi, i, hi, hdrop, hfi, ?_, .inl rfl, hthread, hend⟩
    rw [eq_of_invalidated hdrop]
    rfl
  | _ => trivial

theorem follows_flush_askedAfterFlush :
    ∃ s, run (dbMachine .content .small) (DbConfig.small.start ()) askedAfterFlush = some s ∧
      (∃ w ∈ s.jobs, ∃ q ∈ s.jobs, ∃ n a, wrote w.job w.out = some (str "t", n) ∧
        queried q.job q.out = some (str "t", a) ∧ w.ended ≤ q.ended) ∧ FollowsFlush s := by
  have hturns := meets_of_meetsAll (show meetsAll (dbMachine .content .small)
    (carefulTurn [.worker 0, .flusher (str "t")] (str "t")) (DbConfig.small.start ())
      askedAfterFlush = true by decide +kernel)
  have hfound : (run (dbMachine .content .small) (DbConfig.small.start ()) askedAfterFlush).any
      (fun s => s.jobs.any fun w => s.jobs.any fun q => (wrote w.job w.out).any fun x =>
        (queried q.job q.out).any fun y =>
          (x.1 = str "t" && y.1 = str "t") && w.ended ≤ q.ended) = true := by
    decide +kernel
  simp only [Option.any_eq_true, List.any_eq_true, Bool.and_eq_true, decide_eq_true_eq] at hfound
  obtain ⟨s, hrun, w, hw, q, hq, ⟨table, n⟩, hwrote, ⟨table', a⟩, hqueried, ⟨rfl, rfl⟩,
    hafter⟩ := hfound
  refine ⟨s, hrun, ⟨w, hw, q, hq, n, a, hwrote, hqueried, hafter⟩, ?_⟩
  refine follows_flush .content .small
    (hturns.along ?_ Confined.careful (confined_init _ _ _ _)) hrun
  exact fun h he hstep => h.step (Bool.and_eq_true_iff.1 he).1 hstep

def askedBeforeFlush : List DbEvent :=
  jobEvents (.worker 0) (.write (str "t") [.fromText (str "x")]) [1, 1] ++
    jobEvents (.worker 0) (.queryCached (str "q") [] 0 (str "t")) [3, 1, 22]

theorem not_follows_flush :
    ¬ ∀ es s, run (dbMachine .content .small) (DbConfig.small.start ()) es = some s →
      FollowsFlush s := by
  have hfound : (run (dbMachine .content .small) (DbConfig.small.start ()) askedBeforeFlush).any
      (fun s => s.shared.2.settled.isEmpty && s.jobs.any fun w => s.jobs.any fun q =>
        (wrote w.job w.out).any fun x => (queried q.job q.out).any fun y =>
          x.1 = y.1 && w.ended ≤ q.ended) = true := by
    decide +kernel
  simp only [Option.any_eq_true, List.any_eq_true, Bool.and_eq_true, decide_eq_true_eq,
    List.isEmpty_iff] at hfound
  obtain ⟨s, hrun, hempty, w, hw, q, hq, ⟨table, n⟩, hwrote, ⟨table', a⟩, hqueried, rfl,
    hafter⟩ := hfound
  intro h
  obtain ⟨f, hf, -⟩ := h _ s hrun w hw q hq table n a hwrote hqueried hafter
  rw [hempty] at hf
  cases hf

end Runs

end SpidoNG.Db
