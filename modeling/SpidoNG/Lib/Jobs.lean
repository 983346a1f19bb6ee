import SpidoNG.Lib.Threads

/-!
# The jobs of threads

What a thread has still to do of its job is a program of calls.
-/

namespace Threads

open List

variable {Tid S Env Op Call Job : Type} {Res : Op → Type} {Ret : Call → Type} {Out : Job → Type}

def Thread.pending : Thread Res Ret Out → Option (Running Ret Out)
  | .idle => none
  | .between j => some j
  | .inside a job began k => some ⟨job, began, .call a.call k⟩

def Sys.pending (s : Sys Tid S Res Ret Out) (t : Tid) : Option (Running Ret Out) :=
  (s.threads t).pending

variable {t : Tid} {j : Running Ret Out} {r : JobRecord Tid Out} {b : ℕ} {job : Job}

lemma Sys.pending_of_active {s : Sys Tid S Res Ret Out} {a : Active Res Ret}
    (ha : s.active t = some a) : ∃ job b k, s.pending t = some ⟨job, b, .call a.call k⟩ := by
  unfold Sys.active at ha
  unfold Sys.pending
  cases hthread : s.threads t with
  | idle | between => rw [hthread] at ha; cases ha
  | inside _ job b k =>
    rw [hthread] at ha
    cases ha
    exact ⟨job, b, k, rfl⟩

variable {M : Machine Tid S Env Res Ret Out} {s s' : Sys Tid S Res Ret Out} {e : Event Tid Env Job}

@[simp] lemma pending_set_self [DecidableEq Tid] (s : Sys Tid S Res Ret Out) (t : Tid)
    (th : Thread Res Ret Out) :
    (s.set t th).pending t = th.pending := by
  simp [Sys.pending, Sys.set]

lemma pending_set_of_ne [DecidableEq Tid] {u : Tid} (h : u ≠ t) (s : Sys Tid S Res Ret Out)
    (th : Thread Res Ret Out) : (s.set t th).pending u = s.pending u := by
  simp [Sys.pending, Sys.set, h]

lemma pending_set [DecidableEq Tid] {th : Thread Res Ret Out} (h : th.pending = s.pending t)
    (u : Tid) :
    (s.set t th).pending u = s.pending u := by
  by_cases hu : u = t
  · rw [hu, pending_set_self, h]
  · exact pending_set_of_ne hu _ _

inductive JobChange (M : Machine Tid S Env Res Ret Out) (s : Sys Tid S Res Ret Out)
    (e : Event Tid Env Job) (s' : Sys Tid S Res Ret Out) : Prop
  | quiet (hpending : ∀ t, s'.pending t = s.pending t) (hcalls : s'.calls = s.calls)
      (hjobs : s'.jobs = s.jobs)
  | start (t : Tid) (job : Job) (fuel : ℕ) (hevent : e = .start t job fuel)
      (hruns : M.runsOn t job = true) (hbefore : s.pending t = none)
      (hafter : s'.pending t = some ⟨job, s.time, M.script fuel job⟩) (hactive : s'.active t = none)
      (hothers : ∀ u, u ≠ t → s'.pending u = s.pending u ∧ s'.active u = s.active u)
      (hcalls : s'.calls = s.calls) (hjobs : s'.jobs = s.jobs)
  | leave (t : Tid) (job : Job) (b : ℕ) (c : Call) (k : Ret c → Prog Call Ret (Option (Out job)))
      (r : Ret c) (began : ℕ) (hcall : s.active t = some ⟨c, began, .pure (some r)⟩)
      (hbefore : s.pending t = some ⟨job, b, .call c k⟩) (hafter : s'.pending t
        = some ⟨job, b, k r⟩)
      (hactive : s'.active t = none)
      (hothers : ∀ u, u ≠ t → s'.pending u = s.pending u ∧ s'.active u = s.active u)
      (hcalls : s'.calls = ⟨t, b, c, r, began, s.time⟩ :: s.calls) (hjobs : s'.jobs = s.jobs)
  | finish (t : Tid) (job : Job) (b : ℕ) (out : Out job)
      (hbefore : s.pending t = some ⟨job, b, .pure (some out)⟩) (hafter : s'.pending t = none)
      (hactive : s'.active t = none)
      (hothers : ∀ u, u ≠ t → s'.pending u = s.pending u ∧ s'.active u = s.active u)
      (hcalls : s'.calls = s.calls) (hjobs : s'.jobs = ⟨t, job, out, b, s.time⟩ :: s.jobs)

lemma Step.jobChange [DecidableEq Tid] (h : Step M s e s') : JobChange M s e s' := by
  cases h with
  | @start t job fuel hidle hruns =>
    refine .start t job fuel rfl hruns ?_ (pending_set_self _ _ _) (active_set_self _ _ _)
      (fun u hu => ⟨pending_set_of_ne hu _ _, active_set_of_ne hu _ _⟩) rfl rfl
    rw [Sys.pending, hidle]
    rfl
  | enter hthread | act hthread _ =>
    refine .quiet (pending_set ?_) rfl rfl
    rw [Sys.pending, hthread]
    rfl
  | @leave t c b began r job k hthread =>
    refine .leave t job began c k r b ?_ ?_ (pending_set_self _ _ _) (active_set_self _ _ _)
      (fun u hu => ⟨pending_set_of_ne hu _ _, active_set_of_ne hu _ _⟩) rfl rfl
    · rw [Sys.active, hthread]
      rfl
    · rw [Sys.pending, hthread]
      rfl
  | @finish t job out began hthread =>
    refine .finish t job began out ?_ (pending_set_self _ _ _) (active_set_self _ _ _)
      (fun u hu => ⟨pending_set_of_ne hu _ _, active_set_of_ne hu _ _⟩) rfl rfl
    rw [Sys.pending, hthread]
    rfl

inductive ThreadJobChange (M : Machine Tid S Env Res Ret Out) (s : Sys Tid S Res Ret Out)
    (e : Event Tid Env Job) (s' : Sys Tid S Res Ret Out) (t : Tid) : Prop
  | same (hpending : s'.pending t = s.pending t)
  | start (job : Job) (fuel : ℕ) (hevent : e = .start t job fuel) (hruns : M.runsOn t job = true)
      (hbefore : s.pending t = none)
      (hafter : s'.pending t = some ⟨job, s.time, M.script fuel job⟩) (hactive : s'.active t = none)
  | leave (job : Job) (b : ℕ) (c : Call) (k : Ret c → Prog Call Ret (Option (Out job))) (r : Ret c)
      (began : ℕ) (hcall : s.active t = some ⟨c, began, .pure (some r)⟩)
      (hbefore : s.pending t = some ⟨job, b, .call c k⟩) (hafter : s'.pending t
        = some ⟨job, b, k r⟩)
      (hactive : s'.active t = none) (hcalls : s'.calls = ⟨t, b, c, r, began, s.time⟩ :: s.calls)
  | finish (job : Job) (b : ℕ) (out : Out job)
      (hbefore : s.pending t = some ⟨job, b, .pure (some out)⟩) (hafter : s'.pending t = none)
      (hactive : s'.active t = none) (hjobs : s'.jobs = ⟨t, job, out, b, s.time⟩ :: s.jobs)

section

variable (h : JobChange M s e s')
include h

lemma JobChange.at (t : Tid) : ThreadJobChange M s e s' t := by
  cases h with
  | quiet hpen => exact .same (hpen t)
  | start u job fuel hev hruns hbef haft hact hoth =>
    by_cases ht : t = u
    · subst ht
      exact .start job fuel hev hruns hbef haft hact
    · exact .same (hoth t ht).1
  | leave u job b c k r began hcall hbef haft hact hoth hcalls =>
    by_cases ht : t = u
    · subst ht
      exact .leave job b c k r began hcall hbef haft hact hcalls
    · exact .same (hoth t ht).1
  | finish u job b out hbef haft hact hoth _ hjobs =>
    by_cases ht : t = u
    · subst ht
      exact .finish job b out hbef haft hact hjobs
    · exact .same (hoth t ht).1

lemma JobChange.calls_cases : s'.calls = s.calls ∨ s'.jobs = s.jobs ∧
    ∃ t job b c k r began, s.active t = some ⟨c, began, .pure (some r)⟩ ∧
      s.pending t = some ⟨job, b, .call c k⟩ ∧ s'.pending t = some ⟨job, b, k r⟩ ∧
        s'.calls = ⟨t, b, c, r, began, s.time⟩ :: s.calls := by
  cases h with
  | quiet _ hcalls | start _ _ _ _ _ _ _ _ _ hcalls | finish _ _ _ _ _ _ _ _ hcalls =>
    exact .inl hcalls
  | leave t job b c k r began hcall hbef haft _ _ hcalls hjobs =>
    exact .inr ⟨hjobs, t, job, b, c, k, r, began, hcall, hbef, haft, hcalls⟩

lemma JobChange.jobs_cases : s'.jobs = s.jobs ∨
    ∃ t job b out, s.pending t = some ⟨job, b, .pure (some out)⟩ ∧ s'.pending t = none ∧
      s'.jobs = ⟨t, job, out, b, s.time⟩ :: s.jobs := by
  cases h with
  | quiet _ _ hjobs | start _ _ _ _ _ _ _ _ _ _ hjobs | leave _ _ _ _ _ _ _ _ _ _ _ _ _ hjobs =>
    exact .inl hjobs
  | finish t job b out hbef haft _ _ _ hjobs =>
    exact .inr ⟨t, job, b, out, hbef, haft, hjobs⟩

lemma JobChange.pending_cases (hj : s'.pending t = some j) :
    (s.pending t = none ∧ j.began = s.time ∧ ∃ fuel, e = .start t j.job fuel ∧ M.runsOn t j.job) ∨
      ∃ i, s.pending t = some i ∧ i.job = j.job ∧ i.began = j.began := by
  cases h.at t with
  | same hpen => exact .inr ⟨j, hpen.symm.trans hj, rfl, rfl⟩
  | start _ fuel hev hruns hbef haft =>
    cases haft.symm.trans hj
    exact .inl ⟨hbef, rfl, fuel, hev, hruns⟩
  | leave _ _ _ _ _ _ _ hbef haft =>
    cases haft.symm.trans hj
    exact .inr ⟨_, hbef, rfl, rfl⟩
  | finish _ _ _ _ haft => cases haft.symm.trans hj

lemma JobChange.job_cases (hr : r ∈ s'.jobs) :
    r ∈ s.jobs ∨ s.pending r.thread = some ⟨r.job, r.began, .pure (some r.out)⟩ ∧
      r.ended = s.time ∧ s'.pending r.thread = none := by
  obtain hjobs | ⟨t, job, b, out, hbef, haft, hjobs⟩ := h.jobs_cases
  · exact .inl (hjobs ▸ hr)
  · rcases mem_cons.1 (hjobs ▸ hr) with rfl | hr
    · exact .inr ⟨hbef, rfl, haft⟩
    · exact .inl hr

lemma JobChange.jobs_mono (hr : r ∈ s.jobs) : r ∈ s'.jobs := by
  obtain hjobs | ⟨_, _, _, _, _, _, hjobs⟩ := h.jobs_cases
  · exact hjobs ▸ hr
  · rw [hjobs]
    exact mem_cons_of_mem _ hr

end

structure JobStamped (s : Sys Tid S Res Ret Out) : Prop where
  pending_lt : ∀ {t j}, s.pending t = some j → j.began < s.time
  active_gt : ∀ {t a j}, s.active t = some a → s.pending t = some j → j.began < a.began
  record_gt : ∀ {r}, r ∈ s.calls → r.job < r.began
  job_lt : ∀ {r}, r ∈ s.jobs → r.began < r.ended ∧ r.ended < s.time
  pending_inj : ∀ {t u i j}, s.pending t = some i → s.pending u = some j → i.began = j.began → t = u
  pending_ne : ∀ {t j r}, s.pending t = some j → r ∈ s.jobs → r.began ≠ j.began
  job_inj : ∀ {r r'}, r ∈ s.jobs → r' ∈ s.jobs → r.began = r'.began → r = r'
  call_thread : ∀ {r t j}, r ∈ s.calls → s.pending t = some j → r.job = j.began → r.thread = t
  call_within : ∀ {r j}, r ∈ s.calls → j ∈ s.jobs → r.job = j.began →
    r.thread = j.thread ∧ r.ended < j.ended

lemma jobStamped_init (σ : S) : JobStamped (Sys.init σ : Sys Tid S Res Ret Out) := by
  constructor <;> intros <;> simp_all [Sys.init, Sys.active, Sys.pending, Thread.active,
    Thread.pending]

section Stamps

variable (h : JobStamped s) (hs : Stamped s) (hc : JobChange M s e s')
include h hc

lemma JobStamped.record_gt_step {r : CallRecord Tid Ret} (hr : r ∈ s'.calls) : r.job < r.began := by
  obtain hcalls | ⟨-, t, job, b, c, k, ret, began, hcall, hbef, -, hcalls⟩ := hc.calls_cases
  · exact h.record_gt (hcalls ▸ hr)
  · rcases mem_cons.1 (hcalls ▸ hr) with rfl | hr
    · exact h.active_gt hcall hbef
    · exact h.record_gt hr

lemma JobStamped.pending_inj_step {u : Tid} {i : Running Ret Out} (hi : s'.pending t = some i)
    (hj : s'.pending u = some j) (heq : i.began = j.began) : t = u := by
  rcases hc.pending_cases hi with ⟨-, hbeg, fuel, hev, -⟩ | ⟨i', hi', -, hbeg⟩
  · rcases hc.pending_cases hj with ⟨-, -, fuel', hev', -⟩ | ⟨j', hj', -, hbeg'⟩
    · -- Only one thread starts a job in a step.
      exact (Event.start.inj (hev.symm.trans hev')).1
    · have := h.pending_lt hj'
      omega
  · rcases hc.pending_cases hj with ⟨-, hbeg', -⟩ | ⟨j', hj', -, hbeg'⟩
    · have := h.pending_lt hi'
      omega
    · exact h.pending_inj hi' hj' (by omega)

lemma JobStamped.pending_ne_step
    (hj : s'.pending t = some j) (hr : r ∈ s'.jobs) : r.began ≠ j.began := by
  intro heq
  rcases hc.job_cases hr with hr | ⟨hpen, -, hnone⟩
  · rcases hc.pending_cases hj with ⟨-, hbeg, -⟩ | ⟨j', hj', -, hbeg⟩
    · have := h.job_lt hr
      omega
    · exact h.pending_ne hj' hr (by omega)
  · rcases hc.pending_cases hj with ⟨-, hbeg, -⟩ | ⟨j', hj', -, hbeg⟩
    · have := h.pending_lt hpen
      dsimp only at this
      omega
    · have ht : t = r.thread := h.pending_inj hj' hpen (by dsimp only; omega)
      rw [ht, hnone] at hj
      cases hj

lemma JobStamped.job_inj_step {r' : JobRecord Tid Out} (hr : r ∈ s'.jobs) (hr' : r' ∈ s'.jobs)
    (heq : r.began = r'.began) : r = r' := by
  obtain hjobs | ⟨t, job, b, out, hbef, -, hjobs⟩ := hc.jobs_cases
  · exact h.job_inj (hjobs ▸ hr) (hjobs ▸ hr') heq
  · rcases mem_cons.1 (hjobs ▸ hr) with rfl | hr
    · rcases mem_cons.1 (hjobs ▸ hr') with rfl | hr'
      · rfl
      · exact absurd heq.symm (h.pending_ne hbef hr')
    · rcases mem_cons.1 (hjobs ▸ hr') with rfl | hr'
      · exact absurd heq (h.pending_ne hbef hr)
      · exact h.job_inj hr hr' heq

include hs in
lemma JobStamped.call_thread_step {r : CallRecord Tid Ret}
    (hr : r ∈ s'.calls) (hj : s'.pending t = some j) (heq : r.job = j.began) : r.thread = t := by
  have hold : r ∈ s.calls → r.thread = t := by
    intro hr
    rcases hc.pending_cases hj with ⟨-, hbeg, -⟩ | ⟨j', hj', -, hbeg⟩
    · have := h.record_gt hr
      have := hs.record_lt hr
      omega
    · exact h.call_thread hr hj' (by omega)
  obtain hcalls | ⟨-, u, job, b, c, k, ret, began, -, -, haft, hcalls⟩ := hc.calls_cases
  · exact hold (hcalls ▸ hr)
  · rcases mem_cons.1 (hcalls ▸ hr) with rfl | hr
    · exact h.pending_inj_step hc haft hj heq
    · exact hold hr

include hs in
lemma JobStamped.call_within_step {r : CallRecord Tid Ret} {j : JobRecord Tid Out}
    (hr : r ∈ s'.calls) (hj : j ∈ s'.jobs) (heq : r.job = j.began) :
    r.thread = j.thread ∧ r.ended < j.ended := by
  obtain hcalls | ⟨hjobs, t, job, b, c, k, ret, began, -, hbef, -, hcalls⟩ := hc.calls_cases
  · have hr : r ∈ s.calls := hcalls ▸ hr
    rcases hc.job_cases hj with hj | ⟨hbef, hend, -⟩
    · exact h.call_within hr hj heq
    · exact ⟨h.call_thread hr hbef heq, hend ▸ (hs.record_lt hr).2⟩
  · rcases mem_cons.1 (hcalls ▸ hr) with rfl | hr
    · exact absurd heq.symm (h.pending_ne hbef (hjobs ▸ hj))
    · exact h.call_within hr (hjobs ▸ hj) heq

end Stamps

lemma JobStamped.step [DecidableEq Tid] (h : JobStamped s) (hs : Stamped s)
    (hstep : Step M s e s') :
    JobStamped s' := by
  have hc := hstep.jobChange
  have htime := hstep.time
  refine ⟨?_, ?_, h.record_gt_step hc, ?_, h.pending_inj_step hc, h.pending_ne_step hc,
    h.job_inj_step hc, h.call_thread_step hs hc, h.call_within_step hs hc⟩
  · intro t j hj
    rcases hc.pending_cases hj with ⟨-, hbeg, -⟩ | ⟨j', hj', -, hbeg⟩
    · omega
    · have := h.pending_lt hj'
      omega
  · intro t a j ha hj
    cases hc.at t with
    | same hpen =>
      rw [hpen] at hj
      rcases hstep.change.active_cases ha with ⟨-, fuel, -, heq⟩ | ⟨a', ha', -, hbeg⟩
      · rw [heq]
        exact h.pending_lt hj
      · have := h.active_gt ha' hj
        omega
    | start _ _ _ _ _ _ hact | leave _ _ _ _ _ _ _ _ _ hact | finish _ _ _ _ _ hact =>
      cases hact.symm.trans ha
  · intro r hr
    rcases hc.job_cases hr with hr | ⟨hpen, hend, -⟩
    · have := h.job_lt hr
      omega
    · have := h.pending_lt hpen
      dsimp only at this
      omega

variable {es : List (Event Tid Env Job)}

lemma jobStamped_of_run [DecidableEq Tid] {σ : S}
    (hrun : run M (Sys.init σ) es = some s) : JobStamped s := by
  have h : Stamped s ∧ JobStamped s := by
    refine run_induction (I := fun s => Stamped s ∧ JobStamped s) ?_
      ⟨stamped_init σ, jobStamped_init σ⟩ (meets_true _ es) hrun
    rintro s e s' ⟨hs, hj⟩ - hstep
    exact ⟨hs.step hstep.change hstep.time, hj.step hs hstep⟩
  exact h.2

def Begun (s : Sys Tid S Res Ret Out) (b : ℕ) (job : Job) : Prop :=
  (∃ t j, s.pending t = some j ∧ j.began = b ∧ j.job = job) ∨ ∃ r ∈ s.jobs, r.began = b ∧
    r.job = job

lemma Begun.step (h : Begun s b job) (hc : JobChange M s e s') : Begun s' b job := by
  rcases h with ⟨t, j, hj, hb, rfl⟩ | ⟨r, hr, hb, rfl⟩
  · cases hc.at t with
    | same hpen => exact .inl ⟨t, j, hpen.trans hj, hb, rfl⟩
    | start _ _ _ _ hbef => cases hbef.symm.trans hj
    | leave _ _ _ _ _ _ _ hbef haft =>
      cases hbef.symm.trans hj
      exact .inl ⟨t, _, haft, hb, rfl⟩
    | finish _ _ _ hbef _ _ hjobs =>
      cases hbef.symm.trans hj
      exact .inr ⟨_, hjobs ▸ mem_cons_self, hb, rfl⟩
  · exact .inr ⟨r, hc.jobs_mono hr, hb, rfl⟩

lemma Begun.cases (h : Begun s' b job) (hc : JobChange M s e s') :
    Begun s b job ∨ ∃ t fuel, e = .start t job fuel := by
  rcases h with ⟨t, j, hj, rfl, rfl⟩ | ⟨r, hr, rfl, rfl⟩
  · rcases hc.pending_cases hj with ⟨-, -, fuel, hev, -⟩ | ⟨i, hi, hjob, hbeg⟩
    · exact .inr ⟨t, fuel, hev⟩
    · exact .inl (.inl ⟨t, i, hi, hbeg, hjob⟩)
  · rcases hc.job_cases hr with hr | ⟨hpen, -, -⟩
    · exact .inl (.inr ⟨r, hr, rfl, rfl⟩)
    · exact .inl (.inl ⟨r.thread, _, hpen, rfl, rfl⟩)

def Spans (s : Sys Tid S Res Ret Out) (b : ℕ) (job : Job) : Option ℕ → Prop
  | none => ∃ t j, s.pending t = some j ∧ j.began = b ∧ j.job = job
  | some ended => ∃ r ∈ s.jobs, r.began = b ∧ r.job = job ∧ r.ended = ended

lemma Begun.spans (h : Begun s b job) : ∃ o, Spans s b job o := by
  rcases h with h | ⟨r, hr, hb, hjob⟩
  · exact ⟨none, h⟩
  · exact ⟨some r.ended, r, hr, hb, hjob, rfl⟩

lemma Spans.cases {o : Option ℕ} (h : Spans s' b job o) (hc : JobChange M s e s') :
    Spans s b job o ∨ (Spans s b job none ∧ o = some s.time) ∨
      b = s.time ∧ o = none ∧ ∃ t fuel, e = .start t job fuel := by
  cases o with
  | none =>
    obtain ⟨t, j, hj, rfl, rfl⟩ := h
    rcases hc.pending_cases hj with ⟨-, hbeg, fuel, hev, -⟩ | ⟨i, hi, hjob, hbeg⟩
    · exact .inr (.inr ⟨hbeg, rfl, t, fuel, hev⟩)
    · exact .inl ⟨t, i, hi, hbeg, hjob⟩
  | some =>
    obtain ⟨r, hr, rfl, rfl, rfl⟩ := h
    rcases hc.job_cases hr with hr | ⟨hpen, hend, -⟩
    · exact .inl ⟨r, hr, rfl, rfl, rfl⟩
    · exact .inr (.inl ⟨⟨r.thread, _, hpen, rfl, rfl⟩, congrArg some hend⟩)

def Serial (b : ℕ) (o : Option ℕ) (b' : ℕ) (o' : Option ℕ) : Prop :=
  (∃ x, o = some x ∧ x < b') ∨ ∃ x, o' = some x ∧ x < b

lemma serial_step [DecidableEq Tid] {A B : Job → Prop} (hs : JobStamped s) (hstep : Step M s e s')
    (hAB : ∀ job, A job → ¬ B job)
    (hA : ∀ {t job fuel u j}, e = .start t job fuel → A job → s.pending u = some j → ¬ B j.job)
    (hB : ∀ {t job fuel u j}, e = .start t job fuel → B job → s.pending u = some j → ¬ A j.job)
    (h : ∀ {b job o b' job' o'}, A job → B job' → Spans s b job o → Spans s b' job' o' →
      Serial b o b' o')
    {b' : ℕ} {job' : Job} {o o' : Option ℕ} (ha : A job) (hb : B job') (hspan : Spans s' b job o)
    (hspan' : Spans s' b' job' o') : Serial b o b' o' := by
  have hc := hstep.jobChange
  -- What has ended did so before this step.
  have hend : ∀ {b job x}, Spans s b job (some x) → x < s.time := by
    rintro b job x ⟨r, hr, -, -, rfl⟩
    exact (hs.job_lt hr).2
  rcases hspan.cases hc with hold | ⟨hold, rfl⟩ | ⟨rfl, rfl, t, fuel, hev⟩
  · rcases hspan'.cases hc with hold' | ⟨hold', rfl⟩ | ⟨rfl, rfl, t', fuel', hev'⟩
    · exact h ha hb hold hold'
    · rcases h ha hb hold hold' with hlt | ⟨x, hx, -⟩
      · exact .inl hlt
      · cases hx
    · cases o with
      | none =>
        obtain ⟨u, j, hj, -, rfl⟩ := hold
        exact absurd ha (hB hev' hb hj)
      | some x => exact .inl ⟨x, rfl, hend hold⟩
  · rcases hspan'.cases hc with hold' | ⟨hold', rfl⟩ | ⟨rfl, rfl, t', fuel', hev'⟩
    · rcases h ha hb hold hold' with ⟨x, hx, -⟩ | hlt
      · cases hx
      · exact .inr hlt
    · rcases h ha hb hold hold' with ⟨x, hx, -⟩ | ⟨x, hx, -⟩ <;> cases hx
    · obtain ⟨u, j, hj, -, rfl⟩ := hold
      exact absurd ha (hB hev' hb hj)
  · rcases hspan'.cases hc with hold' | ⟨hold', rfl⟩ | ⟨rfl, rfl, t', fuel', hev'⟩
    · cases o' with
      | none =>
        obtain ⟨u, j, hj, -, rfl⟩ := hold'
        exact absurd hb (hA hev ha hj)
      | some x => exact .inr ⟨x, rfl, hend hold'⟩
    · obtain ⟨u, j, hj, -, rfl⟩ := hold'
      exact absurd hb (hA hev ha hj)
    · rw [hev] at hev'
      cases hev'
      exact absurd hb (hAB _ ha)

lemma JobChange.under_step {σ : Type} {ρ : Job → ℕ → Rely σ Call Ret}
    {P : (job : Job) → ℕ → Option (Out job) → σ → Prop} {x y : σ} (hc : JobChange M s e s')
    (hscript : ∀ job fuel, e = .start t job fuel → M.runsOn t job →
      (M.script fuel job).Under (ρ job s.time) (P job s.time) y) (hrel : ∀ job b, (ρ job b).rel x y)
    (hown : ∀ {job b c k r began}, s.pending t = some ⟨job, b, .call c k⟩ →
      s.active t = some ⟨c, began, .pure (some r)⟩ →
        s'.calls = ⟨t, b, c, r, began, s.time⟩ :: s.calls → (ρ job b).does c x r y)
    (h : ∀ {j}, s.pending t = some j → j.rest.Under (ρ j.job j.began) (P j.job j.began) x)
    (hj : s'.pending t = some j) : j.rest.Under (ρ j.job j.began) (P j.job j.began) y := by
  cases hc.at t with
  | same hpen => exact (h (hpen.symm.trans hj)).later (hrel _ _)
  | start job fuel hev hruns _ haft =>
    cases haft.symm.trans hj
    exact hscript job fuel hev hruns
  | leave _ _ _ _ _ _ hcall hbef haft _ hcalls =>
    cases haft.symm.trans hj
    exact (h hbef).own (hown hbef hcall hcalls)
  | finish _ _ _ _ haft => cases haft.symm.trans hj

lemma runsOn_of_run [DecidableEq Tid] {σ : S} (hrun : run M (Sys.init σ) es = some s)
    (hj : s.pending t = some j) : M.runsOn t j.job := by
  refine run_induction (I := fun s => ∀ {t j}, s.pending t = some j → M.runsOn t j.job) ?_ ?_
    (meets_true _ es) hrun hj
  · intro s e s' h _ hstep t j hj
    rcases hstep.jobChange.pending_cases hj with ⟨-, -, _, -, hruns⟩ | ⟨i, hi, hjob, -⟩
    · exact hruns
    · exact hjob ▸ h hi
  · rintro t j ⟨⟩

section Threads

variable {σ : Type} {ρ : Rely σ Op Res} {ρ' : Rely σ Call Ret} {I : σ → Prop}

/-- What a thread has still to do, under interference: the rest of its call, and then of its job. -/
def Thread.Under (ρ : Rely σ Op Res) (ρ' : Rely σ Call Ret) (I : σ → Prop) :
    Thread Res Ret Out → σ → Prop
  | .idle, x => I x
  | .between j, x => j.rest.Under ρ' (fun _ => I) x
  | .inside a _ _ k, x =>
    a.rest.Under ρ (fun r y => ∀ ret, r = some ret → (k ret).Under ρ' (fun _ => I) y) x

variable (hrel : ∀ {x y}, ρ.rel x y → ρ'.rel x y ∧ (I x → I y))
include hrel

lemma Thread.Under.later {th : Thread Res Ret Out} {x y : σ} (h : th.Under ρ ρ' I x)
    (hxy : ρ.rel x y) : th.Under ρ ρ' I y := by
  cases th with
  | idle => exact (hrel hxy).2 h
  | between => exact Prog.Under.later h (hrel hxy).1
  | inside => exact Prog.Under.later h hxy

/-- One step of the system, as one thread sees it. -/
lemma Step.under [DecidableEq Tid] {f : S → σ} (hstep : Step M s e s')
    (hstart : ∀ job fuel x, M.runsOn t job → I x → (M.script fuel job).Under ρ' (fun _ => I) x)
    (hbody : ∀ {job : Job} {c} {k : Ret c → Prog Call Ret (Option (Out job))} {x} b fuel,
      (Prog.call c k).Under ρ' (fun _ => I) x → (M.body b fuel c).Under ρ
        (fun r y => ∀ ret, r = some ret → (k ret).Under ρ' (fun _ => I) y) x)
    (hown : ∀ {env op r σ'}, M.exec s.time env t op s.shared = some (r, σ') →
      ρ.does op (f s.shared) r (f σ'))
    (hother : ∀ {u env c b op k r σ'}, u ≠ t → s.active u = some ⟨c, b, .call op k⟩ →
      M.exec s.time env u op s.shared = some (r, σ') → ρ.rel (f s.shared) (f σ'))
    (h : (s.threads t).Under ρ ρ' I (f s.shared)) :
    (s'.threads t).Under ρ ρ' I (f s'.shared) := by
  -- The threads that do not take the step keep what they have to do.
  have hkeep : ∀ {u th}, t ≠ u → (s.set u th).threads t = s.threads t := by
    intro u th hu
    simp [Sys.set, hu]
  have hset : ∀ {th}, (s.set t th).threads t = th := by
    intro th
    simp [Sys.set]
  cases hstep with
  | @start u job fuel hidle hruns =>
    by_cases hu : t = u
    · subst hu
      rw [hidle] at h
      rw [hset]
      exact hstart job fuel _ hruns h
    · rwa [hkeep hu]
  | @enter u fuel _ _ c _ hthread =>
    by_cases hu : t = u
    · subst hu
      rw [hthread] at h
      rw [hset]
      exact hbody s.time fuel h
    · rwa [hkeep hu]
  | @act u _ _ _ _ _ _ _ _ r _ hthread hexec =>
    by_cases hu : t = u
    · subst hu
      rw [hthread] at h
      show (Sys.threads (s.set _ _) _).Under _ _ _ _
      rw [hset]
      exact Prog.Under.own h (hown hexec)
    · show (Sys.threads (s.set _ _) _).Under _ _ _ _
      rw [hkeep hu]
      have hactive : s.active u = some ⟨_, _, .call _ _⟩ := congrArg Thread.active hthread
      exact h.later hrel (hother (Ne.symm hu) hactive hexec)
  | @leave u _ _ _ r _ _ hthread =>
    by_cases hu : t = u
    · subst hu
      rw [hthread] at h
      show (Sys.threads (s.set _ _) _).Under _ _ _ _
      rw [hset]
      exact h _ (ρ.refl _) r rfl
    · show (Sys.threads (s.set _ _) _).Under _ _ _ _
      rwa [hkeep hu]
  | @finish u _ _ _ hthread =>
    by_cases hu : t = u
    · subst hu
      rw [hthread] at h
      show (Sys.threads (s.set _ _) _).Under _ _ _ _
      rw [hset]
      exact Prog.Under.done h
    · show (Sys.threads (s.set _ _) _).Under _ _ _ _
      rwa [hkeep hu]

end Threads

def history (t : Tid) (b : ℕ) (ok : Call → List (CallRecord Tid Ret) → Prop) :
    Rely (List (CallRecord Tid Ret)) Call Ret where
  rel cs cs' := ∀ r ∈ cs, r ∈ cs'
  refl _ _ hr := hr
  trans h h' r hr := h' r (h r hr)
  does c cs r cs' := (∀ r ∈ cs, r ∈ cs') ∧ ∃ began ended, ⟨t, b, c, r, began, ended⟩ ∈ cs' ∧
    ∀ r' ∈ cs, r'.thread = t → r'.ended < began
  ok := ok

structure Histories (ok : Job → Tid → ℕ → Call → List (CallRecord Tid Ret) → Prop)
    (post : (job : Job) → Tid → ℕ → Option (Out job) → List (CallRecord Tid Ret) → Prop)
    (s : Sys Tid S Res Ret Out) : Prop where
  running : ∀ {t j}, s.pending t = some j →
    j.rest.Under (history t j.began (ok j.job t j.began)) (post j.job t j.began) s.calls
  made : ∀ {r}, r ∈ s.calls → ∃ job, Begun s r.job job ∧ ok job r.thread r.job r.call s.calls
  finished : ∀ {j}, j ∈ s.jobs → post j.job j.thread j.began (some j.out) s.calls

section Histories

variable {ok : Job → Tid → ℕ → Call → List (CallRecord Tid Ret) → Prop}
  {post : (job : Job) → Tid → ℕ → Option (Out job) → List (CallRecord Tid Ret) → Prop}
  (hscript : ∀ t b fuel job cs,
      (M.script fuel job).Under (history t b (ok job t b)) (post job t b) cs)
  (hok : ∀ {job t b c cs cs'}, (∀ r ∈ cs, r ∈ cs') → ok job t b c cs → ok job t b c cs')
  (hpost : ∀ {job t b out cs cs'}, (∀ r ∈ cs, r ∈ cs') → post job t b out cs → post job t b out cs')
include hscript hok hpost

lemma Histories.step [DecidableEq Tid] (h : Histories ok post s) (hs : Stamped s)
    (hstep : Step M s e s') :
    Histories ok post s' where
  running := by
    intro t j hj
    refine hstep.jobChange.under_step (ρ := fun job b => history t b (ok job t b))
      (P := fun job b => post job t b) (x := s.calls) (y := s'.calls)
      (fun job fuel _ _ => hscript t _ fuel job _) (fun _ _ r hr => hstep.change.calls_mono hr) ?_
      h.running hj
    intro job b c k r began _ hact hcalls
    refine ⟨fun r hr => hstep.change.calls_mono hr, began, s.time, hcalls ▸ mem_cons_self, ?_⟩
    exact fun r' hr' ht => hs.serial hr' hact ht
  made := by
    have hmono : ∀ r ∈ s.calls, r ∈ s'.calls := fun r hr => hstep.change.calls_mono hr
    have hc := hstep.jobChange
    have hold : ∀ {r}, r ∈ s.calls → ∃ job, Begun s' r.job job ∧
      ok job r.thread r.job r.call s'.calls := by
      intro r hr
      obtain ⟨job, hbegan, hr⟩ := h.made hr
      exact ⟨job, hbegan.step hc, hok hmono hr⟩
    intro r hr
    obtain hcalls | ⟨-, u, job, b, c, k, ret, began, -, hbef, haft, hcalls⟩ := hc.calls_cases
    · exact hold (hcalls ▸ hr)
    · rcases mem_cons.1 (hcalls ▸ hr) with rfl | hr
      · exact ⟨job, .inl ⟨u, _, haft, rfl, rfl⟩, hok hmono (h.running hbef).demand⟩
      · exact hold hr
  finished := by
    have hmono : ∀ r ∈ s.calls, r ∈ s'.calls := fun r hr => hstep.change.calls_mono hr
    intro j hj
    rcases hstep.jobChange.job_cases hj with hj | ⟨hpen, -, -⟩
    · exact hpost hmono (h.finished hj)
    · exact hpost hmono (h.running hpen).done

lemma histories_of_run [DecidableEq Tid] {σ : S}
    (hrun : run M (Sys.init σ) es = some s) : Histories ok post s := by
  have h : Stamped s ∧ Histories ok post s := by
    refine run_induction (I := fun s => Stamped s ∧ Histories ok post s) ?_
      ⟨stamped_init σ, ?_⟩ (meets_true _ es) hrun
    · rintro s e s' ⟨hs, h⟩ - hstep
      exact ⟨hs.step hstep.change hstep.time, h.step hscript hok hpost hs hstep⟩
    · constructor <;> intros <;> simp_all [Sys.init, Sys.pending, Thread.pending]
  exact h.2

end Histories

end Threads
