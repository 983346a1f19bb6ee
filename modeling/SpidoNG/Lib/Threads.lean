import SpidoNG.Lib.Interference

/-!
# Threads

Threads run jobs.
-/

namespace Threads

variable {Tid S Env Op Call Job : Type} {Res : Op → Type} {Ret : Call → Type} {Out : Job → Type}

/-- Jobs are programs of calls, and calls are programs of atomic operations. -/
structure Machine (Tid S Env : Type) {Op Call Job : Type} (Res : Op → Type) (Ret : Call → Type)
    (Out : Job → Type) where
  exec : ℕ → Env → Tid → (op : Op) → S → Option (Res op × S)
  body : ℕ → ℕ → (c : Call) → Prog Op Res (Option (Ret c))
  script : ℕ → (j : Job) → Prog Call Ret (Option (Out j))
  runsOn : Tid → Job → Bool

structure Active (Res : Op → Type) (Ret : Call → Type) where
  call : Call
  began : ℕ
  rest : Prog Op Res (Option (Ret call))

structure Running (Ret : Call → Type) (Out : Job → Type) where
  job : Job
  began : ℕ
  rest : Prog Call Ret (Option (Out job))

inductive Thread (Res : Op → Type) (Ret : Call → Type) (Out : Job → Type)
  | idle
  | between (j : Running Ret Out)
  | inside (a : Active Res Ret) (job : Job) (began : ℕ)
      (k : Ret a.call → Prog Call Ret (Option (Out job)))

structure CallRecord (Tid : Type) (Ret : Call → Type) where
  thread : Tid
  job : ℕ
  call : Call
  ret : Ret call
  began : ℕ
  ended : ℕ

structure JobRecord (Tid : Type) (Out : Job → Type) where
  thread : Tid
  job : Job
  out : Out job
  began : ℕ
  ended : ℕ

/-- The shared state, the threads, and what has returned. -/
structure Sys (Tid S : Type) (Res : Op → Type) (Ret : Call → Type) (Out : Job → Type) where
  shared : S
  threads : Tid → Thread Res Ret Out
  time : ℕ
  calls : List (CallRecord Tid Ret)
  jobs : List (JobRecord Tid Out)

inductive Event (Tid Env Job : Type)
  | start (t : Tid) (job : Job) (fuel : ℕ)
  | enter (t : Tid) (fuel : ℕ)
  | step (t : Tid) (env : Env)
  | leave (t : Tid)
  | finish (t : Tid)

def Event.thread : Event Tid Env Job → Tid
  | .start t _ _ => t
  | .enter t _ => t
  | .step t _ => t
  | .leave t => t
  | .finish t => t

def Thread.active : Thread Res Ret Out → Option (Active Res Ret)
  | .inside a _ _ _ => some a
  | _ => none

def Thread.next : Thread Res Ret Out → Option Call
  | .between ⟨_, _, .call c _⟩ => some c
  | _ => none

variable {c : Call}

namespace Sys

def active (s : Sys Tid S Res Ret Out) (t : Tid) : Option (Active Res Ret) := (s.threads t).active

def next (s : Sys Tid S Res Ret Out) (t : Tid) : Option Call := (s.threads t).next

def init (σ : S) : Sys Tid S Res Ret Out := ⟨σ, fun _ => .idle, 0, [], []⟩

lemma active_eq_none_of_next {s : Sys Tid S Res Ret Out} {t : Tid}
    (h : s.next t = some c) : s.active t = none := by
  unfold next at h
  unfold active
  cases hthread : s.threads t with
  | idle | between => rfl
  | inside =>
    rw [hthread] at h
    cases h

variable [DecidableEq Tid]

def set (s : Sys Tid S Res Ret Out) (t : Tid) (th : Thread Res Ret Out) : Sys Tid S Res Ret Out :=
  { s with threads := Function.update s.threads t th, time := s.time + 1 }

end Sys

section Steps

variable [DecidableEq Tid]

/-- One thread goes on by one step. -/
def step (M : Machine Tid S Env Res Ret Out) (s : Sys Tid S Res Ret Out) :
    Event Tid Env Job → Option (Sys Tid S Res Ret Out)
  | .start t job fuel =>
    match s.threads t with
    | .idle =>
      if M.runsOn t job then some (s.set t (.between ⟨job, s.time, M.script fuel job⟩)) else none
    | _ => none
  | .enter t fuel =>
    match s.threads t with
    | .between ⟨job, began, .call c k⟩ =>
      some (s.set t (.inside ⟨c, s.time, M.body s.time fuel c⟩ job began k))
    | _ => none
  | .step t env =>
    match s.threads t with
    | .inside ⟨c, b, .call op k'⟩ job began k =>
      match M.exec s.time env t op s.shared with
      | none => none
      | some (r, σ) => some { s.set t (.inside ⟨c, b, k' r⟩ job began k) with shared := σ }
    | _ => none
  | .leave t =>
    match s.threads t with
    | .inside ⟨c, b, .pure (some r)⟩ job began k =>
      some { s.set t (.between ⟨job, began, k r⟩) with
        calls := ⟨t, began, c, r, b, s.time⟩ :: s.calls }
    | _ => none
  | .finish t =>
    match s.threads t with
    | .between ⟨job, began, .pure (some out)⟩ =>
      some { s.set t .idle with jobs := ⟨t, job, out, began, s.time⟩ :: s.jobs }
    | _ => none

def run (M : Machine Tid S Env Res Ret Out) (s : Sys Tid S Res Ret Out) :
    List (Event Tid Env Job) → Option (Sys Tid S Res Ret Out)
  | [] => some s
  | e :: es => (step M s e).bind fun s' => run M s' es

lemma run_append (M : Machine Tid S Env Res Ret Out) (s : Sys Tid S Res Ret Out)
    (es es' : List (Event Tid Env Job)) : run M s (es ++ es') = (run M s es).bind
      (run M · es') := by
  induction es generalizing s with
  | nil => rfl
  | cons e es ih =>
    cases hstep : step M s e with
    | none => simp [run, hstep]
    | some => simp [run, hstep, ih]

/-- Every step of the run is taken as the condition asks. -/
def Meets (M : Machine Tid S Env Res Ret Out)
    (ok : Sys Tid S Res Ret Out → Event Tid Env Job → Prop) (s : Sys Tid S Res Ret Out) :
    List (Event Tid Env Job) → Prop
  | [] => True
  | e :: es => ok s e ∧ ∀ s', step M s e = some s' → Meets M ok s' es

inductive Step (M : Machine Tid S Env Res Ret Out) (s : Sys Tid S Res Ret Out) :
    Event Tid Env Job → Sys Tid S Res Ret Out → Prop
  | start {t : Tid} {job : Job} {fuel : ℕ} (hidle : s.threads t = .idle)
      (hruns : M.runsOn t job = true) :
      Step M s (.start t job fuel) (s.set t (.between ⟨job, s.time, M.script fuel job⟩))
  | enter {t : Tid} {fuel began : ℕ} {job : Job} {c : Call}
      {k : Ret c → Prog Call Ret (Option (Out job))}
      (hthread : s.threads t = .between ⟨job, began, .call c k⟩) :
      Step M s (.enter t fuel) (s.set t (.inside ⟨c, s.time, M.body s.time fuel c⟩ job began k))
  | act {t : Tid} {env : Env} {c : Call} {b began : ℕ} {op : Op}
      {k' : Res op → Prog Op Res (Option (Ret c))} {job : Job}
      {k : Ret c → Prog Call Ret (Option (Out job))} {r : Res op} {σ : S}
      (hthread : s.threads t = .inside ⟨c, b, .call op k'⟩ job began k)
      (hexec : M.exec s.time env t op s.shared = some (r, σ)) :
      Step M s (.step t env) { s.set t (.inside ⟨c, b, k' r⟩ job began k) with shared := σ }
  | leave {t : Tid} {c : Call} {b began : ℕ} {r : Ret c} {job : Job}
      {k : Ret c → Prog Call Ret (Option (Out job))}
      (hthread : s.threads t = .inside ⟨c, b, .pure (some r)⟩ job began k) :
      Step M s (.leave t)
        { s.set t (.between ⟨job, began, k r⟩) with calls := ⟨t, began, c, r, b, s.time⟩
          :: s.calls }
  | finish {t : Tid} {job : Job} {out : Out job} {began : ℕ}
      (hthread : s.threads t = .between ⟨job, began, .pure (some out)⟩) :
      Step M s (.finish t)
        { s.set t .idle with jobs := ⟨t, job, out, began, s.time⟩ :: s.jobs }

variable {M : Machine Tid S Env Res Ret Out} {s s' : Sys Tid S Res Ret Out} {e : Event Tid Env Job}

lemma Step.of_step (h : step M s e = some s') : Step M s e s' := by
  cases e with
  | start =>
    simp only [step] at h
    split at h
    · rename_i hidle
      split_ifs at h with hruns
      cases h
      exact .start hidle hruns
    · cases h
  | enter =>
    simp only [step] at h
    split at h
    · rename_i job began c k hthread
      cases h
      exact .enter hthread
    · cases h
  | step =>
    simp only [step] at h
    split at h
    · rename_i c b op k' job began k hthread
      split at h
      · cases h
      · rename_i r σ hexec
        cases h
        exact .act hthread hexec
    · cases h
  | leave =>
    simp only [step] at h
    split at h
    · rename_i c b r job began k hthread
      cases h
      exact .leave hthread
    · cases h
  | finish =>
    simp only [step] at h
    split at h
    · rename_i job began out hthread
      cases h
      exact .finish hthread
    · cases h

variable {es : List (Event Tid Env Job)} {ok ok' : Sys Tid S Res Ret Out → Event Tid Env Job → Prop}
  {I : Sys Tid S Res Ret Out → Prop}

lemma run_induction (hstep : ∀ {s e s'}, I s → ok s e → Step M s e s' → I s')
    (h : I s) (hok : Meets M ok s es) (hrun : run M s es = some s') : I s' := by
  induction es generalizing s with
  | nil =>
    cases hrun
    exact h
  | cons _ _ ih =>
    obtain ⟨s1, hs1, hrun⟩ := Option.bind_eq_some_iff.1 hrun
    exact ih (hstep h hok.1 (.of_step hs1)) (hok.2 s1 hs1) hrun

lemma run_reached {s₀ : Sys Tid S Res Ret Out}
    (hstep : ∀ {es s e s'}, run M s₀ es = some s → I s → ok s e → Step M s e s' → I s')
    (h : I s₀) (hok : Meets M ok s₀ es) (hrun : run M s₀ es = some s') : I s' := by
  -- The events so far, to have the run that leads to each state.
  have hfrom : ∀ pre {s}, run M s₀ pre = some s → I s → Meets M ok s es → run M s es = some s' →
      I s' := by
    clear hok hrun
    induction es with
    | nil =>
      intro pre s hpre hs _ hrun
      cases hrun
      exact hs
    | cons e es ih =>
      intro pre s hpre hs hok hrun
      obtain ⟨s1, hs1, hrun⟩ := Option.bind_eq_some_iff.1 hrun
      refine ih (pre ++ [e]) ?_ (hstep hpre hs hok.1 (.of_step hs1)) (hok.2 s1 hs1) hrun
      rw [run_append, hpre]
      simp [run, hs1]
  exact hfrom [] rfl h hok hrun

lemma meets_true (s : Sys Tid S Res Ret Out) (es : List (Event Tid Env Job)) :
    Meets M (fun _ _ => True) s es := by
  induction es generalizing s with
  | nil => trivial
  | cons _ _ ih => exact ⟨trivial, fun s' _ => ih s'⟩

lemma Meets.along (hmeets : Meets M ok s es)
    (hstep : ∀ {s e s'}, I s → ok s e → Step M s e s' → I s')
    (hok : ∀ {s e}, I s → ok s e → ok' s e) (h : I s) : Meets M ok' s es := by
  induction es generalizing s with
  | nil => trivial
  | cons _ _ ih =>
    refine ⟨hok h hmeets.1, fun s' hs' => ?_⟩
    exact ih (hmeets.2 s' hs') (hstep h hmeets.1 (.of_step hs'))

lemma Meets.mono (h : Meets M ok s es) (hmono : ∀ s e, ok s e → ok' s e) : Meets M ok' s es :=
  h.along (I := fun _ => True) (fun _ _ _ => trivial) (fun _ => hmono _ _) trivial

def meetsAll (M : Machine Tid S Env Res Ret Out)
    (ok : Sys Tid S Res Ret Out → Event Tid Env Job → Bool)
    (s : Sys Tid S Res Ret Out) : List (Event Tid Env Job) → Bool
  | [] => true
  | e :: es => ok s e && (step M s e).all fun s' => meetsAll M ok s' es

lemma meets_of_meetsAll {ok : Sys Tid S Res Ret Out → Event Tid Env Job → Bool}
    (h : meetsAll M ok s es) : Meets M (fun s e => ok s e) s es := by
  induction es generalizing s with
  | nil => trivial
  | cons _ _ ih =>
    obtain ⟨hok, hrest⟩ := Bool.and_eq_true_iff.1 h
    refine ⟨hok, fun s' hs' => ih ?_⟩
    rwa [hs'] at hrest

@[simp] lemma active_set_self (s : Sys Tid S Res Ret Out) (t : Tid) (th : Thread Res Ret Out) :
    (s.set t th).active t = th.active := by
  simp [Sys.active, Sys.set]

lemma active_set_of_ne {t u : Tid} (h : u ≠ t) (s : Sys Tid S Res Ret Out)
    (th : Thread Res Ret Out) : (s.set t th).active u = s.active u := by
  simp [Sys.active, Sys.set, h]

lemma active_set {t : Tid} {th : Thread Res Ret Out} (h : th.active = s.active t) (u : Tid) :
    (s.set t th).active u = s.active u := by
  by_cases hu : u = t
  · rw [hu, active_set_self, h]
  · exact active_set_of_ne hu _ _

inductive Change (M : Machine Tid S Env Res Ret Out) (s : Sys Tid S Res Ret Out)
    (e : Event Tid Env Job) (s' : Sys Tid S Res Ret Out) : Prop
  | quiet (hshared : s'.shared = s.shared) (hactive : ∀ t, s'.active t = s.active t)
      (hcalls : s'.calls = s.calls)
  | enter (t : Tid) (c : Call) (fuel : ℕ) (hevent : e = .enter t fuel) (hnext : s.next t = some c)
      (hshared : s'.shared = s.shared) (hbefore : s.active t = none)
      (hafter : s'.active t = some ⟨c, s.time, M.body s.time fuel c⟩)
      (hothers : ∀ u, u ≠ t → s'.active u = s.active u) (hcalls : s'.calls = s.calls)
  | act (t : Tid) (env : Env) (c : Call) (b : ℕ) (op : Op) (k : Res op →
    Prog Op Res (Option (Ret c)))
      (r : Res op) (hevent : e = .step t env) (hbefore : s.active t = some ⟨c, b, .call op k⟩)
      (hexec : M.exec s.time env t op s.shared = some (r, s'.shared))
      (hafter : s'.active t = some ⟨c, b, k r⟩) (hothers : ∀ u, u ≠ t → s'.active u = s.active u)
      (hcalls : s'.calls = s.calls)
  | leave (t : Tid) (job : ℕ) (c : Call) (b : ℕ) (r : Ret c) (hshared : s'.shared = s.shared)
      (hbefore : s.active t = some ⟨c, b, .pure (some r)⟩) (hafter : s'.active t = none)
      (hothers : ∀ u, u ≠ t → s'.active u = s.active u)
      (hcalls : s'.calls = ⟨t, job, c, r, b, s.time⟩ :: s.calls)

lemma Step.change (h : Step M s e s') : Change M s e s' := by
  cases h with
  | start hthread _ =>
    refine .quiet rfl (active_set ?_) rfl
    rw [Sys.active, hthread]
    rfl
  | @enter t fuel _ _ c _ hthread =>
    refine .enter t c fuel rfl ?_ rfl ?_ (active_set_self _ _ _)
      (fun u hu => active_set_of_ne hu _ _) rfl
    · rw [Sys.next, hthread]
      rfl
    · rw [Sys.active, hthread]
      rfl
  | @act t env c b _ op k' _ _ r _ hthread hexec =>
    refine .act t env c b op k' r rfl ?_ hexec (active_set_self _ _ _)
      (fun u hu => active_set_of_ne hu _ _) rfl
    rw [Sys.active, hthread]
    rfl
  | @leave t c b began r _ _ hthread =>
    refine .leave t began c b r rfl ?_ (active_set_self _ _ _) (fun u hu =>
      active_set_of_ne hu _ _) rfl
    rw [Sys.active, hthread]
    rfl
  | finish hthread =>
    refine .quiet rfl (active_set ?_) rfl
    rw [Sys.active, hthread]
    rfl

lemma Step.event_of_left (h : Step M s e s') {t : Tid} {a : Active Res Ret}
    (ha : s.active t = some a) (hnone : s'.active t = none) : e = .leave t := by
  -- The threads that do not take the step stay in their calls.
  have hoth : ∀ {u th}, (s.set u th).active t = none → t = u := by
    intro u th hset
    by_contra hu
    rw [active_set_of_ne hu, ha] at hset
    cases hset
  cases h with
  | start hidle =>
    cases hoth hnone
    rw [Sys.active, hidle] at ha
    cases ha
  | enter =>
    cases hoth hnone
    rw [active_set_self] at hnone
    cases hnone
  | @act u _ c b began _ k' job k r _ _ _ =>
    have hset : (s.set u (.inside ⟨c, b, k' r⟩ job began k)).active t = none := hnone
    cases hoth hset
    rw [active_set_self] at hset
    cases hset
  | @leave u _ _ began r job k _ =>
    have hset : (s.set u (.between ⟨job, began, k r⟩)).active t = none := hnone
    rw [hoth hset]
  | @finish u _ _ _ hthread =>
    have hset : (s.set u .idle).active t = none := hnone
    cases hoth hset
    rw [Sys.active, hthread] at ha
    cases ha

lemma Step.time (h : Step M s e s') : s'.time = s.time + 1 := by
  cases h <;> rfl

end Steps

variable {M : Machine Tid S Env Res Ret Out} {s s' : Sys Tid S Res Ret Out} {e : Event Tid Env Job}

structure Stamped (s : Sys Tid S Res Ret Out) : Prop where
  active_lt : ∀ {t a}, s.active t = some a → a.began < s.time
  record_lt : ∀ {r}, r ∈ s.calls → r.began < r.ended ∧ r.ended < s.time
  active_inj : ∀ {t u a b}, s.active t = some a → s.active u = some b → a.began = b.began → t = u
  active_ne : ∀ {t a r}, s.active t = some a → r ∈ s.calls → r.began ≠ a.began
  record_inj : ∀ {r r'}, r ∈ s.calls → r' ∈ s.calls → r.began = r'.began → r = r'
  serial : ∀ {r t a}, r ∈ s.calls → s.active t = some a → r.thread = t → r.ended < a.began

lemma stamped_init (σ : S) : Stamped (Sys.init σ : Sys Tid S Res Ret Out) := by
  constructor <;> intros <;> simp_all [Sys.init, Sys.active, Thread.active]

inductive ThreadChange (M : Machine Tid S Env Res Ret Out) (s : Sys Tid S Res Ret Out)
    (e : Event Tid Env Job) (s' : Sys Tid S Res Ret Out) (t : Tid) : Prop
  | same (hsame : s'.active t = s.active t) (hshared : s'.shared = s.shared)
  | other (hsame : s'.active t = s.active t) (u : Tid) (env : Env) (c : Call) (b : ℕ) (op : Op)
      (k : Res op → Prog Op Res (Option (Ret c))) (r : Res op) (hne : u ≠ t)
      (hbefore : s.active u = some ⟨c, b, .call op k⟩)
      (hexec : M.exec s.time env u op s.shared = some (r, s'.shared))
  | enter (c : Call) (fuel : ℕ) (hevent : e = .enter t fuel) (hnext : s.next t = some c)
      (hshared : s'.shared = s.shared) (hbefore : s.active t = none)
      (hafter : s'.active t = some ⟨c, s.time, M.body s.time fuel c⟩)
  | act (env : Env) (c : Call) (b : ℕ) (op : Op) (k : Res op → Prog Op Res (Option (Ret c)))
      (r : Res op) (hevent : e = .step t env) (hbefore : s.active t = some ⟨c, b, .call op k⟩)
      (hexec : M.exec s.time env t op s.shared = some (r, s'.shared))
      (hafter : s'.active t = some ⟨c, b, k r⟩)
  | leave (job : ℕ) (c : Call) (b : ℕ) (r : Ret c) (hshared : s'.shared = s.shared)
      (hbefore : s.active t = some ⟨c, b, .pure (some r)⟩) (hafter : s'.active t = none)
      (hcalls : s'.calls = ⟨t, job, c, r, b, s.time⟩ :: s.calls)

section

variable (h : Change M s e s')
include h

lemma Change.at (t : Tid) : ThreadChange M s e s' t := by
  cases h with
  | quiet hshared hact => exact .same (hact t) hshared
  | enter u c fuel hev hnext hshared hbef haft hoth =>
    by_cases ht : t = u
    · subst ht
      exact .enter c fuel hev hnext hshared hbef haft
    · exact .same (hoth t ht) hshared
  | act u env c b op k r hev hbef hexec haft hoth =>
    by_cases ht : t = u
    · subst ht
      exact .act env c b op k r hev hbef hexec haft
    · exact .other (hoth t ht) u env c b op k r (Ne.symm ht) hbef hexec
  | leave u job c b r hshared hbef haft hoth hcalls =>
    by_cases ht : t = u
    · subst ht
      exact .leave job c b r hshared hbef haft hcalls
    · exact .same (hoth t ht) hshared

variable {a : Active Res Ret} {t : Tid} {n : ℕ}

lemma Change.active_cases (ha : s'.active t = some a) :
    (s.active t = none ∧ ∃ fuel, e = .enter t fuel ∧
        a = ⟨a.call, s.time, M.body s.time fuel a.call⟩) ∨
      ∃ b, s.active t = some b ∧ b.call = a.call ∧ b.began = a.began := by
  cases h.at t with
  | same hsame | other hsame => exact .inr ⟨a, hsame.symm.trans ha, rfl, rfl⟩
  | enter c fuel hev _ _ hbef haft =>
    cases haft.symm.trans ha
    exact .inl ⟨hbef, fuel, hev, rfl⟩
  | act _ _ _ _ _ _ _ hbef _ haft =>
    cases haft.symm.trans ha
    exact .inr ⟨_, hbef, rfl, rfl⟩
  | leave _ _ _ _ _ _ haft => cases haft.symm.trans ha

lemma Change.calls_cases : s'.calls = s.calls ∨
    ∃ t job c b r, s.active t = some ⟨c, b, .pure (some r)⟩ ∧ s'.active t = none ∧
      s'.calls = ⟨t, job, c, r, b, s.time⟩ :: s.calls := by
  cases h with
  | quiet _ _ hcalls | enter _ _ _ _ _ _ _ _ _ hcalls | act _ _ _ _ _ _ _ _ _ _ _ _ hcalls =>
    exact .inl hcalls
  | leave t job c b r _ hbef haft _ hcalls =>
    exact .inr ⟨t, job, c, b, r, hbef, haft, hcalls⟩

variable {r : CallRecord Tid Ret}

lemma Change.record_cases (hr : r ∈ s'.calls) :
    r ∈ s.calls ∨ (∃ a, s.active r.thread = some a ∧ a.call = r.call ∧ a.began = r.began) ∧
      r.ended = s.time ∧ s'.active r.thread = none := by
  obtain hcalls | ⟨t, job, c, b, ret, hbef, haft, hcalls⟩ := h.calls_cases
  · exact .inl (hcalls ▸ hr)
  · rcases List.mem_cons.1 (hcalls ▸ hr) with rfl | hr
    · exact .inr ⟨⟨_, hbef, rfl, rfl⟩, rfl, haft⟩
    · exact .inl hr

lemma Change.left (ha : s.active t = some a)
    (hnone : s'.active t = none) : ∃ job c b r, a = ⟨c, b, .pure (some r)⟩ ∧ s'.shared = s.shared ∧
      s'.calls = ⟨t, job, c, r, b, s.time⟩ :: s.calls := by
  cases h.at t with
  | same hsame | other hsame => cases hnone.symm.trans (hsame.trans ha)
  | enter _ _ _ _ _ hbef => cases hbef.symm.trans ha
  | act _ _ _ _ _ _ _ _ _ haft => cases hnone.symm.trans haft
  | leave job c b r hshared hbef _ hcalls =>
    cases hbef.symm.trans ha
    exact ⟨job, c, b, r, rfl, hshared, hcalls⟩

lemma Change.calls_mono (hr : r ∈ s.calls) : r ∈ s'.calls := by
  obtain hcalls | ⟨_, _, _, _, _, _, _, hcalls⟩ := h.calls_cases
  · exact hcalls ▸ hr
  · rw [hcalls]
    exact List.mem_cons_of_mem _ hr

end

lemma Stamped.step (h : Stamped s) (hc : Change M s e s') (ht : s'.time = s.time + 1) :
    Stamped s' := by
  -- What is new began now; what is old began before.
  have hold : ∀ {t a}, s'.active t = some a → (a.began = s.time ∧ ∃ fuel, e = .enter t fuel) ∨
      ∃ b, s.active t = some b ∧ b.began = a.began := by
    intro t a ha
    rcases hc.active_cases ha with ⟨-, fuel, hev, heq⟩ | ⟨b, hb, -, hbeg⟩
    · exact .inl ⟨by rw [heq], fuel, hev⟩
    · exact .inr ⟨b, hb, hbeg⟩
  refine ⟨?_, ?_, ?_, ?_, ?_, ?_⟩
  · intro t a ha
    rcases hold ha with ⟨heq, -⟩ | ⟨b, hb, hbeg⟩
    · omega
    · have := h.active_lt hb
      omega
  · intro r hr
    rcases hc.record_cases hr with hr | ⟨⟨a, ha, -, hbeg⟩, hend, -⟩
    · have := h.record_lt hr
      omega
    · have := h.active_lt ha
      omega
  · intro t u a b ha hb heq
    rcases hold ha with ⟨hta, fuel, hev⟩ | ⟨a', ha', hat⟩
    · rcases hold hb with ⟨-, fuel', hev'⟩ | ⟨b', hb', hbu⟩
      · -- Both calls have just begun, so it is one step of one thread.
        exact (Event.enter.inj (hev.symm.trans hev')).1
      · have := h.active_lt hb'
        omega
    · rcases hold hb with ⟨htb, -⟩ | ⟨b', hb', hbu⟩
      · have := h.active_lt ha'
        omega
      · exact h.active_inj ha' hb' (by omega)
  · intro t a r ha hr heq
    rcases hc.record_cases hr with hr | ⟨⟨b, hb, -, hbeg⟩, hend, hgone⟩
    · rcases hold ha with ⟨hta, -⟩ | ⟨a', ha', hat⟩
      · have := h.record_lt hr
        omega
      · exact h.active_ne ha' hr (by omega)
    · rcases hold ha with ⟨hta, -⟩ | ⟨a', ha', hat⟩
      · have := h.active_lt hb
        omega
      · have htr := h.active_inj ha' hb (by omega)
        rw [htr, hgone] at ha
        cases ha
  · intro r r' hr hr' heq
    obtain hcalls | ⟨t, job, c, b, ret, hbef, -, hcalls⟩ := hc.calls_cases
    · exact h.record_inj (hcalls ▸ hr) (hcalls ▸ hr') heq
    · rcases List.mem_cons.1 (hcalls ▸ hr) with rfl | hr
      · rcases List.mem_cons.1 (hcalls ▸ hr') with rfl | hr'
        · rfl
        · exact absurd heq.symm (h.active_ne hbef hr')
      · rcases List.mem_cons.1 (hcalls ▸ hr') with rfl | hr'
        · exact absurd heq (h.active_ne hbef hr)
        · exact h.record_inj hr hr' heq
  · intro r t a hr ha htr
    rcases hc.record_cases hr with hr | ⟨-, -, hgone⟩
    · rcases hold ha with ⟨hta, -⟩ | ⟨a', ha', hat⟩
      · have := h.record_lt hr
        omega
      · have := h.serial hr ha' htr
        omega
    · rw [← htr, hgone] at ha
      cases ha

lemma stamped_of_run [DecidableEq Tid] {σ : S} {es : List (Event Tid Env Job)}
    (hrun : run M (Sys.init σ) es = some s) : Stamped s :=
  run_induction (fun h _ hstep => h.step hstep.change hstep.time) (stamped_init σ)
    (meets_true _ es) hrun

def Began (s : Sys Tid S Res Ret Out) (n : ℕ) (c : Call) : Prop :=
  (∃ t a, s.active t = some a ∧ a.began = n ∧ a.call = c) ∨ ∃ r ∈ s.calls, r.began = n ∧ r.call = c

lemma Stamped.began_unique (h : Stamped s) {c' : Call} (hc : Began s n c)
    (hc' : Began s n c') : c = c' := by
  rcases hc with ⟨t, a, ha, hn, rfl⟩ | ⟨r, hr, hn, rfl⟩
  · rcases hc' with ⟨u, b, hb, hn', rfl⟩ | ⟨r', hr', hn', rfl⟩
    · cases h.active_inj ha hb (hn.trans hn'.symm)
      cases ha.symm.trans hb
      rfl
    · exact absurd (hn'.trans hn.symm) (h.active_ne ha hr')
  · rcases hc' with ⟨u, b, hb, hn', rfl⟩ | ⟨r', hr', hn', rfl⟩
    · exact absurd (hn.trans hn'.symm) (h.active_ne hb hr)
    · rw [h.record_inj hr hr' (hn.trans hn'.symm)]

lemma Stamped.began_lt (h : Stamped s) (hc : Began s n c) : n < s.time := by
  rcases hc with ⟨t, a, ha, rfl, -⟩ | ⟨r, hr, rfl, -⟩
  · exact h.active_lt ha
  · have := h.record_lt hr
    omega

lemma Began.step (hn : Began s n c) (hc : Change M s e s') : Began s' n c := by
  rcases hn with ⟨t, a, ha, hn, rfl⟩ | ⟨r, hr, hn, rfl⟩
  · cases hc.at t with
    | same hsame | other hsame => exact .inl ⟨t, a, hsame.trans ha, hn, rfl⟩
    | enter _ _ _ _ _ hbef => cases hbef.symm.trans ha
    | act _ _ _ _ _ _ _ hbef _ haft =>
      cases hbef.symm.trans ha
      exact .inl ⟨t, _, haft, hn, rfl⟩
    | leave _ _ _ _ _ hbef _ hcalls =>
      cases hbef.symm.trans ha
      exact .inr ⟨_, hcalls ▸ List.mem_cons_self, hn, rfl⟩
  · exact .inr ⟨r, hc.calls_mono hr, hn, rfl⟩

lemma Change.began_cases (hc : Change M s e s') (h : Began s' n c) :
    Began s n c ∨ ∃ t fuel, e = .enter t fuel ∧ s.next t = some c := by
  rcases h with ⟨t, a, ha, hn, rfl⟩ | ⟨r, hr, hn, rfl⟩
  · cases hc.at t with
    | same hsame | other hsame => exact .inl (.inl ⟨t, a, hsame.symm.trans ha, hn, rfl⟩)
    | enter c fuel hev hnext _ _ haft =>
      cases haft.symm.trans ha
      exact .inr ⟨t, fuel, hev, hnext⟩
    | act _ _ _ _ _ _ _ hbef _ haft =>
      cases haft.symm.trans ha
      exact .inl (.inl ⟨t, _, hbef, hn, rfl⟩)
    | leave _ _ _ _ _ _ haft => cases haft.symm.trans ha
  · rcases hc.record_cases hr with hr | ⟨⟨a, ha, hcall, hbeg⟩, -⟩
    · exact .inl (.inr ⟨r, hr, hn, rfl⟩)
    · exact .inl (.inl ⟨_, a, ha, hbeg.trans hn, hcall⟩)

lemma Change.active_forall {Q : Active Res Ret → Prop}
    (hbody : ∀ c b fuel, Q ⟨c, b, M.body b fuel c⟩)
    (hrest : ∀ {c b op k r}, Q ⟨c, b, .call op k⟩ → Q ⟨c, b, k r⟩) (hc : Change M s e s')
    (h : ∀ {t a}, s.active t = some a → Q a) (ha : s'.active t = some a) : Q a := by
  cases hc.at t with
  | same hsame | other hsame => exact h (hsame.symm.trans ha)
  | enter c fuel _ _ _ _ haft =>
    cases haft.symm.trans ha
    exact hbody c s.time fuel
  | act _ _ _ _ _ _ _ hbef _ haft =>
    cases haft.symm.trans ha
    exact hrest (h hbef)
  | leave _ _ _ _ _ _ haft => cases haft.symm.trans ha

lemma Change.apart {R : Call → Call → Prop} (hsymm : ∀ {c c'}, R c c' → R c' c)
    (hcalm : ∀ {t fuel c u a}, e = .enter t fuel → s.next t = some c → s.active u = some a →
      ¬ R c a.call)
    (h : ∀ {t u a b}, s.active t = some a → s.active u = some b → R a.call b.call → t = u)
    (hc : Change M s e s') {u : Tid} {b : Active Res Ret} (ha : s'.active t = some a)
    (hb : s'.active u = some b) (hR : R a.call b.call) : t = u := by
  -- A call that has just begun clashes with no other; those before do not clash.
  have hold : ∀ {v x}, s'.active v = some x →
      (∃ fuel, e = .enter v fuel ∧ s.next v = some x.call) ∨
        ∃ y, s.active v = some y ∧ y.call = x.call := by
    intro v x hx
    cases hc.at v with
    | same hsame | other hsame => exact .inr ⟨x, hsame.symm.trans hx, rfl⟩
    | enter c fuel hev hnext _ _ haft =>
      cases haft.symm.trans hx
      exact .inl ⟨fuel, hev, hnext⟩
    | act _ _ _ _ _ _ _ hbef _ haft =>
      cases haft.symm.trans hx
      exact .inr ⟨_, hbef, rfl⟩
    | leave _ _ _ _ _ _ haft => cases haft.symm.trans hx
  rcases hold ha with ⟨fuel, hev, hnext⟩ | ⟨a', ha', hcall⟩
  · rcases hold hb with ⟨fuel', hev', -⟩ | ⟨b', hb', hcall'⟩
    · exact (Event.enter.inj (hev.symm.trans hev')).1
    · exact absurd (hcall' ▸ hR) (hcalm hev hnext hb')
  · rcases hold hb with ⟨fuel', hev', hnext'⟩ | ⟨b', hb', hcall'⟩
    · exact absurd (hsymm (hcall ▸ hR)) (hcalm hev' hnext' ha')
    · exact h ha' hb' (by rwa [hcall, hcall'])

variable {σ : Type} {ρ : Rely σ Op Res} {P : (c : Call) → ℕ → Option (Ret c) → σ → Prop}

lemma Change.under_step {Q : Call → Prop} {x y : σ} (hc : Change M s e s')
    (hbody : ∀ c fuel, Q c → s'.shared = s.shared → (M.body s.time fuel c).Under ρ (P c s.time) y)
    (hsame' : s'.shared = s.shared → ρ.rel x y)
    (hoth : ∀ {a u env c b op k r}, s.active t = some a → Q a.call → u ≠ t →
      s.active u = some ⟨c, b, .call op k⟩ →
        M.exec s.time env u op s.shared = some (r, s'.shared) → ρ.rel x y)
    (hown : ∀ {env c b op k r}, e = .step t env → s.active t = some ⟨c, b, .call op k⟩ →
      M.exec s.time env t op s.shared = some (r, s'.shared) → ρ.does op x r y)
    (h : ∀ {a}, s.active t = some a → Q a.call → a.rest.Under ρ (P a.call a.began) x)
    (ha : s'.active t = some a) (hQ : Q a.call) : a.rest.Under ρ (P a.call a.began) y := by
  cases hc.at t with
  | same hsame hshared => exact (h (hsame.symm.trans ha) hQ).later (hsame' hshared)
  | other hsame _ _ _ _ _ _ _ hne hbef hexec =>
    have hold := hsame.symm.trans ha
    exact (h hold hQ).later (hoth hold hQ hne hbef hexec)
  | enter c fuel _ _ hshared _ haft =>
    cases haft.symm.trans ha
    exact hbody c fuel hQ hshared
  | act _ _ _ _ _ _ hev hbef hexec haft =>
    cases haft.symm.trans ha
    exact (h hbef hQ).own (hown hev hbef hexec)
  | leave _ _ _ _ _ _ haft => cases haft.symm.trans ha

structure Keeps {σ : Type} (ρ : Rely σ Op Res) (P : (c : Call) → ℕ → Option (Ret c) → σ → Prop)
    (R : CallRecord Tid Ret → σ → Prop) (s : Sys Tid S Res Ret Out) (x : σ) : Prop where
  running : ∀ {t a}, s.active t = some a → a.rest.Under ρ (P a.call a.began) x
  returned : ∀ {r}, r ∈ s.calls → R r x

lemma keeps_init (ρ : Rely σ Op Res) (P : (c : Call) → ℕ → Option (Ret c) → σ → Prop)
    (R : CallRecord Tid Ret → σ → Prop) (σ₀ : S) (x : σ) :
    Keeps ρ P R (Sys.init σ₀ : Sys Tid S Res Ret Out) x where
  running h := by cases h
  returned h := by cases h

lemma Keeps.step
    {R : CallRecord Tid Ret → σ → Prop} {x y : σ} (h : Keeps ρ P R s x) (hc : Change M s e s')
    (hbody : ∀ c fuel, (M.body s.time fuel c).Under ρ (P c s.time) y) (hrel : ρ.rel x y)
    (hown : ∀ {t env c b op k r}, e = .step t env → s.active t = some ⟨c, b, .call op k⟩ →
      M.exec s.time env t op s.shared = some (r, s'.shared) → ρ.does op x r y)
    (hlea : ∀ {t job c b r}, P c b (some r) x → R ⟨t, job, c, r, b, s.time⟩ y)
    (hlat : ∀ {r}, R r x → R r y) : Keeps ρ P R s' y where
  running ha := hc.under_step (Q := fun _ => True) (fun c fuel _ _ => hbody c fuel) (fun _ => hrel)
    (fun _ _ _ _ _ => hrel) hown (fun hb _ => h.running hb) ha trivial
  returned := by
    intro r hr
    rcases hc.record_cases hr with hr | ⟨⟨a, ha, -, -⟩, -, hnone⟩
    · exact hlat (h.returned hr)
    · obtain ⟨job, c, b, x, rfl, -, hcalls⟩ := hc.left ha hnone
      rcases List.mem_cons.1 (hcalls ▸ hr) with heq | hr
      · rw [heq]
        exact hlea (h.running ha).done
      · exact hlat (h.returned hr)

end Threads
