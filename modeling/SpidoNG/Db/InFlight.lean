import SpidoNG.Db.History

/-!
# The batches in flight

The flusher of a table drains rows from its queue and sends them (`BatchWriter::flusher_loop`), so
rows are in flight only while it is at work:

* `Leaves` says what one operation leaves in flight, and `under_flush` what a whole round does;
* `inFlight_of_idle` is the result: nothing of a table is in flight when its flusher has no job.
-/

namespace SpidoNG.Db

open Bytes Pg Cache Batch Threads

variable {G : Type}

/-- What an operation may leave in flight of a table. -/
def Leaves (table : Bytes) : (x : DbOp) → x.Res → List ℕ → List ℕ → Prop
  | .drain _, items, l, l' => l' ⊆ l ++ items.map Item.ticket
  | .execBatch table' b, r, l, l' => l' ⊆ l ∧
    (table' = table → r.ok = true → ∀ n ∈ l', n ∉ b.tickets)
  | .deadLetter table' b _, _, l, l' => l' ⊆ l ∧ (table' = table → ∀ n ∈ l', n ∉ b.tickets)
  | _, _, l, l' => l' ⊆ l

section Operations

variable {S : Server G} {cfg : DbConfig} {time : ℕ} {ok : Bool} {x : DbOp} {r : x.Res}
  {y y' : DbState G} {table : Bytes}

lemma inFlight_settle_subset (table : Bytes) (y : DbState G) (time : ℕ) (table' : Bytes)
    (b : Sending) :
    (y.settle time table' b).inFlight table ⊆ y.inFlight table ∧
      (table' = table → ∀ n ∈ (y.settle time table' b).inFlight table, n ∉ b.tickets) := by
  by_cases ht : table = table'
  · subst ht
    simp only [DbState.settle, Function.update_self]
    exact ⟨fun n hn => List.mem_of_mem_filter hn,
      fun _ n hn => of_decide_eq_true (List.mem_filter.1 hn).2⟩
  · simp only [DbState.settle, Function.update_of_ne ht]
    exact ⟨List.Subset.refl _, fun h => absurd h.symm ht⟩

lemma leaves_of_exec (h : exec S cfg time ok x y = some (r, y')) :
    Leaves table x r (y.inFlight table) (y'.inFlight table) := by
  cases x with
  | drain table' =>
    simp only [exec] at h
    split at h
    · cases h
      exact List.subset_append_left _ _
    · cases h
      by_cases ht : table = table'
      · subst ht
        simp [Leaves]
      · simp [Leaves, ht]
  | execBatch table' b =>
    simp only [exec] at h
    split_ifs at h with hok
    · cases h
      obtain ⟨hsub, hout⟩ := inFlight_settle_subset table y time table' b
      exact ⟨hsub, fun ht _ => hout ht⟩
    · cases h
      exact ⟨List.Subset.refl _, fun _ hr => absurd hr hok⟩
  | deadLetter table' b =>
    cases h
    exact inFlight_settle_subset table y time table' b
  | commit | enqueue | requestFlush | awaitDrained | retune =>
    simp only [exec] at h
    split at h <;> first
      | cases h
        exact List.Subset.refl _
      | (split_ifs at h
         cases h
         exact List.Subset.refl _)
  | query | stop =>
    cases h
    exact List.Subset.refl _

lemma inFlight_subset_of_exec (h : exec S cfg time ok x y = some (r, y')) (hx : x ≠ .drain table) :
    y'.inFlight table ⊆ y.inFlight table := by
  have hleaves : Leaves table x r _ _ := leaves_of_exec h
  cases x with
  | drain table' =>
    have ht : table ≠ table' := fun ht => hx (ht ▸ rfl)
    simp only [exec] at h
    split at h
    · cases h
      exact List.Subset.refl _
    · cases h
      simp [ht]
  | execBatch | deadLetter => exact hleaves.1
  | _ => exact hleaves

end Operations

/-- Others take rows out of flight; `does` is what the thread itself does. -/
def shrinking {Op : Type} {Res : Op → Type}
    (does : (op : Op) → List ℕ → Res op → List ℕ → Prop) : Rely (List ℕ) Op Res where
  rel l l' := l' ⊆ l
  refl _ := List.Subset.refl _
  trans h h' := List.Subset.trans h' h
  does := does
  ok _ _ := True

def opRely (table : Bytes) : Rely (List ℕ) (CacheOp Answer ⊕ DbOp) (OpRes DbOp.Res) :=
  shrinking fun op l r l' => match op, r with
    | .inl _, _ => l' ⊆ l
    | .inr x, r => Leaves table x r l l'

def callRely (table : Bytes) : Rely (List ℕ) (CacheCall Answer ⊕ DbOp) (CallRet DbOp.Res) :=
  shrinking fun c l r l' => match c, r with
    | .inl _, _ => l' ⊆ l
    | .inr x, r => Leaves table x r l l'

section Programs

variable {cfg : DbConfig} {table : Bytes} {l : List ℕ}

abbrev Emptied (α : Type) : α → List ℕ → Prop := fun _ l => l = []

lemma under_markClean (table' : Bytes) (rows : ℕ) :
    (markClean table' rows).Under (callRely table) (Emptied Unit) [] := by
  induction rows with
  | zero => exact fun l hl => List.subset_nil.1 hl
  | succ _ ih =>
    refine fun l hl => ⟨trivial, fun r l' hl' => ?_⟩
    rw [List.subset_nil.1 (List.Subset.trans hl' hl)]
    exact ih

lemma under_attempts (b : Sending) (left : ℕ) (error : PgResult) (hl : l ⊆ b.tickets) :
    (attempts table b left error).Under (callRely table) (Emptied Unit) l := by
  -- What is in flight is of the batch, so nothing is once the batch is settled.
  have hdone : ∀ {l' : List ℕ}, l' ⊆ b.tickets → (∀ n ∈ l', n ∉ b.tickets) → l' = [] :=
    fun hsub hout => List.eq_nil_iff_forall_not_mem.2 fun n hn => hout n hn (hsub hn)
  induction left generalizing l error with
  | zero =>
    refine fun l1 hl1 => ⟨trivial, fun _ l2 hl2 => ?_⟩
    rw [hdone (List.Subset.trans hl2.1 (List.Subset.trans hl1 hl)) (hl2.2 rfl)]
    exact under_markClean table _
  | succ _ ih =>
    refine fun l1 hl1 => ⟨trivial, fun (r : PgResult) l2 hl2 => ?_⟩
    have hsub : l2 ⊆ b.tickets := List.Subset.trans hl2.1 (List.Subset.trans hl1 hl)
    show (if r.ok then markClean table _ else attempts table b _ r).Under _ _ l2
    split_ifs with hok
    · rw [hdone hsub (hl2.2 rfl hok)]
      exact under_markClean table _
    · exact ih r hsub

lemma under_flush (cfg : DbConfig) (table : Bytes) :
    (flush cfg table).Under (callRely table) (Emptied Unit) [] := by
  unfold flush
  split
  · exact fun l hl => List.subset_nil.1 hl
  · refine fun l1 hl1 => ⟨trivial, fun (items : List Item) l2 hl2 => ?_⟩
    have hsub : l2 ⊆ items.map Item.ticket := by
      rw [List.subset_nil.1 hl1] at hl2
      exact hl2
    show (if items = [] then pure () else attempts table _ _ _).Under _ _ l2
    split_ifs with hitems
    · subst hitems
      exact fun l3 hl3 => List.subset_nil.1 (List.Subset.trans hl3 hsub)
    · exact under_attempts _ _ _ hsub

end Programs

section Runs

variable {S : Server G} {cfg : DbConfig} {pg : G} {es : List DbEvent} {s s' : DbSys G}
  {table : Bytes}

lemma flusher_of_drain (hrun : run (dbMachine S cfg) (cfg.start pg) es = some s) {u : DbThread}
    {c : CacheCall Answer ⊕ DbOp} {b : ℕ} {k : List Item → Code Answer DbOp.Res _}
    (hu : s.active u = some ⟨c, b, .call (.inr (.drain table)) k⟩) : u = .flusher table := by
  have hc : c = .inr (.drain table) := ((traced_of_run hrun).signed hu).1
  subst hc
  obtain ⟨job, b', k', hpending⟩ := Sys.pending_of_active hu
  obtain rfl : job = .flush table :=
    ((histories_of_dbRun hrun).running hpending).demand.2 table rfl
  have hruns : u.runs (.flush table) = true := runsOn_of_run hrun hpending
  cases u with
  | flusher table' => rw [of_decide_eq_true hruns]
  | _ => cases hruns

lemma under_callBody_flight {α : Type} {c : CacheCall Answer ⊕ DbOp}
    {k : CallRet DbOp.Res c → Script (Option α)} {l : List ℕ} (b fuel : ℕ)
    (h : (Prog.call c k).Under (callRely table) (Emptied _) l) :
    (callBody cfg.cache b fuel c : Code Answer DbOp.Res _).Under (opRely table)
      (fun r l' => ∀ ret, r = some ret → (k ret).Under (callRely table) (Emptied _) l') l := by
  cases c with
  | inl c =>
    refine (Prog.Under.of_always (I := fun l' => l' ⊆ l) (signed_callBody cfg.cache fuel (.inl c))
      (fun hrel hl => List.Subset.trans hrel hl) ?_ (List.Subset.refl l)).mono ?_
    · intro op l' hop hl
      cases op with
      | inl => exact ⟨trivial, fun r l'' hsub => List.Subset.trans hsub hl⟩
      | inr => cases hop
    · intro r l' hl ret _
      exact (h l (List.Subset.refl l)).2 ret l' hl
  | inr x =>
    refine fun l1 hl1 => ⟨trivial, fun r l2 hl2 l3 hl3 ret hret => ?_⟩
    cases hret
    exact ((h l1 hl1).2 r l2 hl2).later hl3

/-- Whatever its flusher has still to do, nothing of the table will be in flight after it. -/
abbrev Tidy (table : Bytes) (s : DbSys G) : Prop :=
  (s.threads (.flusher table)).Under (opRely table) (callRely table) (fun l => l = [])
    (s.shared.2.inFlight table)

lemma tidy_of_run (hrun : run (dbMachine S cfg) (cfg.start pg) es = some s) : Tidy table s := by
  have hinit : Tidy table (cfg.start pg) := rfl
  refine run_reached (M := dbMachine S cfg) ?_ hinit (meets_true _ es) hrun
  intro es s e s' hs h _ hstep
  refine hstep.under (t := .flusher table) (f := fun a => a.2.inFlight table) ?_ ?_
    under_callBody_flight ?_ ?_ h
  · refine fun hsub => ⟨hsub, fun hnil => ?_⟩
    subst hnil
    exact List.subset_nil.1 hsub
  · rintro job fuel l hruns rfl
    cases job with
    | flush table' =>
      obtain rfl : table = table' := of_decide_eq_true hruns
      exact Prog.Under.bind ((under_flush cfg table).mono fun _ _ hnil l hl =>
        List.subset_nil.1 (hnil ▸ hl))
    | _ => cases hruns
  · intro env op r σ' hexec
    cases op with
    | inl => rw [snd_of_execBoth hexec]; exact List.Subset.refl _
    | inr => exact leaves_of_exec (exec_of_execBoth hexec)
  · intro u env c b op k r σ' hu hactive hexec
    cases op with
    | inl => rw [snd_of_execBoth hexec]; exact List.Subset.refl _
    | inr x =>
      refine inFlight_subset_of_exec (exec_of_execBoth hexec) ?_
      rintro rfl
      exact hu (flusher_of_drain hs hactive)

/-- Nothing of a table is in flight while its flusher has no job. -/
lemma inFlight_of_idle (hrun : run (dbMachine S cfg) (cfg.start pg) es = some s)
    (hidle : s.pending (.flusher table) = none) : s.shared.2.inFlight table = [] := by
  have htidy : Tidy table s := tidy_of_run hrun
  cases hthread : s.threads (.flusher table) with
  | idle =>
    rw [Tidy, hthread] at htidy
    exact htidy
  | between | inside =>
    rw [Sys.pending, hthread] at hidle
    cases hidle

end Runs

end SpidoNG.Db
