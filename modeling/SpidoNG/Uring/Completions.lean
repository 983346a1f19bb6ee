import SpidoNG.Uring.Table

/-!
# Completions and their connections

A completion is handed to the connection that the table has for its number.
-/

namespace SpidoNG.Uring

def Addressed (r : Registry) : Prop :=
  ∀ s ∈ r.inflight, ∀ p, r.getConn s.number = some p → (r.storage p).serial = s.owner

namespace Addressed

variable {r r' : Registry} {n p : ℕ}

lemma fewer (h : Addressed r) {l : List Submission}
    (hl : ∀ s ∈ l, ∃ s' ∈ r.inflight, s'.number = s.number ∧ s'.owner = s.owner) :
    Addressed { r with inflight := l } := by
  intro s hs p hp
  obtain ⟨s', hs', hnum, hown⟩ := hl s hs
  rw [← hown]
  refine h s' hs' p ?_
  rw [hnum]
  exact hp

lemma put {t : Talk} (h : Addressed r) (hshape : Shape r) (hp : r.table n = some p)
    (ho : Outcome (r.storage p) t) : Addressed (r.put p t) := by
  intro s hs q hq
  rw [ho.serial_put]
  rcases List.mem_append.1 hs with hs | hs
  · exact h s hs q hq
  · -- What is submitted bears the number under which the connection is in the table.
    obtain ⟨hown, hnum⟩ := ho.mine s hs
    have hn : s.number = n := by
      rcases (hshape.entry hp).2 with hfd | hfd <;> omega
    have hq' : r.table n = some q := by
      rw [← hshape.getConn_eq, ← hn]
      exact hq
    rw [hp] at hq'
    cases hq'
    exact hown.symm

lemma attach (h : Addressed r) (hshape : Shape r) (ha : Attached r n p r')
    (hidle : ∀ s ∈ r.inflight, s.number ≠ n) : Addressed r' := by
  intro s hs q hq
  rw [ha.inflight] at hs
  rw [(hshape.attach ha).getConn_eq, ha.table, Function.update_of_ne (hidle s hs)] at hq
  have hqp : q ≠ p := by
    rintro rfl
    exact hshape.fresh ha _ hq
  rw [ha.storage, Function.update_of_ne hqp]
  exact h s hs q ((hshape.getConn_eq _).trans hq)

lemma release (h : Addressed r) (hshape : Shape r) (n k : ℕ) :
    Addressed ((r.releaseConn n).settle k) := by
  cases hp : r.getConn n with
  | none =>
    rw [releaseConn_of_none hp]
    exact h
  | some =>
    have hr := released_releaseConn hp
    intro s hs q hq
    obtain ⟨ssl, hconn⟩ := hr.storage q
    have hconn' : ((r.releaseConn n).settle k).storage q = (r.releaseConn n).storage q := rfl
    rw [hconn', hconn]
    have hent : (r.releaseConn n).table s.number = some q :=
      ((hshape.releaseConn n).getConn_eq _).symm.trans hq
    exact h s (hr.inflight ▸ hs) q ((hshape.getConn_eq _).trans (hr.entry hent))

lemma stable : Stable Addressed where
  fewer h := h.fewer
  put h := h.put
  release n k h hshape := h.release hshape n k

lemma change {e : Event} (h : Addressed r) (hshape : Shape r) (hc : Change r e r')
    (hidle : ∀ n, e.number = some n → ∀ s ∈ r.inflight, s.number ≠ n) : Addressed r' :=
  stable.change h hshape hc fun n hn => h.attach hshape (attached_attachConn n r) (hidle n hn)

end Addressed

def unclaimed (w : Worker) (e : Event) : Bool := w.inflight.all fun s => e.number ≠ some s.number

lemma addressed_step {cfg : ServerConfig} {w w' : Worker} {e : Event}
    (h : Shape w.toRegistry ∧ Addressed w.toRegistry) (hok : unclaimed w e)
    (hstep : step cfg w e = some w') : Shape w'.toRegistry ∧ Addressed w'.toRegistry := by
  have hc := change_of_step hstep
  refine ⟨h.1.change hc, h.2.change h.1 hc fun n hn s hs hsn => ?_⟩
  have hne := List.all_eq_true.1 hok s hs
  rw [hn, hsn] at hne
  simp at hne

theorem addressed_of_unclaimed (cfg : ServerConfig) (es : List Event) (w : Worker)
    (hrun : Runs.run (step cfg) {} es = some w)
    (hok : Runs.Meets (step cfg) (fun w e => unclaimed w e = true) {} es) :
    Addressed w.toRegistry := by
  have hinitial : Addressed {} := by
    intro s hs
    cases hs
  have hend := Runs.run_induction (I := fun w : Worker => Shape w.toRegistry ∧
    Addressed w.toRegistry)
    addressed_step ⟨Shape.initial, hinitial⟩ hok hrun
  exact hend.2

def slotReused : List Event :=
  [.accept 5 {}, .timer 20000000000, .complete 0 { res := -125 }, .closes 0, .complete 0 {},
    .accept 5 {}]

theorem addressed_slotReused : ∃ w, Runs.run (step usual) {} slotReused = some w ∧
    Addressed w.toRegistry := by
  have hsome : (Runs.run (step usual) {} slotReused).isSome = true := by decide +kernel
  obtain ⟨w, hw⟩ := Option.isSome_iff_exists.1 hsome
  refine ⟨w, hw, addressed_of_unclaimed usual slotReused w hw ?_⟩
  exact Runs.meets_of_meetsAll (by decide +kernel)

def lateReceive : List Event :=
  [.accept 5 {}, .timer 20000000000, .closes 1, .complete 1 {}, .accept 5 { now := 21000000000 }]

theorem not_addressed_lateReceive : (∃ w, Runs.run (step usual) {} lateReceive = some w ∧
      w.inflight[0]? = some ⟨.recv, 5, 0, {}, true, false⟩ ∧
      w.getConn 5 = some 0 ∧ (w.storage 0).serial = 1 ∧ ¬ Addressed w.toRegistry) ∧
    ∃ w, Runs.run (step usual) {} (lateReceive ++ [.complete 0 { res := -125 }]) = some w ∧
      (w.storage 0).serial = 1 ∧ (w.storage 0).journal = [.closing, .close] := by
  have hrun : (Runs.run (step usual) {} lateReceive).map
      (fun w => (w.inflight[0]?, w.getConn 5, (w.storage 0).serial)) =
      some (some ⟨.recv, 5, 0, {}, true, false⟩, some 0, 1) := by
    decide +kernel
  have hrun' : (Runs.run (step usual) {} (lateReceive ++ [.complete 0 { res := -125 }])).map
      (fun w => ((w.storage 0).serial, (w.storage 0).journal)) =
      some (1, [.closing, .close]) := by
    decide +kernel
  obtain ⟨w, hw, hstate⟩ := Option.map_eq_some_iff.1 hrun
  obtain ⟨w', hw', hstate'⟩ := Option.map_eq_some_iff.1 hrun'
  simp only [Prod.mk.injEq] at hstate hstate'
  obtain ⟨hfirst, hconn, hserial⟩ := hstate
  refine ⟨⟨w, hw, hfirst, hconn, hserial, fun h => ?_⟩, w', hw', hstate'⟩
  have howner := h _ (List.mem_of_getElem? hfirst) 0 hconn
  rw [hserial] at howner
  cases howner

end SpidoNG.Uring
