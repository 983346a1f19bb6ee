import Mathlib.Tactic

/-!
# Runs of a partial step function

A system takes a step for an event or cannot take it.
-/

namespace Runs

variable {S E : Type} {step : S → E → Option S} {ok : S → E → Prop} {I : S → Prop} {s s' : S}
  {es : List E}

def run (step : S → E → Option S) (s : S) : List E → Option S
  | [] => some s
  | e :: es => (step s e).bind fun s' => run step s' es

def Meets (step : S → E → Option S) (ok : S → E → Prop) (s : S) : List E → Prop
  | [] => True
  | e :: es => ok s e ∧ ∀ s', step s e = some s' → Meets step ok s' es

lemma run_induction (hstep : ∀ {s e s'}, I s → ok s e → step s e = some s' → I s') (h : I s)
    (hok : Meets step ok s es) (hrun : run step s es = some s') : I s' := by
  induction es generalizing s with
  | nil =>
    cases hrun
    exact h
  | cons _ _ ih =>
    obtain ⟨s₁, hs₁, hrun⟩ := Option.bind_eq_some_iff.1 hrun
    exact ih (hstep h hok.1 hs₁) (hok.2 s₁ hs₁) hrun

lemma meets_of_forall (h : ∀ s, ∀ e ∈ es, ok s e) (s : S) : Meets step ok s es := by
  induction es generalizing s with
  | nil => trivial
  | cons e _ ih =>
    refine ⟨h s e List.mem_cons_self, fun s' _ => ?_⟩
    exact ih (fun s e he => h s e (List.mem_cons_of_mem _ he)) s'

lemma meets_of_append {es' : List E} (h : Meets step ok s (es ++ es'))
    (hrun : run step s es = some s') :
    Meets step ok s' es' := by
  induction es generalizing s with
  | nil =>
    cases hrun
    exact h
  | cons _ _ ih =>
    obtain ⟨s₁, hs₁, hrun⟩ := Option.bind_eq_some_iff.1 hrun
    exact ih (h.2 s₁ hs₁) hrun

def meetsAll (step : S → E → Option S) (ok : S → E → Bool) (s : S) : List E → Bool
  | [] => true
  | e :: es => ok s e && (step s e).all fun s' => meetsAll step ok s' es

lemma meets_of_meetsAll {ok : S → E → Bool} (h : meetsAll step ok s es) :
    Meets step (fun s e => ok s e) s es := by
  induction es generalizing s with
  | nil => trivial
  | cons _ _ ih =>
    obtain ⟨hok, hrest⟩ := Bool.and_eq_true_iff.1 h
    refine ⟨hok, fun s' hs' => ih ?_⟩
    rwa [hs'] at hrest

end Runs
