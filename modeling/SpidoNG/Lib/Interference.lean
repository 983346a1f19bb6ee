import SpidoNG.Lib.Interaction

/-!
# Programs under interference

A program runs on a state that others change as well.
-/

structure Rely (σ Op : Type) (Res : Op → Type) where
  rel : σ → σ → Prop
  refl : ∀ s, rel s s
  trans : ∀ {s s' s''}, rel s s' → rel s' s'' → rel s s''
  does : (op : Op) → σ → Res op → σ → Prop
  ok : Op → σ → Prop

namespace Prog

variable {σ Op α β : Type} {Res : Op → Type} {ρ : Rely σ Op Res} {post post' : α → σ → Prop}

def Under (ρ : Rely σ Op Res) (post : α → σ → Prop) : Prog Op Res α → σ → Prop
  | .pure a, s => ∀ s', ρ.rel s s' → post a s'
  | .call op k, s => ∀ s', ρ.rel s s' → ρ.ok op s' ∧ ∀ r s'', ρ.does op s' r s'' →
    (k r).Under ρ post s''

variable {p : Prog Op Res α} {s : σ}

lemma Under.later {s' : σ} (h : p.Under ρ post s) (hs : ρ.rel s s') : p.Under ρ post s' := by
  cases p with
  | pure | call => exact fun s'' hs' => h s'' (ρ.trans hs hs')

lemma Under.own {op : Op} {k : Res op → Prog Op Res α} {s' : σ} {r : Res op}
    (h : (Prog.call op k).Under ρ post s) (hs : ρ.does op s r s') : (k r).Under ρ post s' :=
  (h s (ρ.refl s)).2 r s' hs

lemma Under.demand {op : Op} {k : Res op → Prog Op Res α}
    (h : (Prog.call op k).Under ρ post s) : ρ.ok op s := (h s (ρ.refl s)).1

lemma Under.done {a : α} (h : (Prog.pure a : Prog Op Res α).Under ρ post s) : post a s :=
  h s (ρ.refl s)

lemma Under.mono (h : p.Under ρ post s)
    (hpost : ∀ a s, post a s → post' a s) : p.Under ρ post' s := by
  induction p generalizing s with
  | pure a => exact fun s' hs => hpost a s' (h s' hs)
  | call _ _ ih => exact fun s' hs => ⟨(h s' hs).1, fun r s'' hd => ih r ((h s' hs).2 r s'' hd)⟩

lemma Under.bind {f : α → Prog Op Res β} {post : β → σ → Prop}
    (h : p.Under ρ (fun a s => (f a).Under ρ post s) s) : (p >>= f).Under ρ post s := by
  induction p generalizing s with
  | pure => exact h s (ρ.refl s)
  | call _ _ ih => exact fun s' hs => ⟨(h s' hs).1, fun r s'' hd => ih r ((h s' hs).2 r s'' hd)⟩

lemma Under.of_always {P : Op → Prop} {I : σ → Prop}
    (hp : p.Always P) (hrel : ∀ {s s'}, ρ.rel s s' → I s → I s')
    (hop : ∀ {op s}, P op → I s → ρ.ok op s ∧ ∀ r s', ρ.does op s r s' → I s') (h : I s) :
    p.Under ρ (fun _ s => I s) s := by
  induction p generalizing s with
  | pure => exact fun s' hs => hrel hs h
  | call _ _ ih =>
    intro s' hs
    have hs' := hop hp.1 (hrel hs h)
    exact ⟨hs'.1, fun r s'' hd => ih r (hp.2 r) (hs'.2 r s'' hd)⟩

lemma Under.transfer {τ : Type} {ρ' : Rely τ Op Res} (f : τ → σ) {t : τ} (h : p.Under ρ post (f t))
    (hrel : ∀ {t t'}, ρ'.rel t t' → ρ.rel (f t) (f t'))
    (hdoes : ∀ {op t r t'}, ρ'.does op t r t' → ρ.does op (f t) r (f t'))
    (hok : ∀ {op t}, ρ.ok op (f t) → ρ'.ok op t) : p.Under ρ' (fun a t => post a (f t)) t := by
  induction p generalizing t with
  | pure => exact fun t' ht => h (f t') (hrel ht)
  | call _ _ ih =>
    intro t' ht
    obtain ⟨hop, hnext⟩ := h (f t') (hrel ht)
    exact ⟨hok hop, fun r t'' hd => ih r (hnext r (f t'') (hdoes hd))⟩

def runOn (step : (op : Op) → σ → Option (Res op × σ)) : Prog Op Res α → σ → Option (α × σ)
  | .pure a, s => some (a, s)
  | .call op k, s => (step op s).bind fun x => (k x.1).runOn step x.2

def alone (step : (op : Op) → σ → Option (Res op × σ)) : Rely σ Op Res where
  rel s s' := s' = s
  refl _ := rfl
  trans h h' := h'.trans h
  does op s r s' := step op s = some (r, s')
  ok _ _ := True

lemma Under.run {step : (op : Op) → σ → Option (Res op × σ)} {s' : σ} {a : α}
    (h : p.Under (alone step) post s) (hrun : p.runOn step s = some (a, s')) : post a s' := by
  induction p generalizing s with
  | pure =>
    cases hrun
    exact h.done
  | call _ _ ih =>
    obtain ⟨⟨r, s₁⟩, hs₁, hrun⟩ := Option.bind_eq_some_iff.1 hrun
    exact ih r (h.own hs₁) hrun

end Prog
