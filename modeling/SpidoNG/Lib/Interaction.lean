import Mathlib.Tactic

/-!
# Programs that call on their environment

A `Prog` computes a value and on its way calls operations whose answers it does not control.
-/

inductive Prog (Op : Type) (Res : Op → Type) (α : Type)
  | pure (a : α)
  | call (op : Op) (k : Res op → Prog Op Res α)

namespace Prog

variable {Op : Type} {Res : Op → Type} {α β : Type} {P Q : Op → Prop}

def bind : Prog Op Res α → (α → Prog Op Res β) → Prog Op Res β
  | .pure a, f => f a
  | .call op k, f => .call op fun r => (k r).bind f

instance : Monad (Prog Op Res) where
  pure := .pure
  bind := .bind

def perform (op : Op) : Prog Op Res (Res op) := .call op .pure

inductive Emits : Prog Op Res α → Op → Prop
  | here {op : Op} {k : Res op → Prog Op Res α} : Emits (.call op k) op
  | later {op op' : Op} {k : Res op → Prog Op Res α} (r : Res op) :
      Emits (k r) op' → Emits (.call op k) op'

def Always (P : Op → Prop) : Prog Op Res α → Prop
  | .pure _ => True
  | .call op k => P op ∧ ∀ r, (k r).Always P

variable {op : Op} {p : Prog Op Res α} {a : α}

lemma Always.of_emits (h : p.Always P) (he : p.Emits op) : P op := by
  induction he with
  | here => exact h.1
  | later r _ ih => exact ih (h.2 r)

lemma always_iff : p.Always P ↔ ∀ op, p.Emits op → P op := by
  refine ⟨fun h op he => h.of_emits he, ?_⟩
  intro h
  induction p with
  | pure => trivial
  | call op k ih => exact ⟨h op .here, fun r => ih r fun op' he => h op' (.later r he)⟩

lemma Always.mono (h : p.Always P) (hPQ : ∀ op, P op → Q op) : p.Always Q := by
  induction p with
  | pure => trivial
  | call op k ih => exact ⟨hPQ op h.1, fun r => ih r (h.2 r)⟩

variable {f : α → Prog Op Res β}

lemma Always.bind (hp : p.Always P) (hf : ∀ a, (f a).Always P) : (p >>= f).Always P := by
  induction p with
  | pure a => exact hf a
  | call _ _ ih => exact ⟨hp.1, fun r => ih r (hp.2 r)⟩

lemma Always.perform (h : P op) : (perform op : Prog Op Res (Res op)).Always P :=
  ⟨h, fun _ => trivial⟩

lemma Always.perform_bind {f : Res op → Prog Op Res β} (h : P op)
    (hf : ∀ r, (f r).Always P) : (Prog.perform op >>= f).Always P := (Always.perform h).bind hf

lemma always_forM {γ : Type} {f : γ → Prog Op Res PUnit} (l : List γ)
    (h : ∀ a ∈ l, (f a).Always P) : (l.forM f).Always P := by
  induction l with
  | nil => trivial
  | cons a l ih =>
    exact (h a (by simp)).bind fun _ => ih fun b hb => h b (by simp [hb])

abbrev Event (Op : Type) (Res : Op → Type) := (op : Op) × Res op

variable {t : List (Event Op Res)}

inductive Run : Prog Op Res α → List (Event Op Res) → α → Prop
  | pure (a : α) : Run (.pure a) [] a
  | call {op : Op} {k : Res op → Prog Op Res α} {r : Res op} {t : List (Event Op Res)} {a : α} :
      Run (k r) t a → Run (.call op k) (⟨op, r⟩ :: t) a

lemma Run.emits_bind (h : p.Run t a) (he : (f a).Emits op) : (p >>= f).Emits op := by
  induction h with
  | pure => exact he
  | call _ ih => exact .later _ (ih he)

def eval (env : (op : Op) → Res op) : Prog Op Res α → α
  | .pure a => a
  | .call op k => (k (env op)).eval env

lemma eval_congr {env env' : (op : Op) → Res op} (hp : p.Always P)
    (h : ∀ op, P op → env op = env' op) : p.eval env = p.eval env' := by
  induction p with
  | pure => rfl
  | call op k ih =>
    show (k (env op)).eval env = (k (env' op)).eval env'
    rw [h op hp.1]
    exact ih _ (hp.2 _)

section State

variable {S : Type} {step : S → (op : Op) → Res op → S → Prop}

inductive RunIn (step : S → (op : Op) → Res op → S → Prop) :
    Prog Op Res α → S → List (Event Op Res) → α → S → Prop
  | pure (a : α) (s : S) : RunIn step (.pure a) s [] a s
  | call {op : Op} {k : Res op → Prog Op Res α} {r : Res op} {s s' s'' : S}
      {t : List (Event Op Res)} {a : α} (hstep : step s op r s') (h : RunIn step (k r) s' t a s'') :
      RunIn step (.call op k) s (⟨op, r⟩ :: t) a s''

lemma RunIn.run {s s' : S} (h : RunIn step p s t a s') : p.Run t a := by
  induction h with
  | pure a => exact .pure a
  | call _ _ ih => exact .call ih

def Ensures (step : S → (op : Op) → Res op → S → Prop) (Q : List (Event Op Res) → α → S → Prop)
    (p : Prog Op Res α) (pre : List (Event Op Res)) (s : S) : Prop :=
  ∀ t a s', RunIn step p s t a s' → Q (pre ++ t) a s'

variable {Q : List (Event Op Res) → α → S → Prop} {pre : List (Event Op Res)} {s : S}

lemma ensures_pure (h : Q pre a s) : Ensures step Q (.pure a) pre s := by
  rintro t a' s' ⟨⟩
  rwa [List.append_nil]

lemma ensures_call {k : Res op → Prog Op Res α}
    (h : ∀ r s', step s op r s' → Ensures step Q (k r) (pre ++ [⟨op, r⟩]) s') :
    Ensures step Q (.call op k) pre s := by
  intro t a s'' hrun
  cases hrun with
  | call hstep hrest =>
    rw [List.append_cons]
    exact h _ _ hstep _ a s'' hrest

lemma ensures_perform {f : Res op → Prog Op Res α}
    (h : ∀ r s', step s op r s' → Ensures step Q (f r) (pre ++ [⟨op, r⟩]) s') :
    Ensures step Q (Prog.perform op >>= f) pre s := ensures_call h

def simulate (f : S → (op : Op) → Option (Res op × S)) :
    Prog Op Res α → S → Option (List (Event Op Res) × α × S)
  | .pure a, s => some ([], a, s)
  | .call op k, s => (f s op).bind fun x =>
    ((k x.1).simulate f x.2).map fun y => (⟨op, x.1⟩ :: y.1, y.2)

lemma RunIn.of_simulate {f : S → (op : Op) → Option (Res op × S)}
    (hf : ∀ s op r s', f s op = some (r, s') → step s op r s')
      {s' : S} (h : p.simulate f s = some (t, a, s')) : RunIn step p s t a s' := by
  induction p generalizing s t with
  | pure =>
    cases h
    exact .pure _ _
  | call op k ih =>
    obtain ⟨⟨r, s₁⟩, hr, hrest⟩ := Option.bind_eq_some_iff.1 h
    obtain ⟨⟨t₁, a₁, s₂⟩, hsim, heq⟩ := Option.map_eq_some_iff.1 hrest
    cases heq
    exact .call (hf s op r s₁ hr) (ih r hsim)

end State

section Stages

variable {Stage : Type} {next : Stage → (op : Op) → Res op → Stage → Prop} {s : Stage}

def Keeps (next : Stage → (op : Op) → Res op → Stage → Prop) : Stage → Prog Op Res α → Prop
  | _, .pure _ => True
  | s, .call op k => ∀ r, ∃ s', next s op r s' ∧ (k r).Keeps next s'

lemma Keeps.perform {f : Res op → Prog Op Res α}
    (h : ∀ r, ∃ s', next s op r s' ∧ (f r).Keeps next s') :
    (Prog.perform op >>= f).Keeps next s := h

lemma Keeps.run {I : Stage → List (Event Op Res) → Prop}
    (hnext : ∀ {s op r s' t}, I s t → next s op r s' → I s' (t ++ [⟨op, r⟩]))
    (hp : p.Keeps next s) {t' : List (Event Op Res)} (hrun : p.Run t a) (h : I s t') :
    ∃ s', I s' (t' ++ t) := by
  induction hrun generalizing s t' with
  | pure => exact ⟨s, by rwa [List.append_nil]⟩
  | call _ ih =>
    obtain ⟨s', hs', hk⟩ := hp _
    rw [List.append_cons]
    exact ih hk (hnext h hs')

end Stages

end Prog
