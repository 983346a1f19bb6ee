import Mathlib.Tactic

/-!
# Incremental readers

A reader looks at the input received so far and either wants more of it, rejects it, or returns a
value together with the unread rest.
-/

namespace Incremental

open List

inductive Outcome (ε τ α : Type)
  | more
  | fail (e : ε)
  | ok (a : α) (rest : List τ)
  deriving DecidableEq

def Reader (ε τ α : Type) : Type := List τ → Outcome ε τ α

namespace Reader

variable {ε τ α β σ : Type}

protected def pure (a : α) : Reader ε τ α := fun xs => .ok a xs

def reject (e : ε) : Reader ε τ α := fun _ => .fail e

protected def bind (r : Reader ε τ α) (f : α → Reader ε τ β) : Reader ε τ β := fun xs =>
  match r xs with
  | .more => .more
  | .fail e => .fail e
  | .ok a rest => f a rest

instance : Monad (Reader ε τ) where
  pure := Reader.pure
  bind := Reader.bind

@[simp] lemma pure_apply (a : α) (xs : List τ) : (pure a : Reader ε τ α) xs = .ok a xs := rfl

@[simp] lemma reject_apply (e : ε) (xs : List τ) : (reject e : Reader ε τ α) xs = .fail e := rfl

lemma bind_apply (r : Reader ε τ α) (f : α → Reader ε τ β) (xs : List τ) : (r >>= f) xs =
      match r xs with
      | .more => .more
      | .fail e => .fail e
      | .ok a rest => f a rest := rfl

variable {rest xs : List τ} {r : Reader ε τ α} {f : α → Reader ε τ β}

lemma bind_of_ok {a : α} (h : r xs = .ok a rest) : (r >>= f) xs = f a rest := by
  rw [bind_apply, h]

lemma bind_eq_ok {b : β}
    (h : (r >>= f) xs = .ok b rest) : ∃ a mid, r xs = .ok a mid ∧ f a mid = .ok b rest := by
  rw [bind_apply] at h
  cases hr : r xs with
  | more | fail => rw [hr] at h; cases h
  | ok a mid => rw [hr] at h; exact ⟨a, mid, rfl, h⟩

lemma bind_eq_fail {e : ε} (h : (r >>= f) xs = .fail e) :
    r xs = .fail e ∨ ∃ a mid, r xs = .ok a mid ∧ f a mid = .fail e := by
  rw [bind_apply] at h
  cases hr : r xs with
  | more => rw [hr] at h; cases h
  | fail => rw [hr] at h; cases h; exact .inl rfl
  | ok a mid => rw [hr] at h; exact .inr ⟨a, mid, rfl, h⟩

structure Stable (r : Reader ε τ α) : Prop where
  fail_append : ∀ {xs : List τ} {e : ε} (ys : List τ), r xs = .fail e → r (xs ++ ys) = .fail e
  ok_append : ∀ {xs rest : List τ} {a : α} (ys : List τ),
    r xs = .ok a rest → r (xs ++ ys) = .ok a (rest ++ ys)

def Shrinks (r : Reader ε τ α) : Prop :=
  ∀ {xs rest : List τ} {a : α}, r xs = .ok a rest → rest <:+ xs

structure Progress (r : Reader ε τ α) : Prop where
  shrinks : r.Shrinks
  length_lt : ∀ {xs rest : List τ} {a : α}, r xs = .ok a rest → rest.length < xs.length

lemma shrinks_pure (a : α) : Shrinks (pure a : Reader ε τ α) := by
  intro xs rest b h
  cases h
  exact suffix_refl _

lemma shrinks_reject (e : ε) : Shrinks (reject e : Reader ε τ α) := by
  intro xs rest b h
  cases h

lemma Shrinks.bind (hr : r.Shrinks) (hf : ∀ a, (f a).Shrinks) : (r >>= f).Shrinks := by
  intro xs rest b h
  obtain ⟨a, mid, h1, h2⟩ := bind_eq_ok h
  exact (hf a h2).trans (hr h1)

lemma Progress.bind (hr : r.Progress) (hf : ∀ a, (f a).Shrinks) : (r >>= f).Progress where
  shrinks := Shrinks.bind hr.shrinks hf
  length_lt := by
    intro xs rest b h
    obtain ⟨a, mid, h1, h2⟩ := bind_eq_ok h
    exact (hf a h2).length_le.trans_lt (hr.length_lt h1)

lemma Shrinks.bind_progress (hr : r.Shrinks) (hf : ∀ a, (f a).Progress) : (r >>= f).Progress where
  shrinks := Shrinks.bind hr fun a => (hf a).shrinks
  length_lt := by
    intro xs rest b h
    obtain ⟨a, mid, h1, h2⟩ := bind_eq_ok h
    exact ((hf a).length_lt h2).trans_le (hr h1).length_le

lemma stable_pure (a : α) : Stable (pure a : Reader ε τ α) where
  fail_append := by intro xs e ys h; cases h
  ok_append := by intro xs rest b ys h; cases h; rfl

lemma stable_reject (e : ε) : Stable (reject e : Reader ε τ α) where
  fail_append := by intro xs e' ys h; exact h
  ok_append := by intro xs rest b ys h; cases h

lemma Stable.bind (hr : r.Stable) (hf : ∀ a, (f a).Stable) : (r >>= f).Stable where
  fail_append := by
    intro xs e ys h
    rcases bind_eq_fail h with h1 | ⟨a, mid, h1, h2⟩
    · rw [bind_apply, hr.fail_append ys h1]
    · rw [bind_of_ok (hr.ok_append ys h1)]
      exact (hf a).fail_append ys h2
  ok_append := by
    intro xs rest b ys h
    obtain ⟨a, mid, h1, h2⟩ := bind_eq_ok h
    rw [bind_of_ok (hr.ok_append ys h1)]
    exact (hf a).ok_append ys h2

def scanTo (stop bad : τ → Bool) (e : ε) : Reader ε τ (List τ)
  | [] => .more
  | x :: xs =>
    if stop x then .ok [] (x :: xs)
    else if bad x then .fail e
    else match scanTo stop bad e xs with
      | .more => .more
      | .fail e' => .fail e'
      | .ok ys rest => .ok (x :: ys) rest

variable {stop bad : τ → Bool} {e : ε}

lemma scanTo_eq_ok {ys : List τ} (h : scanTo stop bad e xs = .ok ys rest) :
    xs = ys ++ rest ∧ (∀ y ∈ ys, stop y = false ∧ bad y = false) ∧
      ∃ x tl, rest = x :: tl ∧ stop x := by
  induction xs generalizing ys with
  | nil => cases h
  | cons x xs ih =>
    rw [scanTo] at h
    split_ifs at h with h1 h2
    · cases h
      exact ⟨rfl, by simp, x, xs, rfl, h1⟩
    · cases hs : scanTo stop bad e xs with
      | more | fail => rw [hs] at h; cases h
      | ok =>
        rw [hs] at h
        cases h
        obtain ⟨h3, h4, h5⟩ := ih hs
        refine ⟨by rw [h3]; rfl, ?_, h5⟩
        intro y hy
        rcases mem_cons.1 hy with rfl | hy
        · exact ⟨by simpa using h1, by simpa using h2⟩
        · exact h4 y hy

lemma scanTo_append {ys : List τ} {x : τ} (hx : stop x)
    (hys : ∀ y ∈ ys, stop y = false ∧ bad y = false) :
    scanTo stop bad e (ys ++ x :: rest) = .ok ys (x :: rest) := by
  induction ys with
  | nil => simp [scanTo, hx]
  | cons y _ ih =>
    obtain ⟨h1, h2⟩ := hys y (by simp)
    simp [scanTo, h1, h2, ih (fun z hz => hys z (by simp [hz]))]

lemma scanTo_eq_more : scanTo stop bad e xs = .more ↔ ∀ x ∈ xs, stop x = false ∧ bad x = false := by
  induction xs with
  | nil => simp [scanTo]
  | cons x xs ih =>
    rw [scanTo]
    split_ifs with h1 h2
    · simp [h1]
    · simp [h2]
    · have h1' : stop x = false := by simpa using h1
      have h2' : bad x = false := by simpa using h2
      rw [forall_mem_cons, ← ih]
      cases scanTo stop bad e xs <;> simp [h1', h2']

lemma scanTo_ne_fail {e' : ε} : scanTo stop (fun _ => false) e xs ≠ .fail e' := by
  induction xs with
  | nil => simp [scanTo]
  | cons x xs ih =>
    rw [scanTo]
    split_ifs with h1 h2
    · simp
    · exact absurd h2 id
    · cases hs : scanTo stop (fun _ => false) e xs with
      | more | ok => simp
      | fail => rw [hs] at ih; simpa using ih

lemma stable_scanTo (stop bad : τ → Bool) (e : ε) : Stable (scanTo stop bad e) where
  fail_append := by
    intro xs e' ys h
    induction xs with
    | nil => cases h
    | cons x xs ih =>
      rw [scanTo] at h
      rw [cons_append, scanTo]
      split_ifs at h ⊢ with h1 h2
      · exact h
      · cases hs : scanTo stop bad e xs with
        | more | ok => rw [hs] at h; cases h
        | fail => rw [hs] at h; cases h; rw [ih hs]
  ok_append := by
    intro xs rest zs ys h
    obtain ⟨rfl, h1, x, tl, rfl, h2⟩ := scanTo_eq_ok h
    rw [append_assoc, cons_append]
    exact scanTo_append h2 h1

def symbol : Reader ε τ τ
  | [] => .more
  | x :: xs => .ok x xs

lemma stable_symbol : Stable (symbol : Reader ε τ τ) where
  fail_append := by intro xs e ys h; cases xs <;> cases h
  ok_append := by intro xs rest a ys h; cases xs <;> cases h; rfl

def peek : Reader ε τ τ
  | [] => .more
  | x :: xs => .ok x (x :: xs)

lemma stable_peek : Stable (peek : Reader ε τ τ) where
  fail_append := by intro xs e ys h; cases xs <;> cases h
  ok_append := by intro xs rest a ys h; cases xs <;> cases h; rfl

lemma shrinks_peek : Shrinks (peek : Reader ε τ τ) := by
  intro xs rest a h
  cases xs <;> cases h
  exact suffix_refl _

lemma progress_symbol : Progress (symbol : Reader ε τ τ) where
  shrinks := by intro xs rest a h; cases xs <;> cases h; exact suffix_cons _ _
  length_lt := by intro xs rest a h; cases xs <;> cases h; simp

def count (n : ℕ) : Reader ε τ (List τ) := fun xs =>
  if xs.length < n then .more else .ok (xs.take n) (xs.drop n)

lemma stable_count (n : ℕ) : Stable (count n : Reader ε τ (List τ)) where
  fail_append := by
    intro xs e ys h
    unfold count at h
    split_ifs at h
  ok_append := by
    intro xs rest a ys h
    unfold count at h ⊢
    split_ifs at h with hlt
    cases h
    rw [if_neg (by simp; omega), take_append_of_le_length (by omega),
      drop_append_of_le_length (by omega)]

lemma shrinks_count (n : ℕ) : Shrinks (count n : Reader ε τ (List τ)) := by
  intro xs rest a h
  unfold count at h
  split_ifs at h with hlt
  cases h
  exact drop_suffix n xs

def mapFail {ε' : Type} (f : ε → ε') (r : Reader ε τ α) : Reader ε' τ α := fun xs =>
  match r xs with
  | .more => .more
  | .fail e => .fail (f e)
  | .ok a rest => .ok a rest

section MapFail

variable {ε' : Type} {f : ε → ε'} {r : Reader ε τ α}

lemma mapFail_eq_ok {a : α} (h : r.mapFail f xs = .ok a rest) : r xs = .ok a rest := by
  unfold mapFail at h
  cases hr : r xs with
  | more | fail => rw [hr] at h; cases h
  | ok => rw [hr] at h; cases h; rfl

lemma Stable.mapFail (hr : r.Stable) : (r.mapFail f).Stable where
  fail_append := by
    intro xs e ys h
    unfold Reader.mapFail at h ⊢
    cases hx : r xs with
    | more | ok => rw [hx] at h; cases h
    | fail => rw [hx] at h; cases h; rw [hr.fail_append ys hx]
  ok_append := by
    intro xs rest a ys h
    unfold Reader.mapFail
    rw [hr.ok_append ys (mapFail_eq_ok h)]

lemma Progress.mapFail (hr : r.Progress) : (r.mapFail f).Progress where
  shrinks := fun h => hr.shrinks (mapFail_eq_ok h)
  length_lt := fun h => hr.length_lt (mapFail_eq_ok h)

end MapFail

def iterateFor (body : σ → Reader ε τ (σ ⊕ α)) : ℕ → σ → Reader ε τ α
  | 0, _, _ => .more
  | n + 1, s, xs =>
    match body s xs with
    | .more => .more
    | .fail e => .fail e
    | .ok (.inl s') rest => iterateFor body n s' rest
    | .ok (.inr a) rest => .ok a rest

def iterate (body : σ → Reader ε τ (σ ⊕ α)) (s : σ) : Reader ε τ α :=
  fun xs => iterateFor body (xs.length + 1) s xs

section Loops

variable {body : σ → Reader ε τ (σ ⊕ α)}

lemma iterateFor_eq (hp : ∀ s, (body s).Progress) {n m : ℕ} (s : σ) (xs : List τ)
    (hn : xs.length < n) (hm : xs.length < m) :
    iterateFor body n s xs = iterateFor body m s xs := by
  induction n generalizing m s xs with
  | zero => omega
  | succ n ih =>
    obtain ⟨m, rfl⟩ : ∃ k, m = k + 1 := ⟨m - 1, by omega⟩
    simp only [iterateFor]
    cases hb : body s xs with
    | more | fail => rfl
    | ok r rest =>
      have hlt : rest.length < xs.length := (hp s).length_lt hb
      cases r with
      | inl s' => exact ih s' rest (by omega) (by omega)
      | inr => rfl

lemma iterate_eq (hp : ∀ s, (body s).Progress) (s : σ) (xs : List τ) : iterate body s xs =
      match body s xs with
      | .more => .more
      | .fail e => .fail e
      | .ok (.inl s') rest => iterate body s' rest
      | .ok (.inr a) rest => .ok a rest := by
  unfold iterate
  rw [iterateFor]
  cases hb : body s xs with
  | more | fail => rfl
  | ok r rest =>
    have hlt : rest.length < xs.length := (hp s).length_lt hb
    cases r with
    | inl s' => exact iterateFor_eq hp s' rest hlt (by omega)
    | inr => rfl

lemma iterate_induct (hp : ∀ s, (body s).Progress) {motive : σ → List τ → α → List τ → Prop}
    (hdone : ∀ s xs a rest, body s xs = .ok (.inr a) rest → motive s xs a rest)
    (hstep : ∀ s xs s' mid a rest, body s xs = .ok (.inl s') mid → motive s' mid a rest →
      motive s xs a rest)
    {s : σ} {a : α} (h : iterate body s xs = .ok a rest) : motive s xs a rest := by
  induction hn : xs.length using Nat.strong_induction_on generalizing s xs with
  | _ n ih =>
    rw [iterate_eq hp] at h
    cases hb : body s xs with
    | more | fail => rw [hb] at h; cases h
    | ok r mid =>
      rw [hb] at h
      cases r with
      | inl s' =>
        exact hstep s xs s' mid a rest hb (ih mid.length (hn ▸ (hp s).length_lt hb) h rfl)
      | inr =>
        cases h
        exact hdone s xs _ _ hb

lemma stable_iterate (hp : ∀ s, (body s).Progress) (hs : ∀ s, (body s).Stable) (s : σ) :
    Stable (iterate body s) where
  fail_append := by
    intro xs e ys h
    induction hn : xs.length using Nat.strong_induction_on generalizing s xs with
    | _ n ih =>
      rw [iterate_eq hp] at h
      cases hb : body s xs with
      | more => rw [hb] at h; cases h
      | fail =>
        rw [hb] at h
        cases h
        rw [iterate_eq hp, (hs s).fail_append ys hb]
      | ok r mid =>
        rw [hb] at h
        cases r with
        | inl s' =>
          rw [iterate_eq hp, (hs s).ok_append ys hb]
          exact ih mid.length (hn ▸ (hp s).length_lt hb) s' h rfl
        | inr => cases h
  ok_append := by
    intro xs rest a ys h
    refine iterate_induct hp (motive := fun s xs a rest => iterate body s (xs ++ ys)
      = .ok a (rest ++ ys))
      ?_ ?_ h
    · intro s xs a rest hb
      rw [iterate_eq hp, (hs s).ok_append ys hb]
    · intro s xs s' mid a rest hb ih
      rw [iterate_eq hp, (hs s).ok_append ys hb]
      exact ih

end Loops

end Reader

inductive Verdict (ε : Type)
  | more
  | fail (e : ε)
  | closed
  deriving DecidableEq

structure Drained (ε τ α : Type) where
  items : List α
  verdict : Verdict ε
  rest : List τ

variable {ε τ α : Type}

def drainFor (r : Reader ε τ α) (last : α → Bool) : ℕ → List τ → Drained ε τ α
  | 0, xs => ⟨[], .more, xs⟩
  | n + 1, xs =>
    match r xs with
    | .more => ⟨[], .more, xs⟩
    | .fail e => ⟨[], .fail e, xs⟩
    | .ok a rest =>
      if last a then ⟨[a], .closed, rest⟩
      else
        let d := drainFor r last n rest
        ⟨a :: d.items, d.verdict, d.rest⟩

def drain (r : Reader ε τ α) (last : α → Bool) (xs : List τ) : Drained ε τ α :=
  drainFor r last (xs.length + 1) xs

def feed (r : Reader ε τ α) (last : α → Bool) (d : Drained ε τ α) (piece : List τ) :
    Drained ε τ α :=
  match d.verdict with
  | .more =>
    let d' := drain r last (d.rest ++ piece)
    ⟨d.items ++ d'.items, d'.verdict, d'.rest⟩
  | _ => d

def feedAll (r : Reader ε τ α) (last : α → Bool) (pieces : List (List τ)) : Drained ε τ α :=
  pieces.foldl (feed r last) ⟨[], .more, []⟩

section Drain

variable {r : Reader ε τ α} {last : α → Bool}

lemma drainFor_eq (hp : r.Progress) {n m : ℕ} (xs : List τ) (hn : xs.length < n)
    (hm : xs.length < m) : drainFor r last n xs = drainFor r last m xs := by
  induction n generalizing m xs with
  | zero => omega
  | succ n ih =>
    obtain ⟨m, rfl⟩ : ∃ k, m = k + 1 := ⟨m - 1, by omega⟩
    simp only [drainFor]
    cases hr : r xs with
    | more | fail => rfl
    | ok a rest =>
      have hlt : rest.length < xs.length := hp.length_lt hr
      simp only
      rw [ih (m := m) rest (by omega) (by omega)]

lemma drain_eq (hp : r.Progress) (xs : List τ) : drain r last xs =
      match r xs with
      | .more => ⟨[], .more, xs⟩
      | .fail e => ⟨[], .fail e, xs⟩
      | .ok a rest =>
        if last a then ⟨[a], .closed, rest⟩
        else
          let d := drain r last rest
          ⟨a :: d.items, d.verdict, d.rest⟩ := by
  unfold drain
  rw [drainFor]
  cases hr : r xs with
  | more | fail => rfl
  | ok a rest =>
    have hlt : rest.length < xs.length := hp.length_lt hr
    simp only
    rw [drainFor_eq hp rest hlt (by omega : rest.length < rest.length + 1)]

lemma drain_append (hp : r.Progress) (hs : r.Stable) (xs ys : List τ) :
    (drain r last (xs ++ ys)).items = (feed r last (drain r last xs) ys).items ∧
      (drain r last (xs ++ ys)).verdict = (feed r last (drain r last xs) ys).verdict ∧
      ((drain r last xs).verdict = .more →
        (drain r last (xs ++ ys)).rest = (feed r last (drain r last xs) ys).rest) := by
  induction hn : xs.length using Nat.strong_induction_on generalizing xs with
  | _ n ih =>
    rw [drain_eq hp xs]
    cases hr : r xs with
    | more => simp [feed]
    | fail => simp [feed, drain_eq hp (xs ++ ys), hs.fail_append ys hr]
    | ok a rest =>
      rw [drain_eq hp (xs ++ ys), hs.ok_append ys hr]
      obtain ⟨h1, h2, h3⟩ := ih rest.length (hn ▸ hp.length_lt hr) rest rfl
      by_cases hl : last a
      · simp [feed, hl]
      · simp only [hl, Bool.false_eq_true, if_false, h1, h2]
        cases hv : (drain r last rest).verdict with
        | more =>
          have h4 := h3 hv
          simp only [feed, hv] at h4 ⊢
          simp [h4]
        | fail | closed => simp [feed, hv]

lemma feedAll_eq_drain (hp : r.Progress) (hs : r.Stable) (hnil : r [] = .more)
    (pieces : List (List τ)) : (feedAll r last pieces).items = (drain r last pieces.flatten).items ∧
      (feedAll r last pieces).verdict = (drain r last pieces.flatten).verdict ∧
      ((feedAll r last pieces).verdict = .more →
        (feedAll r last pieces).rest = (drain r last pieces.flatten).rest) := by
  induction pieces using reverseRecOn with
  | nil =>
    have h : drain r last [] = ⟨[], .more, []⟩ := by rw [drain_eq hp, hnil]
    simp [feedAll, h]
  | append_singleton pieces piece ih =>
    obtain ⟨h1, h2, h3⟩ := ih
    have hstep : feedAll r last (pieces ++ [piece])
      = feed r last (feedAll r last pieces) piece := by
      simp [feedAll, foldl_append]
    obtain ⟨h4, h5, h6⟩ := @drain_append _ _ _ r last hp hs pieces.flatten piece
    rw [hstep, flatten_append, flatten_singleton, h4, h5]
    cases hv : (feedAll r last pieces).verdict with
    | more =>
      have hv' := h2 ▸ hv
      have hr := h3 hv
      have h7 := h6 hv'
      simp only [feed, hv, hv'] at h7 ⊢
      simp [h1, hr, h7]
    | fail | closed =>
      have hv' := h2 ▸ hv
      simp [feed, hv, hv', h1]

end Drain

end Incremental
