import Mathlib.Tactic

/-!
# Open addressing

A table of slots, each empty or with an entry.
-/

namespace Probing

open List Option Function

variable {K E : Type}

def Holds (key : E → K) (t : ℕ → Option E) (k : K) (j : ℕ) : Prop := ∃ e, t j = some e ∧ key e = k

instance [DecidableEq K] (key : E → K) (t : ℕ → Option E) (k : K) (j : ℕ) :
    Decidable (Holds key t k j) :=
  match h : t j with
  | none => isFalse fun ⟨_, he, _⟩ => nomatch h.symm.trans he
  | some e =>
    if hk : key e = k then isTrue ⟨e, h, hk⟩
    else isFalse fun ⟨_, he, hk'⟩ => hk (some.inj (h.symm.trans he) ▸ hk')

def find [DecidableEq K] (key : E → K) (t : ℕ → Option E) (k : K) (js : List ℕ) : Option ℕ :=
  js.find? fun j => decide (Holds key t k j)

def walk [DecidableEq K] (key : E → K) (t : ℕ → Option E) (k : K) : List ℕ → Option ℕ
  | [] => none
  | j :: js =>
    if (t j).isNone then none else if Holds key t k j then some j else walk key t k js

structure Placed (key : E → K) (window : K → List ℕ) (t : ℕ → Option E) : Prop where
  mem_window : ∀ {j e}, t j = some e → j ∈ window (key e)
  unique : ∀ {i j e e'}, t i = some e → t j = some e' → key e = key e' → i = j

def Reaches (t : ℕ → Option E) (j : ℕ) : List ℕ → Prop
  | [] => False
  | i :: is => i = j ∨ (t i).isSome ∧ Reaches t j is

def Passes (f j : ℕ) : List ℕ → Prop
  | [] => False
  | i :: is => i ≠ j ∧ (i = f ∨ Passes f j is)

instance decidablePasses (f j : ℕ) : (is : List ℕ) → Decidable (Passes f j is)
  | [] => isFalse id
  | i :: is =>
    have := decidablePasses f j is
    inferInstanceAs (Decidable (i ≠ j ∧ (i = f ∨ Passes f j is)))

variable {key : E → K} {window : K → List ℕ} {t t' : ℕ → Option E} {k : K} {i j f : ℕ}
  {js : List ℕ} {e : E}

lemma Placed.eq_of_holds (h : Placed key window t) (hi : Holds key t k i) (hj : Holds key t k j) :
    i = j := by
  obtain ⟨e, he, hk⟩ := hi
  obtain ⟨e', he', hk'⟩ := hj
  exact h.unique he he' (hk.trans hk'.symm)

lemma Placed.mem_window_of_holds (h : Placed key window t) (hj : Holds key t k j) :
    j ∈ window k := by
  obtain ⟨e, he, rfl⟩ := hj
  exact h.mem_window he

section Searches

variable [DecidableEq K]

lemma holds_of_find (h : find key t k js = some j) : Holds key t k j := by
  have hj : decide (Holds key t k j) :=
    find?_some (p := fun j => decide (Holds key t k j)) h
  exact of_decide_eq_true hj

lemma holds_of_walk (h : walk key t k js = some j) : Holds key t k j := by
  induction js with
  | nil => cases h
  | cons _ _ ih =>
    unfold walk at h
    split_ifs at h with hemp hholds
    · cases h
      exact hholds
    · exact ih h

lemma Placed.find_eq (h : Placed key window t) (hj : Holds key t k j) :
    find key t k (window k) = some j := by
  cases hfind : find key t k (window k) with
  | some => rw [h.eq_of_holds (holds_of_find hfind) hj]
  | none =>
    have hnone := find?_eq_none.1 hfind j (h.mem_window_of_holds hj)
    exact absurd (decide_eq_true hj) hnone

lemma Placed.walk_eq (h : Placed key window t) (hj : Holds key t k j) (hreach : Reaches t j js) :
    walk key t k js = some j := by
  induction js with
  | nil => exact hreach.elim
  | cons i _ ih =>
    unfold walk
    by_cases hi : Holds key t k i
    · rw [h.eq_of_holds hi hj]
      obtain ⟨e, he, hk⟩ := hj
      rw [he, if_neg (by simp), if_pos ⟨e, he, hk⟩]
    · rcases hreach with rfl | ⟨hsome, hreach⟩
      · exact absurd hj hi
      · rw [if_neg (by simp [isSome_iff_ne_none.1 hsome]), if_neg hi, ih hreach]

lemma find_update (hk : key e = k)
    (h : find key t k js = some j ∨ find key t k js = none ∧ j ∈ js) :
    find key (update t j (some e)) k js = some j := by
  induction js with
  | nil =>
    rcases h with h | ⟨-, h⟩
    · cases h
    · cases h
  | cons a js ih =>
    rw [find, find?_cons] at h ⊢
    by_cases ha : a = j
    · subst ha
      rw [decide_eq_true (show Holds key (update t a (some e)) k a from ⟨e, update_self .., hk⟩)]
    · have hsame : Holds key (update t j (some e)) k a ↔ Holds key t k a := by
        rw [Holds, update_of_ne ha, Holds]
      rw [decide_eq_decide.2 hsame]
      cases hdec : decide (Holds key t k a) with
      | true =>
        rw [hdec] at h
        rcases h with h | ⟨h, -⟩
        · exact absurd (some.inj h) ha
        · cases h
      | false =>
        rw [hdec] at h
        exact ih (h.imp_right fun ⟨hnone, hmem⟩ =>
          ⟨hnone, (mem_cons.1 hmem).resolve_left (Ne.symm ha)⟩)

lemma mem_of_walk (h : walk key t k js = some j) : j ∈ js := by
  induction js with
  | nil => cases h
  | cons a _ ih =>
    unfold walk at h
    split_ifs at h
    · cases h
      exact mem_cons_self
    · exact mem_cons_of_mem a (ih h)

lemma walk_update (hk : key e = k) (habsent : ∀ i ∈ js, ¬ Holds key t k i) (h : Reaches t j js) :
    walk key (update t j (some e)) k js = some j := by
  induction js with
  | nil => exact h.elim
  | cons a js ih =>
    unfold walk
    by_cases ha : a = j
    · subst ha
      rw [update_self, if_neg (by simp), if_pos ⟨e, update_self .., hk⟩]
    · obtain ⟨hsome, h⟩ := h.resolve_left ha
      have hother : ¬ Holds key (update t j (some e)) k a := by
        rw [Holds, update_of_ne ha]
        exact habsent a mem_cons_self
      rw [update_of_ne ha, if_neg (by simp [isSome_iff_ne_none.1 hsome]), if_neg hother]
      exact ih (fun i hi => habsent i (mem_cons_of_mem a hi)) h

/-- An entry that replaces another one of its key changes no lookup. -/
lemma walk_update_of_holds (hk : key e = k) (hj : Holds key t k j) (js : List ℕ) :
    walk key (update t j (some e)) k js = walk key t k js := by
  obtain ⟨e', he', hk'⟩ := hj
  have hsame (a : ℕ) : (update t j (some e) a).isNone = (t a).isNone ∧
      (Holds key (update t j (some e)) k a ↔ Holds key t k a) := by
    by_cases ha : a = j
    · subst ha
      refine ⟨by simp [he'], iff_of_true ⟨e, update_self .., hk⟩ ⟨e', he', hk'⟩⟩
    · simp [Holds, update_of_ne ha]
  induction js with
  | nil => rfl
  | cons a js ih => simp only [walk, (hsame a).1, (hsame a).2, ih]

end Searches

lemma Placed.fill (h : Placed key window t) (hmem : j ∈ window (key e))
    (hfree : ∀ i, Holds key t (key e) i → i = j) : Placed key window (update t j (some e)) := by
  constructor
  · intro i x hx
    by_cases hi : i = j
    · subst hi
      rw [update_self] at hx
      cases hx
      exact hmem
    · rw [update_of_ne hi] at hx
      exact h.mem_window hx
  · intro a b x y hx hy hkey
    by_cases ha : a = j <;> by_cases hb : b = j
    · rw [ha, hb]
    · subst ha
      rw [update_self] at hx
      rw [update_of_ne hb] at hy
      cases hx
      exact (hfree b ⟨y, hy, hkey.symm⟩).symm
    · subst hb
      rw [update_self] at hy
      rw [update_of_ne ha] at hx
      cases hy
      exact hfree a ⟨x, hx, hkey⟩
    · rw [update_of_ne ha] at hx
      rw [update_of_ne hb] at hy
      exact h.unique hx hy hkey

lemma Placed.mono (h : Placed key window t) (hsub : ∀ {j e}, t' j = some e → t j = some e) :
    Placed key window t' :=
  ⟨fun he => h.mem_window (hsub he), fun he he' => h.unique (hsub he) (hsub he')⟩

lemma Reaches.mono (hsome : ∀ i, (t i).isSome → (t' i).isSome) (h : Reaches t j js) :
    Reaches t' j js := by
  induction js with
  | nil => exact h
  | cons i _ ih =>
    rcases h with h | ⟨hi, h⟩
    · exact .inl h
    · exact .inr ⟨hsome i hi, ih h⟩

/-- Every entry is found by a search that ends at an empty slot. -/
def Reached (key : E → K) (window : K → List ℕ) (t : ℕ → Option E) : Prop :=
  ∀ j e, t j = some e → Reaches t j (window (key e))

lemma isSome_update (e : E) (h : (t i).isSome) : (update t j (some e) i).isSome := by
  by_cases hi : i = j
  · rw [hi, update_self]
    rfl
  · rwa [update_of_ne hi]

lemma Reached.update (h : Reached key window t) (hj : Reaches t j (window (key e))) :
    Reached key window (Function.update t j (some e)) := by
  intro i x hx
  by_cases hi : i = j
  · subst hi
    rw [update_self] at hx
    cases hx
    exact hj.mono fun a ha => isSome_update e ha
  · rw [update_of_ne hi] at hx
    exact (h i x hx).mono fun a ha => isSome_update e ha

lemma Reaches.of_passes (hsome : ∀ i, (t i).isSome → Passes i j js → (t' i).isSome)
    (h : Reaches t j js) : Reaches t' j js := by
  induction js with
  | nil => exact h
  | cons i _ ih =>
    by_cases hij : i = j
    · exact .inl hij
    · rcases h with h | ⟨hi, h⟩
      · exact .inl h
      · exact .inr ⟨hsome i hi ⟨hij, .inl rfl⟩, ih (fun i' hi' hp => hsome i' hi' ⟨hij, .inr hp⟩) h⟩

lemma reaches_of_forall (hj : j ∈ js) (hsome : ∀ i ∈ js, (t i).isSome) : Reaches t j js := by
  induction js with
  | nil => cases hj
  | cons i _ ih =>
    rcases mem_cons.1 hj with rfl | hj
    · exact .inl rfl
    · exact .inr ⟨hsome i mem_cons_self, ih hj fun i' hi' => hsome i' (mem_cons_of_mem _ hi')⟩

lemma reaches_of_find? {p : ℕ → Bool} (hp : ∀ i, p i = false → (t i).isSome)
    (h : js.find? p = some j) : Reaches t j js := by
  induction js with
  | nil => cases h
  | cons _ _ ih =>
    rw [find?_cons] at h
    split at h
    · exact .inl (some.inj h)
    case h_2 hi => exact .inr ⟨hp _ hi, ih h⟩

/-- A search for what a reached slot has ends there, or at another slot that is not empty. -/
lemma Reaches.find? {p : ℕ → Bool} (h : Reaches t i js) (hi : p i)
    (hfind : js.find? p = some j) : i = j ∨ (t j).isSome := by
  induction js with
  | nil => cases hfind
  | cons a _ ih =>
    rw [find?_cons] at hfind
    split at hfind
    · cases hfind
      exact h.imp Eq.symm And.left
    case h_2 ha =>
      rcases h with rfl | ⟨-, h⟩
      · cases ha.symm.trans hi
      · exact ih h hfind

end Probing
