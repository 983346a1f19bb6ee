import Mathlib.Tactic

/-!
# Recently used keys

From the uses of keys, the last one in front, the keys in the order of their latest uses.
-/

namespace Recency

open List

variable {α : Type} [BEq α]

def mru : List α → List α
  | [] => []
  | k :: used => k :: (mru used).filter (· != k)

variable [LawfulBEq α] {k : α} {l used : List α} {n : ℕ}

lemma nodup_mru (used : List α) : (mru used).Nodup := by
  induction used with
  | nil => exact nodup_nil
  | cons k used ih => exact nodup_cons.2 ⟨by simp, ih.filter _⟩

lemma filter_bne_of_not_mem (h : k ∉ l) : l.filter (· != k) = l :=
  filter_eq_self.2 fun a ha => by simpa using ne_of_mem_of_not_mem ha h

lemma take_filter_of_mem (hl : l.Nodup) (h : k ∈ l.take (n + 1)) :
    (l.filter (· != k)).take n = (l.take (n + 1)).filter (· != k) := by
  induction l generalizing n with
  | nil => simp
  | cons a l ih =>
    obtain ⟨ha, hl⟩ := nodup_cons.1 hl
    by_cases hak : a = k
    · subst hak
      have hrest : a ∉ l.take n := fun hmem => ha (mem_of_mem_take hmem)
      simp only [take_succ_cons, bne_self_eq_false, Bool.false_eq_true, not_false_eq_true,
        filter_cons_of_neg]
      rw [filter_bne_of_not_mem ha, filter_bne_of_not_mem hrest]
    · have hmem : k ∈ l.take n := by simpa [Ne.symm hak] using h
      cases n with
      | zero => simp at hmem
      | succ n => simp [hak, ih hl hmem]

lemma take_filter_of_not_mem (h : k ∉ l.take (n + 1)) : (l.filter (· != k)).take n = l.take n := by
  induction l generalizing n with
  | nil => simp
  | cons a l ih =>
    simp only [take_succ_cons, mem_cons, not_or] at h
    cases n with
    | zero => simp
    | succ n => simp [Ne.symm h.1, ih h.2]

lemma take_mru_of_mem (h : k ∈ (mru used).take n) :
    (mru (k :: used)).take n = k :: ((mru used).take n).filter (· != k) := by
  cases n with
  | zero => simp at h
  | succ n => simp only [mru, take_succ_cons, take_filter_of_mem (nodup_mru used) h]

lemma take_mru_of_not_mem (h : k ∉ (mru used).take n) (hn : 0 < n) :
    (mru (k :: used)).take n = k :: (if n ≤ ((mru used).take n).length then
      ((mru used).take n).dropLast else (mru used).take n) := by
  obtain ⟨n, rfl⟩ := Nat.exists_eq_add_of_lt hn
  simp only [Nat.zero_add] at h ⊢
  simp only [mru, take_succ_cons, take_filter_of_not_mem h, List.cons.injEq, true_and]
  simp only [length_take]
  split_ifs with hfull
  · rw [dropLast_eq_take, take_take, length_take]
    congr 1
    omega
  · rw [take_of_length_le (by omega), take_of_length_le (by omega)]

end Recency
