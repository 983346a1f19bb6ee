import Mathlib.Data.List.DropRight
import SpidoNG.Lib.Bytes

/-!
# Texts put together with separators

When a text determines its parts: at the first or the last separator, and at all of them.
-/

namespace Separated

open List

variable {α : Type*} {s : α} {a a' b b' l : List α}

lemma first_inj (ha : s ∉ a) (ha' : s ∉ a')
    (h : a ++ s :: b = a' ++ s :: b') : a = a' ∧ b = b' := by
  induction a generalizing a' with
  | nil =>
    cases a' with
    | nil => simpa using h
    | cons =>
      obtain ⟨rfl, -⟩ := List.cons.inj h
      exact absurd mem_cons_self ha'
  | cons c a ih =>
    cases a' with
    | nil =>
      obtain ⟨rfl, -⟩ := List.cons.inj h
      exact absurd mem_cons_self ha
    | cons =>
      obtain ⟨rfl, htail⟩ := List.cons.inj h
      obtain ⟨rfl, rfl⟩ := ih (fun hs => ha (.tail _ hs)) (fun hs => ha' (.tail _ hs)) htail
      exact ⟨rfl, rfl⟩

lemma exists_of_append_eq {c : List α} (hl : s ∉ l) (h : a ++ s :: b = l ++ c) :
    ∃ a', a = l ++ a' ∧ c = a' ++ s :: b := by
  induction l generalizing a with
  | nil => exact ⟨a, rfl, h.symm⟩
  | cons d l ih =>
    rw [mem_cons, not_or] at hl
    cases a with
    | nil => exact absurd (List.cons.inj h).1 hl.1
    | cons =>
      obtain ⟨rfl, htail⟩ := List.cons.inj h
      obtain ⟨a', rfl, rfl⟩ := ih hl.2 htail
      exact ⟨a', rfl, rfl⟩

lemma last_inj (hb : s ∉ b) (hb' : s ∉ b') (h : a ++ s :: b = a' ++ s :: b') : a = a' ∧ b = b' := by
  have h' : b.reverse ++ s :: a.reverse = b'.reverse ++ s :: a'.reverse := by
    simpa using congrArg List.reverse h
  obtain ⟨h1, h2⟩ := first_inj (by simpa using hb) (by simpa using hb') h'
  exact ⟨reverse_injective h2, reverse_injective h1⟩

lemma intercalate_append_inj {l l' : List (List α)} {t t' : List α} (hl : ∀ a ∈ l, s ∉ a)
    (hl' : ∀ a ∈ l', s ∉ a) (ht : s ∉ t) (ht' : s ∉ t') (hne : l ≠ []) (hne' : l' ≠ [])
    (h : intercalate [s] l ++ t = intercalate [s] l' ++ t') :
    l.length = l'.length ∧ (t = t' → l = l') := by
  induction l generalizing l' with
  | nil => exact absurd rfl hne
  | cons a l ih =>
    cases l' with
    | nil => exact absurd rfl hne'
    | cons a' l' =>
      have ha : s ∉ a := hl a (by simp)
      have ha' : s ∉ a' := hl' a' (by simp)
      cases l with
      | nil =>
        cases l' with
        | nil =>
          refine ⟨rfl, ?_⟩
          rintro rfl
          have : a = a' := by simpa [intercalate] using h
          rw [this]
        | cons b' l' =>
          have hs : s ∈ a ++ t := by
            have h' : a ++ t = a' ++ s :: (intercalate [s] (b' :: l') ++ t') := by
              simpa [intercalate] using h
            rw [h']
            simp
          simp [ha, ht] at hs
      | cons b l =>
        cases l' with
        | nil =>
          have hs : s ∈ a' ++ t' := by
            have h' : a ++ s :: (intercalate [s] (b :: l) ++ t) = a' ++ t' := by
              simpa [intercalate] using h
            rw [← h']
            simp
          simp [ha', ht'] at hs
        | cons b' l' =>
          have h' : a ++ s :: (intercalate [s] (b :: l) ++ t) =
              a' ++ s :: (intercalate [s] (b' :: l') ++ t') := by
            simpa [intercalate] using h
          obtain ⟨rfl, hrest⟩ := first_inj ha ha' h'
          obtain ⟨hlen, heq⟩ := ih (fun x hx => hl x (.tail _ hx)) (fun x hx => hl' x (.tail _ hx))
            (by simp) (by simp) hrest
          refine ⟨by simpa using hlen, ?_⟩
          intro htt
          rw [heq htt]

variable {ls : List (List α)}

lemma mem_intercalate {c : α} (hc : c ≠ s) : c ∈ intercalate [s] ls ↔ ∃ q ∈ ls, c ∈ q := by
  induction ls with
  | nil => simp [intercalate]
  | cons a ls ih =>
    cases ls with
    | nil => simp [intercalate]
    | cons =>
      rw [intercalate_cons_cons, mem_append, mem_append, ih]
      simp [hc]

lemma intercalate_concat (hne : ls ≠ []) (a : List α) :
    intercalate [s] (ls ++ [a]) = intercalate [s] ls ++ s :: a := by
  induction ls with
  | nil => exact absurd rfl hne
  | cons b ls ih =>
    cases ls with
    | nil => simp [intercalate]
    | cons =>
      rw [cons_append, cons_append, intercalate_cons_cons, ← cons_append,
        ih (by simp), intercalate_cons_cons]
      simp

lemma filter_intercalate {p : α → Bool} (hp : p s) (ls : List (List α)) :
    (intercalate [s] ls).filter p = intercalate [s] (ls.map (List.filter p)) := by
  induction ls with
  | nil => rfl
  | cons a ls ih =>
    cases ls with
    | nil => simp [intercalate]
    | cons =>
      rw [intercalate_cons_cons, filter_append, filter_append, ih]
      simp [intercalate_cons_cons, hp]

variable [BEq α] [LawfulBEq α]

lemma mem_splitOn_iff {c : α} (hc : c ≠ s) : (∃ q ∈ l.splitOn s, c ∈ q) ↔ c ∈ l := by
  rw [← mem_intercalate hc, intercalate_splitOn]

lemma rtakeWhile_of_not_mem (hb : s ∉ b) : b.rtakeWhile (· != s) = b := by
  refine rtakeWhile_eq_self_iff.2 fun c hc => ?_
  simpa using ne_of_mem_of_not_mem hc hb

lemma rtakeWhile_append_cons (a : List α) (hb : s ∉ b) : (a ++ s :: b).rtakeWhile (· != s) = b := by
  have hall : ∀ c ∈ b.reverse, (c != s) := by
    intro c hc
    simpa using ne_of_mem_of_not_mem (mem_reverse.1 hc) hb
  unfold rtakeWhile
  rw [reverse_append, reverse_cons, append_assoc, takeWhile_append_of_pos hall]
  simp

lemma not_mem_of_mem_splitOn {q : List α} (h : q ∈ l.splitOn s) : s ∉ q := by
  rw [splitOn_eq_splitOnP] at h
  induction l generalizing q with
  | nil =>
    rw [splitOnP_nil, mem_singleton] at h
    simp [h]
  | cons a l ih =>
    rw [splitOnP_cons_eq_if_modifyHead] at h
    split_ifs at h with ha
    · rcases mem_cons.1 h with rfl | h
      · simp
      · exact ih h
    · obtain ⟨b, t, hbt⟩ := exists_cons_of_ne_nil (splitOnP_ne_nil (· == s) l)
      rw [hbt] at h ih
      rw [modifyHead_cons, mem_cons] at h
      rcases h with rfl | h
      · rw [mem_cons, not_or]
        refine ⟨?_, ih mem_cons_self⟩
        rintro rfl
        simp at ha
      · exact ih (mem_cons_of_mem _ h)

end Separated

namespace Bytes

lemma toNat_of_mem_toDigits {n : ℕ} {c : Char} (h : c ∈ Nat.toDigits 10 n) :
    48 ≤ c.toNat ∧ c.toNat ≤ 57 := by
  have hd := Nat.isDigit_of_mem_toDigits (by decide) (by decide) h
  simp only [Char.isDigit, Bool.and_eq_true, decide_eq_true_eq] at hd
  exact hd

lemma digit_of_mem_decimal {n : ℕ} {b : UInt8} (h : b ∈ decimal n) : 48 ≤ b ∧ b ≤ 57 := by
  obtain ⟨c, hc, rfl⟩ := List.mem_map.1 h
  obtain ⟨h1, h2⟩ := toNat_of_mem_toDigits hc
  have hlt : c.toNat < UInt8.size := lt_of_le_of_lt h2 (by decide)
  rw [UInt8.le_iff_toNat_le, UInt8.le_iff_toNat_le, UInt8.toNat_ofNat_of_lt' hlt]
  exact ⟨h1, h2⟩

lemma map_decimal (n : ℕ) : (decimal n).map (fun b => Char.ofNat b.toNat) = Nat.toDigits 10 n := by
  unfold decimal
  rw [List.map_map]
  conv_rhs => rw [← List.map_id (Nat.toDigits 10 n)]
  refine List.map_congr_left fun c hc => ?_
  have hlt : c.toNat < 256 := lt_of_le_of_lt (toNat_of_mem_toDigits hc).2 (by decide)
  simp [Nat.mod_eq_of_lt hlt]

lemma foldl_decimal (n : ℕ) : (decimal n).foldl (fun n c => 10 * n + (c.toNat - 48)) 0 = n := by
  conv_rhs => rw [← Nat.ofDigitChars_ten_toDigits (n := n)]
  rw [decimal, List.foldl_map, Nat.ofDigitChars]
  refine List.foldl_ext _ _ _ fun a c hc => ?_
  have hlt : c.toNat < 256 := lt_of_le_of_lt (toNat_of_mem_toDigits hc).2 (by decide)
  rw [UInt8.toNat_ofNat_of_lt' hlt]
  rfl

lemma decimal_injective : Function.Injective decimal := by
  intro n m h
  have hdigits : Nat.toDigits 10 n = Nat.toDigits 10 m := by rw [← map_decimal, h, map_decimal]
  rw [← Nat.ofDigitChars_ten_toDigits (n := n), hdigits, Nat.ofDigitChars_ten_toDigits]

end Bytes
