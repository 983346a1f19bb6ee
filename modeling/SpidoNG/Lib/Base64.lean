import SpidoNG.Lib.Bytes

/-!
# Base64

Three bytes are written as four numbers below 64.
-/

namespace Base64

open List Nat

def sextets : Bytes → List ℕ
  | a :: b :: c :: s =>
    [a.toNat / 4, a.toNat % 4 * 16 + b.toNat / 16, b.toNat % 16 * 4 + c.toNat / 64, c.toNat % 64] ++
      sextets s
  | [a, b] => [a.toNat / 4, a.toNat % 4 * 16 + b.toNat / 16, b.toNat % 16 * 4]
  | [a] => [a.toNat / 4, a.toNat % 4 * 16]
  | [] => []

def regroup (acc bits : ℕ) : List ℕ → Bytes
  | [] => []
  | v :: vs =>
    let acc := (acc * 64 + v) % 2 ^ 32
    if 8 ≤ bits + 6 then UInt8.ofNat (acc / 2 ^ (bits - 2) % 256) :: regroup acc (bits - 2) vs
    else regroup acc (bits + 6) vs

/-- The bits of a group of three bytes, as the encoders cut them. -/
lemma word (a b c : UInt8) {n : ℕ} (hn : n = a.toNat * 2 ^ 16 + b.toNat * 2 ^ 8 + c.toNat) :
    n / 2 ^ 18 % 64 = a.toNat / 4 ∧ n / 2 ^ 12 % 64 = a.toNat % 4 * 16 + b.toNat / 16 ∧
      n / 2 ^ 6 % 64 = b.toNat % 16 * 4 + c.toNat / 64 ∧ n % 64 = c.toNat % 64 := by
  have ha := a.toNat_lt
  have hb := b.toNat_lt
  have hc := c.toNat_lt
  omega

lemma lt_of_mem_sextets {s : Bytes} {v : ℕ} (h : v ∈ sextets s) : v < 64 := by
  fun_induction sextets s with
  | case1 a b c s ih =>
    have ha := a.toNat_lt
    have hb := b.toNat_lt
    have hc := c.toNat_lt
    simp only [mem_append, mem_cons, not_mem_nil, or_false] at h
    rcases h with (rfl | rfl | rfl | rfl) | h
    · omega
    · omega
    · omega
    · omega
    · exact ih h
  | case2 a b =>
    have ha := a.toNat_lt
    have hb := b.toNat_lt
    simp only [mem_cons, not_mem_nil, or_false] at h
    omega
  | case3 a =>
    have ha := a.toNat_lt
    simp only [mem_cons, not_mem_nil, or_false] at h
    omega
  | case4 => cases h

lemma ofNat_eq_of_mod {b : UInt8} {n : ℕ} (h : n % 256 = b.toNat) : UInt8.ofNat (n % 256) = b := by
  rw [h, UInt8.ofNat_toNat]

lemma regroup_sextets (acc : ℕ) (s : Bytes) : regroup acc 0 (sextets s) = s := by
  fun_induction sextets s generalizing acc with
  | case1 a b c s ih =>
    have ha := a.toNat_lt
    have hb := b.toNat_lt
    have hc := c.toNat_lt
    simp only [cons_append, nil_append, regroup, Nat.zero_add, reduceLeDiff, if_false,
      reduceAdd, if_true, reduceSub, reducePow, ih, List.cons.injEq, and_true]
    refine ⟨ofNat_eq_of_mod ?_, ofNat_eq_of_mod ?_, ofNat_eq_of_mod ?_⟩
    · omega
    · omega
    · omega
  | case2 a b =>
    have ha := a.toNat_lt
    have hb := b.toNat_lt
    simp only [regroup, Nat.zero_add, reduceLeDiff, if_false, reduceAdd, if_true,
      reduceSub, reducePow, List.cons.injEq, and_true]
    refine ⟨ofNat_eq_of_mod ?_, ofNat_eq_of_mod ?_⟩
    · omega
    · omega
  | case3 a =>
    have ha := a.toNat_lt
    simp only [regroup, Nat.zero_add, reduceLeDiff, if_false, reduceAdd, if_true,
      reduceSub, reducePow, List.cons.injEq, and_true]
    exact ofNat_eq_of_mod (by omega)
  | case4 => rfl

end Base64
