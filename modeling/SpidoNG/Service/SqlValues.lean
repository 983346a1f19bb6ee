import SpidoNG.Lib.Separated
import SpidoNG.Service.Message

/-!
# Values of columns

The values of the types int2, int4, int8, bool and text, and the two formats in which PostgreSQL
sends and takes them.
-/

namespace SpidoNG.Service

open Bytes Pg List LittleEndian UInt8 Int

lemma foldl_decimal_int (n : ℕ) :
    (decimal n).foldl (fun (n : ℤ) c => n * 10 + (c.toNat - 48 : ℤ)) 0 = n := by
  have hnat (a : ℤ) (c : UInt8) (hc : c ∈ decimal n) :
      a * 10 + (c.toNat - 48 : ℤ) = 10 * a + (c.toNat - 48 : ℕ) := by
    have := le_iff_toNat_le.1 (digit_of_mem_decimal hc).1
    push_cast [show 48 ≤ c.toNat from this]
    ring
  have hcast : (decimal n).foldl (fun (n : ℤ) c => 10 * n + (c.toNat - 48 : ℕ)) ((0 : ℕ) : ℤ) =
      ((decimal n).foldl (fun n c => 10 * n + (c.toNat - 48)) 0 : ℕ) :=
    foldl_hom Nat.cast fun a c => by push_cast; rfl
  rw [foldl_ext _ _ _ hnat, ← Nat.cast_zero, hcast, foldl_decimal]

lemma head?_decimal (n : ℕ) : (decimal n).head? ≠ some 45 ∧ (decimal n).head? ≠ some 43 := by
  refine ⟨fun h => ?_, fun h => ?_⟩
  · exact absurd (digit_of_mem_decimal (mem_of_mem_head? h)).1 (by decide)
  · exact absurd (digit_of_mem_decimal (mem_of_mem_head? h)).1 (by decide)

lemma isNumeric_digits (n : ℕ) :
    (!(decimal n).isEmpty && (decimal n).all fun c => 48 ≤ c && c ≤ 57) := by
  have hne : (decimal n).isEmpty = false := by
    unfold decimal
    simp [Nat.toDigits_ne_nil]
  rw [hne, Bool.not_false, Bool.true_and, all_eq_true]
  intro c hc
  obtain ⟨hlow, hhigh⟩ := digit_of_mem_decimal hc
  simp [hlow, hhigh]

lemma isNumeric_toString (n : ℤ) : isNumeric (toString n) ∧ signedNumber (toString n) = n := by
  by_cases hneg : n < 0
  · rw [toString, if_pos hneg]
    refine ⟨isNumeric_digits n.natAbs, ?_⟩
    show -((decimal n.natAbs).foldl (fun (n : ℤ) c => n * 10 + (c.toNat - 48 : ℤ)) 0) = n
    rw [foldl_decimal_int]
    omega
  · obtain ⟨hminus, hplus⟩ := head?_decimal n.natAbs
    rw [toString, if_neg hneg]
    unfold isNumeric signedNumber
    simp only [hminus, hplus, or_self, if_false]
    refine ⟨isNumeric_digits n.natAbs, ?_⟩
    rw [foldl_decimal_int]
    omega

lemma getLE_concat (bs : Bytes) (c : UInt8) :
    getLE (bs ++ [c]) = getLE bs + 256 ^ bs.length * c.toNat := by
  induction bs with
  | nil => simp [getLE]
  | cons _ _ ih =>
    rw [cons_append, getLE, getLE, ih, length_cons, pow_succ]
    ring

lemma foldl_digits (digits : Bytes) (hdigits : ∀ c ∈ digits, 48 ≤ c ∧ c ≤ 57) (a : ℕ) :
    ∃ n : ℕ, digits.foldl (fun (n : ℤ) c => n * 10 + (c.toNat - 48 : ℤ)) a = n ∧
      a * 10 ^ digits.length ≤ n ∧ n < (a + 1) * 10 ^ digits.length := by
  induction digits generalizing a with
  | nil => exact ⟨a, rfl, by simp, by simp⟩
  | cons c cs ih =>
    obtain ⟨hlow, hhigh⟩ := hdigits c (by simp)
    have hlow' : 48 ≤ c.toNat := le_iff_toNat_le.1 hlow
    have hhigh' : c.toNat ≤ 57 := le_iff_toNat_le.1 hhigh
    obtain ⟨n, hn, hle, hlt⟩ := ih (fun c' hc' => hdigits c' (by simp [hc']))
      (a * 10 + (c.toNat - 48))
    have hpow : 10 ^ (c :: cs).length = 10 * 10 ^ cs.length := by rw [length_cons, pow_succ']
    refine ⟨n, ?_, ?_, ?_⟩
    · rw [foldl_cons, ← hn]
      congr 1
      push_cast [Nat.cast_sub hlow']
      ring
    · calc a * 10 ^ (c :: cs).length = a * 10 * 10 ^ cs.length := by rw [hpow, mul_assoc]
        _ ≤ (a * 10 + (c.toNat - 48)) * 10 ^ cs.length := Nat.mul_le_mul_right _ (by omega)
        _ ≤ n := hle
    · calc n < (a * 10 + (c.toNat - 48) + 1) * 10 ^ cs.length := hlt
        _ ≤ (a + 1) * 10 * 10 ^ cs.length := Nat.mul_le_mul_right _ (by omega)
        _ = (a + 1) * 10 ^ (c :: cs).length := by rw [hpow, mul_assoc]

variable {s : Bytes}

lemma natAbs_signedNumber_lt (hs : isNumeric s) : (signedNumber s).natAbs < 10 ^ s.length := by
  unfold isNumeric at hs
  unfold signedNumber
  dsimp only at hs ⊢
  generalize hd : (if s.head? = some 45 ∨ s.head? = some 43 then s.tail else s) = digits at hs ⊢
  rw [Bool.and_eq_true, all_eq_true] at hs
  have hlen : digits.length ≤ s.length := by
    rw [← hd]
    split_ifs <;> simp
  obtain ⟨n, hn, -, hlt⟩ := foldl_digits digits (fun c hc => by simpa using hs.2 c hc) 0
  have hle : 10 ^ digits.length ≤ 10 ^ s.length := Nat.pow_le_pow_right (by norm_num) hlen
  rw [Nat.cast_zero] at hn
  rw [hn]
  split_ifs <;> omega

lemma head_of_isNumeric (hs : isNumeric s) : ∃ c cs, s = c :: cs ∧ 43 ≤ c.toNat ∧ c.toNat ≤ 57 := by
  cases s with
  | nil => cases hs
  | cons c cs =>
    refine ⟨c, cs, rfl, ?_⟩
    by_cases hsign : c = 45 ∨ c = 43
    · obtain rfl | rfl := hsign <;> decide
    · have hdig : 48 ≤ c ∧ c ≤ 57 := by
        unfold isNumeric at hs
        simp only [head?_cons, Option.some.injEq, hsign, if_false, all_cons,
          Bool.and_eq_true, decide_eq_true_eq] at hs
        exact hs.2.1
      have hlow : 48 ≤ c.toNat := le_iff_toNat_le.1 hdig.1
      exact ⟨by omega, le_iff_toNat_le.1 hdig.2⟩

inductive SqlType
  | int2
  | int4
  | int8
  | bool
  | text
  deriving DecidableEq

inductive SqlValue
  | int (n : ℤ)
  | bool (b : Bool)
  | text (s : Bytes)

namespace SqlType

def oid : SqlType → Oid
  | .int2 => 21
  | .int4 => 23
  | .int8 => 20
  | .bool => 16
  | .text => 25

def width : SqlType → Option ℕ
  | .int2 => some 2
  | .int4 => some 4
  | .int8 => some 8
  | .bool | .text => none

def Has (valid : Bytes → Bool) : SqlType → SqlValue → Prop
  | .int2, .int n => -2 ^ 15 ≤ n ∧ n < 2 ^ 15
  | .int4, .int n => -2 ^ 31 ≤ n ∧ n < 2 ^ 31
  | .int8, .int n => -2 ^ 63 ≤ n ∧ n < 2 ^ 63
  | .bool, .bool _ => True
  | .text, .text s => valid s = true
  | _, _ => False

end SqlType

def SqlValue.out : SqlValue → Bytes
  | .int n => toString n
  | .bool b => if b then str "t" else str "f"
  | .text s => s

def putInt (w : ℕ) (n : ℤ) : Bytes := (putLE w (n % 2 ^ (8 * w)).toNat).reverse

namespace SqlType

def send (t : SqlType) : SqlValue → Bytes
  | .int n => putInt (t.width.getD 0) n
  | .bool b => [if b then 1 else 0]
  | .text s => s

def receive (valid : Bytes → Bool) (t : SqlType) (b : Bytes) : Option SqlValue :=
  match t.width with
  | some w => if b.length = w then some (.int (getBE b)) else none
  | none =>
    match t with
    | .bool => if b.length = 1 then some (.bool (b != [0])) else none
    | _ => if valid b then some (.text b) else none

end SqlType

lemma getBE_cons {c : UInt8} (hhigh : c.toNat ≤ 57) (cs : Bytes) :
    getBE (c :: cs) = getLE (c :: cs).reverse := by
  have hsmall := getLE_lt cs.reverse
  have hmul := Nat.mul_le_mul_left (256 ^ cs.length) hhigh
  rw [length_reverse] at hsmall
  unfold getBE
  rw [reverse_cons, getLE_concat, length_reverse, length_cons, pow_succ]
  generalize 256 ^ cs.length = p at *
  exact bmod_eq_of_le (by omega) (by omega)

lemma le_getBE {c : UInt8} (hlow : 43 ≤ c.toNat) (hhigh : c.toNat ≤ 57) (cs : Bytes) :
    (43 * 256 ^ cs.length : ℕ) ≤ getBE (c :: cs) := by
  have hmul := Nat.mul_le_mul_left (256 ^ cs.length) hlow
  rw [getBE_cons hhigh, reverse_cons, getLE_concat, length_reverse]
  omega

@[simp] lemma length_putInt (w : ℕ) (n : ℤ) : (putInt w n).length = w := by simp [putInt]

lemma getBE_putInt {w : ℕ} {n : ℤ} (hw : 0 < w) (hlow : -2 ^ (8 * w - 1) ≤ n)
    (hhigh : n < 2 ^ (8 * w - 1)) : getBE (putInt w n) = n := by
  have hpow : (256 : ℕ) ^ w = 2 ^ (8 * w) := by rw [pow_mul]; norm_num
  have hcast : ((2 ^ (8 * w) : ℕ) : ℤ) = 2 ^ (8 * w) := by norm_cast
  have hnonneg : 0 ≤ n % 2 ^ (8 * w) := emod_nonneg n (by positivity)
  have hbytes : (getLE (putInt w n).reverse : ℤ) = n % 2 ^ (8 * w) := by
    unfold putInt
    rw [reverse_reverse, getLE_putLE, hpow, natCast_mod, toNat_of_nonneg hnonneg,
      hcast, emod_emod]
  have hdouble : (2 : ℤ) ^ (8 * w) = 2 * 2 ^ (8 * w - 1) := by
    rw [← pow_succ']
    congr 1
    omega
  unfold getBE
  rw [length_putInt, hbytes, hpow, ← hcast, emod_bmod]
  refine bmod_eq_of_le ?_ ?_
  · rw [hcast, hdouble]
    omega
  · rw [hcast, hdouble]
    omega

lemma putInt_ne_of_isNumeric {w : ℕ} (hw : 0 < w) (hbig : 10 ^ w ≤ 43 * 256 ^ (w - 1))
    (hs : isNumeric s) : putInt w (signedNumber s) ≠ s := by
  intro h
  have hlen : s.length = w := by rw [← h, length_putInt]
  have habs := natAbs_signedNumber_lt hs
  rw [hlen] at habs
  have hpow : (2 : ℤ) ^ (8 * w - 1) = 128 * (256 ^ (w - 1) : ℕ) := by
    rw [show 8 * w - 1 = 7 + 8 * (w - 1) by omega, pow_add, pow_mul]
    norm_num
  have hnum : getBE s = signedNumber s := by
    have hget := getBE_putInt (w := w) (n := signedNumber s) hw (by omega) (by omega)
    rwa [h] at hget
  -- as a number, the text is led by a sign or a digit, and so is far greater
  obtain ⟨c, cs, hcons, hlow, hhigh⟩ := head_of_isNumeric hs
  have hlarge := le_getBE hlow hhigh cs
  rw [hcons, length_cons] at hlen
  rw [← hcons, hnum, show cs.length = w - 1 by omega] at hlarge
  omega

namespace SqlType

lemma receive_send {valid : Bytes → Bool} {t : SqlType} {v : SqlValue} (h : t.Has valid v) :
    t.receive valid (t.send v) = some v := by
  cases t <;> cases v <;> simp only [Has] at h
  · simp [receive, send, width, getBE_putInt (w := 2) (by norm_num) h.1 h.2]
  · simp [receive, send, width, getBE_putInt (w := 4) (by norm_num) h.1 h.2]
  · simp [receive, send, width, getBE_putInt (w := 8) (by norm_num) h.1 h.2]
  · next b => cases b <;> rfl
  · simp [receive, send, width, h]

end SqlType

end SpidoNG.Service
