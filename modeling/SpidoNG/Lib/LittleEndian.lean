import SpidoNG.Lib.Bytes

/-!
# Little-endian integers

Unsigned integers of a fixed number of bytes, least significant byte first, and signed ones in two's
complement.
-/

namespace LittleEndian

def putLE : ℕ → ℕ → Bytes
  | 0, _ => []
  | n + 1, v => UInt8.ofNat (v % 256) :: putLE n (v / 256)

def getLE : Bytes → ℕ
  | [] => 0
  | b :: bs => b.toNat + 256 * getLE bs

@[simp] lemma length_putLE (n v : ℕ) : (putLE n v).length = n := by
  induction n generalizing v with
  | zero => rfl
  | succ n ih => simp [putLE, ih]

lemma getLE_putLE (n v : ℕ) : getLE (putLE n v) = v % 256 ^ n := by
  induction n generalizing v with
  | zero => simp [putLE, getLE, Nat.mod_one]
  | succ n ih =>
    have hb : (UInt8.ofNat (v % 256)).toNat = v % 256 := by
      rw [UInt8.toNat_ofNat']
      exact Nat.mod_eq_of_lt (Nat.mod_lt _ (by decide))
    rw [putLE, getLE, ih, hb, pow_succ', Nat.mod_mul]

lemma getLE_putLE_of_lt {n v : ℕ} (h : v < 256 ^ n) : getLE (putLE n v) = v := by
  rw [getLE_putLE, Nat.mod_eq_of_lt h]

lemma getLE_lt (bs : Bytes) : getLE bs < 256 ^ bs.length := by
  induction bs with
  | nil => simp [getLE]
  | cons b =>
    have hb := b.toNat_lt
    rw [getLE, List.length_cons, pow_succ]
    omega

lemma getLE_inj {x y : Bytes} (hlen : x.length = y.length) (h : getLE x = getLE y) : x = y := by
  induction x generalizing y with
  | nil => exact (List.length_eq_zero_iff.1 hlen.symm).symm
  | cons a x ih =>
    cases y with
    | nil => cases hlen
    | cons b y =>
      rw [getLE, getLE] at h
      have ha := a.toNat_lt
      have hb := b.toNat_lt
      obtain rfl : a = b := UInt8.toNat_inj.1 (by omega)
      rw [ih (by simpa using hlen) (by omega)]

def toWord (i : ℤ) : ℕ := (i % 2 ^ 64).toNat

def ofWord (n : ℕ) : ℤ := if n < 2 ^ 63 then n else (n : ℤ) - 2 ^ 64

lemma toWord_lt (i : ℤ) : toWord i < 2 ^ 64 := by
  unfold toWord
  have := Int.emod_lt_of_pos i (show (0 : ℤ) < 2 ^ 64 by norm_num)
  omega

lemma ofWord_toWord {i : ℤ} (h1 : -2 ^ 63 ≤ i) (h2 : i < 2 ^ 63) : ofWord (toWord i) = i := by
  unfold ofWord toWord
  norm_num at *
  split_ifs <;> omega

end LittleEndian
