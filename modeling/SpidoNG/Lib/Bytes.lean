import Mathlib.Tactic

/-!
# Byte strings

Strings of bytes as a program handles them: lists of `UInt8`, with the bytes of an ASCII literal,
decimal numerals and the width of a machine word.
-/

abbrev Bytes := List UInt8

namespace Bytes

def str (s : String) : Bytes := s.toList.map fun c => UInt8.ofNat c.toNat

instance : Coe String Bytes := ⟨str⟩

def sizeMax : ℕ := 2 ^ 64 - 1

def wrap (n : ℕ) : ℕ := n % 2 ^ 64

lemma wrap_of_lt {n : ℕ} (h : n < 2 ^ 64) : wrap n = n := Nat.mod_eq_of_lt h

def decimal (n : ℕ) : Bytes := (Nat.toDigits 10 n).map fun c => UInt8.ofNat c.toNat

def isDigit (c : UInt8) : Bool := 48 ≤ c && c ≤ 57

/-- The value of a hexadecimal digit. -/
def hexDigit (c : UInt8) : Option ℕ :=
  if 48 ≤ c && c ≤ 57 then some (c.toNat - 48)
  else if 97 ≤ c && c ≤ 102 then some (c.toNat - 87)
  else if 65 ≤ c && c ≤ 70 then some (c.toNat - 55)
  else none

end Bytes
