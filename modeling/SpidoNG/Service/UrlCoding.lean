import SpidoNG.Service.Message

/-!
# URL coding

`aws_url_encode` of `files_endpoints.cpp`, and the decoders of the server and of `query_helpers.h`.
-/

namespace SpidoNG.Service

open Bytes List

def unreserved (c : UInt8) : Bool :=
  65 ≤ c && c ≤ 90 || 97 ≤ c && c ≤ 122 || 48 ≤ c && c ≤ 57 || c == 45 || c == 95 ||
    c == 46 || c == 126

def upperHex (n : ℕ) : UInt8 := (str "0123456789ABCDEF").getD n 0

def awsUrlEncode (encodeSlash : Bool) (s : Bytes) : Bytes :=
  s.flatMap fun c =>
    if unreserved c then [c]
    else if c == 47 && !encodeSlash then [c]
    else [37, upperHex (c.toNat / 16), upperHex (c.toNat % 16)]

def urlDecode (inQuery : Bool) : Bytes → Bytes
  | 37 :: h :: l :: s =>
    match hexDigit h, hexDigit l with
    | some a, some b => UInt8.ofNat (a * 16 + b) :: urlDecode inQuery s
    | _, _ => 37 :: urlDecode inQuery (h :: l :: s)
  | c :: s => (if c == 43 && inQuery then 32 else c) :: urlDecode inQuery s
  | [] => []

namespace Request

lemma decode_cons {c : UInt8} {s : Bytes} (hc : ∀ h l u, s = h :: l :: u → c ≠ 37) (plus : Bool) :
    decode plus (c :: s) = decodeChar plus c :: decode plus s := by
  rcases s with _ | ⟨h, _ | ⟨l, u⟩⟩
  · rfl
  · rfl
  · simp [decode, hc h l u rfl]

lemma urlDecode_eq_decode (plus : Bool) (s : Bytes) : urlDecode plus s = decode plus s := by
  fun_induction urlDecode plus s with
  | case1 h l s a b ha hb ih => simp [decode, ha, hb, ih]
  | case2 h l s hnone ih =>
    rw [decode, ih]
    split <;> simp_all
  | case3 c s hc ih =>
    rw [decode_cons fun h l u hs hpercent => hc h l u hpercent hs, ih, decodeChar, Bool.and_comm]
  | case4 => rfl

lemma hexDigit_upperHex : ∀ n < 16, hexDigit (upperHex n) = some n := by decide

/-- **URL coding inverts**, and both decoders read the same. -/
theorem decode_awsUrlEncode (encodeSlash plusToSpace : Bool) (s : Bytes) :
    decode plusToSpace (awsUrlEncode encodeSlash s) = s ∧
      ∀ t, urlDecode plusToSpace t = decode plusToSpace t := by
  refine ⟨?_, urlDecode_eq_decode plusToSpace⟩
  induction s with
  | nil => rfl
  | cons c s ih =>
    have hself (hpercent : c ≠ 37) (hplus : c ≠ 43) (t : Bytes) :
        decode plusToSpace ([c] ++ t) = c :: decode plusToSpace t := by
      rw [singleton_append, decode_cons fun _ _ _ _ => hpercent, decodeChar,
        if_neg (by simp [hplus])]
    rw [awsUrlEncode, flatMap_cons]
    change decode _ (_ ++ awsUrlEncode encodeSlash s) = _
    split_ifs with hunr hslash
    · have hne : c ≠ 37 ∧ c ≠ 43 := by
        constructor <;> rintro rfl <;> exact absurd hunr (by decide)
      rw [hself hne.1 hne.2, ih]
    · obtain rfl : c = 47 := by simp_all
      rw [hself (by decide) (by decide), ih]
    · have hc := c.toNat_lt
      have hsplit : c.toNat / 16 * 16 + c.toNat % 16 = c.toNat := by omega
      simp only [cons_append, nil_append, decode, beq_self_eq_true, if_true, ih, hsplit,
        hexDigit_upperHex _ (show c.toNat / 16 < 16 by omega),
        hexDigit_upperHex _ (Nat.mod_lt c.toNat (by decide)), UInt8.ofNat_toNat]

end Request

end SpidoNG.Service
