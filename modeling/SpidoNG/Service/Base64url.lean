import SpidoNG.Jwt.Verifier
import SpidoNG.Pg.Scram
import SpidoNG.Service.Message

/-!
# Base64url in the service and in the verifier

`base64url_encode` of `service_helpers.h`, and the decoders of the handlers and of the verifier.
-/

namespace SpidoNG.Service

open Bytes List Option Base64 Jwt

def base64urlChar (v : ℕ) : UInt8 :=
  UInt8.ofNat (if v < 26 then 65 + v else if v < 52 then 71 + v else if v < 62 then v - 4
    else if v = 62 then 45 else 95)

def base64urlEncode : Bytes → Bytes
  | a :: b :: c :: s =>
    let v := a.toNat * 2 ^ 16 + b.toNat * 2 ^ 8 + c.toNat
    [base64urlChar (v / 2 ^ 18 % 64), base64urlChar (v / 2 ^ 12 % 64),
      base64urlChar (v / 2 ^ 6 % 64),
      base64urlChar (v % 64)] ++ base64urlEncode s
  | [a, b] =>
    let v := a.toNat * 2 ^ 16 + b.toNat * 2 ^ 8
    [base64urlChar (v / 2 ^ 18 % 64), base64urlChar (v / 2 ^ 12 % 64),
      base64urlChar (v / 2 ^ 6 % 64)]
  | [a] =>
    let v := a.toNat * 2 ^ 16
    [base64urlChar (v / 2 ^ 18 % 64), base64urlChar (v / 2 ^ 12 % 64)]
  | [] => []

lemma base64urlEncode_eq (s : Bytes) : base64urlEncode s = (sextets s).map base64urlChar := by
  fun_induction base64urlEncode s with
  | case1 a b c s v ih =>
    obtain ⟨h1, h2, h3, h4⟩ := word a b c (n := v) rfl
    rw [h1, h2, h3, h4, ih]
    rfl
  | case2 a b v =>
    obtain ⟨h1, h2, h3, -⟩ := word a b 0 (Nat.add_zero v).symm
    rw [h1, h2, h3]
    rfl
  | case3 a v =>
    obtain ⟨h1, h2, -⟩ := word a 0 0 (n := v) (by simp [v])
    rw [h1, h2]
    rfl
  | case4 => rfl

lemma b64urlVal_base64urlChar : ∀ v < 64, b64urlVal (base64urlChar v) = some v := by decide

lemma b64urlDecodeFrom_map {vs : List ℕ} (h : ∀ v ∈ vs, v < 64) (buf bits : ℕ) :
    b64urlDecodeFrom buf bits (vs.map base64urlChar) = some (regroup buf bits vs) := by
  induction vs generalizing buf bits with
  | nil => rfl
  | cons v vs ih =>
    have hvs : ∀ w ∈ vs, w < 64 := fun w hw => h w (mem_cons_of_mem _ hw)
    simp only [map_cons, b64urlDecodeFrom, b64urlVal_base64urlChar v (h v mem_cons_self),
      regroup]
    split_ifs
    · rw [ih hvs, map_some]
    · exact ih hvs _ _

lemma b64urlDecode_base64urlEncode (s : Bytes) : b64urlDecode (base64urlEncode s) = some s := by
  rw [base64urlEncode_eq, b64urlDecode, b64urlDecodeFrom_map fun v hv => lt_of_mem_sextets hv,
    regroup_sextets]

lemma exists_of_mem_base64urlEncode {s : Bytes} {c : UInt8} (h : c ∈ base64urlEncode s) :
    ∃ v < 64, base64urlChar v = c := by
  rw [base64urlEncode_eq] at h
  obtain ⟨v, hv, rfl⟩ := mem_map.1 h
  exact ⟨v, lt_of_mem_sextets hv, rfl⟩

lemma dot_not_mem_base64urlEncode (s : Bytes) : dot ∉ base64urlEncode s := by
  intro h
  obtain ⟨v, hv, heq⟩ := exists_of_mem_base64urlEncode h
  exact absurd heq ((by decide : ∀ v < 64, base64urlChar v ≠ dot) v hv)

lemma base64urlDecodeFrom_of_jwt {buf bits : ℕ} {s out : Bytes}
    (h : b64urlDecodeFrom buf bits s = some out) : base64urlDecodeFrom buf bits s = some out := by
  induction s generalizing buf bits out with
  | nil => exact h
  | cons c s ih =>
    rw [b64urlDecodeFrom] at h
    split at h
    · cases h
    · rename_i v hv
      have hval : base64urlVal c = some v := hv
      rw [base64urlDecodeFrom, hval]
      dsimp only at h ⊢
      split_ifs at h ⊢
      · obtain ⟨rest, hrest, rfl⟩ := map_eq_some_iff.1 h
        rw [ih hrest, map_some]
      · exact ih h

lemma base64urlDecode_of_jwt {s d : Bytes} (h : b64urlDecode s = some d) :
    base64urlDecode s = d := by
  rw [base64urlDecode, base64urlDecodeFrom_of_jwt h, getD_some]

/-- **The decoders invert the encoders**, and the service reads what the verifier accepts. -/
theorem base64_inverts (d : Bytes) :
    base64urlDecode (base64urlEncode d) = d ∧ Jwt.b64urlDecode (base64urlEncode d) = some d ∧
      Pg.Scram.b64Decode (Pg.Scram.b64Encode d) = d ∧
      ∀ s out, Jwt.b64urlDecode s = some out → base64urlDecode s = out := by
  have hjwt := b64urlDecode_base64urlEncode d
  exact ⟨base64urlDecode_of_jwt hjwt, hjwt, Pg.Scram.b64Decode_b64Encode d,
    fun _ _ => base64urlDecode_of_jwt⟩

theorem base64_inverts_claims :
    base64urlDecode (str "eyJzdWIiOiI3In0") = str "\x7b\"sub\":\"7\"\x7d" :=
  (base64_inverts []).2.2.2 _ _ (by decide +kernel)

end SpidoNG.Service
