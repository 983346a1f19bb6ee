import SpidoNG.Jwt.Reading

/-!
# What an accepted token says

`JwtVerifier::verify` checks the signature of a token and some claims of its payload.

* `Genuine` is what a valid payload should say at a time, and `Accepts` that a verifier with an
  empty cache accepts the token only then.
* `verifyFresh_eq_valid_iff` is what the verifier checks.
* `accepts_of_readable` proves `Accepts` for payloads that are written as the verifier reads them,
  and `not_accepts` is a token without the required expiry.
-/

namespace SpidoNG.Jwt

open Bytes JsonText List Option JwtVerifier

variable {K : Type}

def Signed (X : Crypto K) (v : JwtVerifier K) (p : Parts) : Prop :=
  ∃ sig, b64urlDecode p.signature = some sig ∧
    if v.cfg.algorithm = str "HS256" then sig = X.hmacSha256 v.cfg.secret p.signed
    else X.digestVerify v.pkey p.signed sig = some true

structure Genuine (cfg : JwtConfig) (now : ℕ) (json : Bytes) : Prop where
  required : ∀ name ∈ cfg.requiredClaims, ∃ val, Member json name val
  exp : ∀ val, Member json (str "exp") val → ∃ n, val.int = some n ∧ (now : ℤ) < n
  nbf : ∀ val, Member json (str "nbf") val → ∃ n, val.int = some n ∧ n ≤ now + cfg.leewaySeconds
  iss : cfg.issuer ≠ [] → (∃ val, Member json (str "iss") val) ∧
    ∀ val, Member json (str "iss") val → val = .string cfg.issuer
  aud : cfg.audience ≠ [] → (∃ val, Member json (str "aud") val) ∧
    ∀ val, Member json (str "aud") val → val = .string cfg.audience

def Accepts (X : Crypto K) (cfg : JwtConfig) (token : Bytes) : Prop :=
  ∀ now, ((init X cfg).2.verify X now token).1.1 = .valid →
    ∃ p json, splitToken token = some p ∧ Signed X (init X cfg).2 p ∧
      b64urlDecode p.payload = some json ∧ Genuine cfg now json

/-- The texts that the verifier finds for the claims pass those checks that do not depend on the
time. -/
structure Found (cfg : JwtConfig) (json : Bytes) : Prop where
  iss : cfg.issuer ≠ [] → getClaim json (str "iss") = cfg.issuer
  aud : cfg.audience ≠ [] → getClaim json (str "aud") = cfg.audience
  required : ∀ name ∈ cfg.requiredClaims, name ∉ skippedClaims → getClaim json name ≠ []

def InTime (cfg : JwtConfig) (now : ℕ) (json : Bytes) : Prop :=
  (claimSeconds json (str "exp") = 0 ∨ (now : ℤ) < claimSeconds json (str "exp")) ∧
    claimSeconds json (str "nbf") ≤ now + cfg.leewaySeconds

/-- The names of the claims that the verifier looks for. -/
def looked (cfg : JwtConfig) : List Bytes := skippedClaims ++ cfg.requiredClaims

/-- The payload is written as the verifier reads it: without escapes; each name that it looks for is
quoted once at most, and as the name of a member; the members `exp` and `nbf` are runs of digits
that fit into 64 bits, `exp` not 0; configured issuers and audiences are strings; and the required
claims that the verifier skips are there. -/
structure Readable (cfg : JwtConfig) (json : Bytes) : Prop where
  clean : backslash ∉ json
  once : ∀ name ∈ looked cfg, (occurrences (quoted name) json).length ≤ 1
  named : ∀ name ∈ looked cfg, occurrences (quoted name) json ≠ [] → ∃ val, Member json name val
  exp : ∀ b ∈ occurrences (quoted (str "exp")) json, ∃ ds, Numeral b ds ∧
    (∀ c ∈ ds, isDigit c = true) ∧ 0 < valueFrom 0 ds ∧ valueFrom 0 ds < 2 ^ 63
  nbf : ∀ b ∈ occurrences (quoted (str "nbf")) json, ∃ ds, Numeral b ds ∧
    (∀ c ∈ ds, isDigit c = true) ∧ valueFrom 0 ds < 2 ^ 63
  iss : cfg.issuer ≠ [] → ∀ b ∈ occurrences (quoted (str "iss")) json, Quoted b
  aud : cfg.audience ≠ [] → ∀ b ∈ occurrences (quoted (str "aud")) json, Quoted b
  skipped : ∀ name ∈ cfg.requiredClaims, name ∈ skippedClaims →
    occurrences (quoted name) json ≠ []

variable {a s token : Bytes}

lemma bne_of_not_mem (h : dot ∉ a) : ∀ c ∈ a, (c != dot) :=
  fun _ hc => bne_iff_ne.2 (ne_of_mem_of_not_mem hc h)

lemma takeWhile_ne_append (h : dot ∉ a) : (a ++ dot :: s).takeWhile (· != dot) = a := by
  rw [takeWhile_append_of_pos (bne_of_not_mem h), takeWhile_cons_of_neg (by simp), append_nil]

lemma dropWhile_ne_append (h : dot ∉ a) : (a ++ dot :: s).dropWhile (· != dot) = dot :: s := by
  rw [dropWhile_append_of_pos (bne_of_not_mem h), dropWhile_cons_of_neg (by simp)]

lemma eq_append_of_dropWhile {rest : Bytes} {c : UInt8} (h : s.dropWhile (· != dot) = c :: rest) :
    s = s.takeWhile (· != dot) ++ dot :: rest ∧ dot ∉ s.takeWhile (· != dot) := by
  have hc : c = dot := by
    have hhead := head?_dropWhile_not (· != dot) s
    rw [h] at hhead
    simpa using hhead
  refine ⟨?_, fun hmem => ?_⟩
  · conv_lhs => rw [← takeWhile_append_dropWhile (p := (· != dot)) (l := s), h, hc]
  · have := mem_takeWhile_imp hmem
    simp at this

lemma splitToken_eq_some_iff {p : Parts} : splitToken token = some p ↔
    token = p.header ++ dot :: (p.payload ++ dot :: p.signature) ∧ dot ∉ p.header ∧
      dot ∉ p.payload := by
  constructor
  · intro h
    unfold splitToken at h
    split at h
    · cases h
    · rename_i hfirst
      split at h
      · cases h
      · rename_i hsecond
        cases h
        obtain ⟨htoken, hheader⟩ := eq_append_of_dropWhile hfirst
        obtain ⟨hrest, hpay⟩ := eq_append_of_dropWhile hsecond
        refine ⟨?_, hheader, hpay⟩
        rw [← hrest]
        exact htoken
  · rintro ⟨rfl, hheader, hpay⟩
    unfold splitToken
    rw [dropWhile_ne_append hheader]
    dsimp only
    rw [dropWhile_ne_append hpay]
    dsimp only
    rw [takeWhile_ne_append hheader, takeWhile_ne_append hpay]

@[simp] lemma verdict_fst (exp : ℤ) (status : JwtStatus) : (verdict exp status).1 = status := rfl

variable {cfg : JwtConfig} {json : Bytes} {now : ℕ} {X : Crypto K} {v : JwtVerifier K}

lemma missing_iff : (cfg.requiredClaims.any fun name =>
    !skippedClaims.contains name && (getClaim json name).isEmpty) ↔
      ∃ name ∈ cfg.requiredClaims, name ∉ skippedClaims ∧ getClaim json name = [] := by
  simp

lemma claimsStatus_eq_valid_iff :
    claimsStatus cfg now json = .valid ↔ Found cfg json ∧ InTime cfg now json := by
  unfold claimsStatus
  split_ifs with hexp hnbf hiss haud hreq
  · refine iff_of_false nofun ?_
    rintro ⟨-, hzero | hlt, -⟩
    · exact absurd hzero hexp.1
    · exact absurd hexp.2 (not_le.2 hlt)
  · refine iff_of_false nofun ?_
    rintro ⟨-, -, hle⟩
    omega
  · refine iff_of_false nofun ?_
    rintro ⟨hfound, -⟩
    exact absurd (hfound.iss hiss.1) hiss.2
  · refine iff_of_false nofun ?_
    rintro ⟨hfound, -⟩
    exact absurd (hfound.aud haud.1) haud.2
  · refine iff_of_false nofun ?_
    rintro ⟨hfound, -⟩
    obtain ⟨name, hname, hskip, hemp⟩ := missing_iff.1 hreq
    exact absurd hemp (hfound.required name hname hskip)
  · refine ⟨fun _ => ⟨⟨fun h => ?_, fun h => ?_, fun name hname hskip hemp => ?_⟩, ?_, by omega⟩,
      fun _ => rfl⟩
    · by_contra hne
      exact hiss ⟨h, hne⟩
    · by_contra hne
      exact haud ⟨h, hne⟩
    · exact hreq (missing_iff.2 ⟨name, hname, hskip, hemp⟩)
    · by_contra hne
      rw [not_or, not_lt] at hne
      exact hexp hne

lemma checkSignature_eq_true_iff {msg sig : Bytes} : v.checkSignature X msg sig = some true ↔
      if v.cfg.algorithm = str "HS256" then sig = X.hmacSha256 v.cfg.secret msg
      else X.digestVerify v.pkey msg sig = some true := by
  unfold checkSignature
  split_ifs
  · simp only [some.injEq, Bool.and_eq_true, beq_iff_eq]
    constructor
    · rintro ⟨-, rfl⟩
      rfl
    · rintro rfl
      exact ⟨⟨X.hmac_length _ _, X.hmac_length _ _⟩, rfl⟩
  · rfl

lemma verifyFresh_eq_valid_iff :
    (v.verifyFresh X now token).1 = .valid ↔ ∃ p json, splitToken token = some p ∧ Signed X v p ∧
      b64urlDecode p.payload = some json ∧ Found v.cfg json ∧ InTime v.cfg now json := by
  unfold verifyFresh
  split
  · rename_i hsplit
    simp [hsplit]
  · rename_i p hsplit
    simp only [hsplit, some.injEq, exists_and_left, exists_eq_left']
    split
    · rename_i hsig
      simp [Signed, hsig]
    · rename_i sig hsig
      have hsigned : Signed X v p ↔ v.checkSignature X p.signed sig = some true := by
        rw [checkSignature_eq_true_iff, Signed, hsig]
        simp
      rw [hsigned]
      split
      · rename_i hcheck
        simp [hcheck]
      · rename_i hcheck
        simp [hcheck]
      · rename_i hcheck
        simp only [hcheck, true_and]
        split
        · rename_i hjson
          simp [hjson]
        · rename_i json hjson
          simp [hjson, checkClaims, claimsStatus_eq_valid_iff]

lemma verify_of_empty (h : v.cache.lru = []) (now : ℕ)
    (token : Bytes) : (v.verify X now token).1 = v.verifyFresh X now token := by
  simp [verify, JwtCache.lookup, JwtCache.find, h]

lemma exists_init_eq (X : Crypto K) (cfg : JwtConfig) : ∃ key : Option K,
    (init X cfg).2 = { cfg := cfg, cache := .make cfg.cacheSize, pkey := key } := by
  unfold init
  split_ifs
  · exact ⟨_, rfl⟩
  · split <;> exact ⟨_, rfl⟩
  · exact ⟨_, rfl⟩
  · exact ⟨_, rfl⟩

lemma init_cfg (X : Crypto K) (cfg : JwtConfig) : (init X cfg).2.cfg = cfg := by
  obtain ⟨key, h⟩ := exists_init_eq X cfg
  rw [h]

lemma init_lru (X : Crypto K) (cfg : JwtConfig) : (init X cfg).2.cache.lru = [] := by
  obtain ⟨key, h⟩ := exists_init_eq X cfg
  rw [h]
  rfl

namespace Readable

variable {name : Bytes} {val : Value} (h : Readable cfg json)
include h

/-- The verifier reads the member, wherever it stands. -/
lemma first_of_member (hname : name ∈ looked cfg) (hval : Member json name val) :
    ∃ b ∈ occurrences (quoted name) json, (occurrences (quoted name) json).head? = some b ∧
      Holds b val := by
  obtain ⟨b, hb, hholds⟩ := exists_holds h.clean hval
  have honce := h.once name hname
  obtain ⟨b', hb'⟩ := length_eq_one_iff.1 (le_antisymm honce (length_pos_of_mem hb))
  rw [hb', mem_singleton] at hb
  subst hb
  exact ⟨b, by simp [hb'], by simp [hb'], hholds⟩

lemma member_of_getClaim (hname : name ∈ looked cfg) (hclaim : getClaim json name ≠ []) :
    ∃ val, Member json name val := by
  obtain ⟨b, hb⟩ := exists_occurrence_of_getClaim hclaim
  refine h.named name hname fun hnil => ?_
  rw [hnil] at hb
  cases hb

lemma seconds_of_member (hname : name ∈ looked cfg) (hval : Member json name val)
    (hds : ∀ b ∈ occurrences (quoted name) json, ∃ ds, Numeral b ds ∧
      (∀ c ∈ ds, isDigit c = true) ∧ valueFrom 0 ds < 2 ^ 63) :
    val.int = some (claimSeconds json name) := by
  obtain ⟨b, hb, hfirst, hholds⟩ := h.first_of_member hname hval
  obtain ⟨ds, hnumeral, hdigits, hlt⟩ := hds b hb
  have hhead : ds.head? ≠ some 45 := by
    intro hhead
    exact absurd (hdigits 45 (mem_of_mem_head? hhead)) (by decide)
  have hint : val.int = some (valueFrom 0 ds : ℤ) := by
    rw [hholds.number hnumeral, Value.int, if_neg hhead, if_neg hhead,
      if_pos (all_eq_true.2 hdigits)]
    rfl
  rw [hint, claimSeconds, getClaim_of_numeral hfirst hnumeral]
  exact congrArg some (secondsFrom_of_digits hdigits 0 hlt).symm

lemma string_of_member (hname : name ∈ looked cfg) (hval : Member json name val)
    (hquoted : ∀ b ∈ occurrences (quoted name) json, Quoted b) :
    val = .string (getClaim json name) := by
  obtain ⟨b, hb, hfirst, hholds⟩ := h.first_of_member hname hval
  obtain ⟨x, raw, w, w', r, rfl, hchars, hb', hw, hw'⟩ := hholds.string (hquoted b hb)
  have hback : backslash ∉ raw := by
    intro hmem
    obtain ⟨a, ha⟩ := exists_of_mem_occurrences hb
    refine h.clean ?_
    rw [ha, hb']
    simp [hmem]
  obtain ⟨rfl, hquote⟩ := hchars.eq_raw hback
  rw [getClaim_of_string hfirst hb' hw hw' hquote hback]

/-- A claim that is checked for the text `x` is a member with that text. -/
lemma string_of_getClaim {x : Bytes} (hname : name ∈ looked cfg) (hx : x ≠ [])
    (hclaim : getClaim json name = x) (hquoted : ∀ b ∈ occurrences (quoted name) json, Quoted b) :
    (∃ val, Member json name val) ∧ ∀ val, Member json name val → val = .string x := by
  refine ⟨h.member_of_getClaim hname (hclaim ▸ hx), fun val hval => ?_⟩
  rw [← hclaim]
  exact h.string_of_member hname hval hquoted

lemma genuine (hfound : Found cfg json) (htime : InTime cfg now json) : Genuine cfg now json where
  required := by
    intro name hname
    have hlooked : name ∈ looked cfg := mem_append_right _ hname
    by_cases hskip : name ∈ skippedClaims
    · exact h.named name hlooked (h.skipped name hname hskip)
    · exact h.member_of_getClaim hlooked (hfound.required name hname hskip)
  exp := by
    intro val hval
    obtain ⟨b, hb, hfirst, -⟩ := h.first_of_member (mem_append_left _ (by decide)) hval
    obtain ⟨ds, hnumeral, hdigits, hpos, hlt⟩ := h.exp b hb
    have hseconds : claimSeconds json (str "exp") = valueFrom 0 ds := by
      rw [claimSeconds, getClaim_of_numeral hfirst hnumeral]
      exact secondsFrom_of_digits hdigits 0 hlt
    refine ⟨_, h.seconds_of_member (mem_append_left _ (by decide)) hval fun b hb => ?_,
      htime.1.resolve_left (by omega)⟩
    obtain ⟨ds, hnumeral, hdigits, -, hlt⟩ := h.exp b hb
    exact ⟨ds, hnumeral, hdigits, hlt⟩
  nbf val hval := ⟨_, h.seconds_of_member (mem_append_left _ (by decide)) hval h.nbf, htime.2⟩
  iss hiss := h.string_of_getClaim (mem_append_left _ (by decide)) hiss (hfound.iss hiss)
    (h.iss hiss)
  aud haud := h.string_of_getClaim (mem_append_left _ (by decide)) haud (hfound.aud haud)
    (h.aud haud)

end Readable

def toyCrypto : Crypto Unit where
  sha256 := id
  hmacSha256 _ _ := replicate 32 0
  readPublicKey _ := none
  digestVerify _ _ _ := some false
  hmac_length _ _ := by simp
  null_key _ _ := by simp

def strictConfig : JwtConfig :=
  { secret := str "k", issuer := str "a", requiredClaims := [str "exp", str "sub"] }

def signedToken : Bytes := str
  "e30.eyJpc3MiOiJhIiwiZXhwIjoyLCJzdWIiOiJ4In0.AAAAAAAAAAAAAAAAAAAAAAAAAAAAAAAAAAAAAAAAAAA"

def signedPayload : Bytes := str "\x7b\"iss\":\"a\",\"exp\":2,\"sub\":\"x\"\x7d"

lemma members_signedPayload : Members signedPayload [⟨str "iss", .string (str "a"), str "\"a\""⟩,
    ⟨str "exp", .number (str "2"), str "2"⟩, ⟨str "sub", .string (str "x"), str "\"x\""⟩] := by
  have hws := ws_nil
  have hchars : ∀ {x : Bytes}, (∀ c ∈ x, 32 ≤ c ∧ c ≠ 34 ∧ c ≠ 92) → Chars x x := Chars.self
  have htwo : Number (str "2") :=
    ⟨[], str "2", [], [], rfl, .inl rfl, .inr (by unfold Digits; decide +kernel), .inl rfl,
      .inl rfl⟩
  refine ⟨[], _, [], hws, .inl (.member hws (hchars (x := str "iss") (by decide +kernel)) hws hws
    (.string (hchars (x := str "a") (by decide +kernel))) hws
    (.member hws (hchars (x := str "exp") (by decide +kernel)) hws hws (.number htwo) hws
    (.lastMember hws (hchars (x := str "sub") (by decide +kernel)) hws hws
    (.string (hchars (x := str "x") (by decide +kernel))) hws))), hws, by decide +kernel⟩

lemma readable_signedPayload : Readable strictConfig signedPayload where
  clean := by decide +kernel
  once := by decide +kernel
  named := by
    have hthree : ∀ name ∈ looked strictConfig, occurrences (quoted name) signedPayload ≠ [] →
        name = str "iss" ∨ name = str "exp" ∨ name = str "sub" := by decide +kernel
    intro name hname hne
    rcases hthree name hname hne with rfl | rfl | rfl
    · exact ⟨_, _, _, members_signedPayload, .head _⟩
    · exact ⟨_, _, _, members_signedPayload, .tail _ (.head _)⟩
    · exact ⟨_, _, _, members_signedPayload, .tail _ (.tail _ (.head _))⟩
  exp := by
    have hone : occurrences (quoted (str "exp")) signedPayload = [str ":2,\"sub\":\"x\"\x7d"] := by
      decide +kernel
    intro b hb
    rw [hone, mem_singleton] at hb
    exact ⟨str "2", ⟨[], [], [], comma, str "\"sub\":\"x\"\x7d", hb, by decide +kernel⟩,
      by decide +kernel⟩
  nbf := by
    have hnone : occurrences (quoted (str "nbf")) signedPayload = [] := by decide +kernel
    simp [hnone]
  iss := by
    have hone : occurrences (quoted (str "iss")) signedPayload =
        [str ":\"a\",\"exp\":2,\"sub\":\"x\"\x7d"] := by decide +kernel
    intro _ b hb
    rw [hone, mem_singleton] at hb
    exact ⟨[], [], str "a\",\"exp\":2,\"sub\":\"x\"\x7d", hb, by decide +kernel⟩
  aud h := absurd rfl h
  skipped := by decide +kernel

def plainConfig : JwtConfig := { secret := str "k" }

def endlessToken : Bytes :=
  str "e30.eyJzdWIiOiJ4In0.AAAAAAAAAAAAAAAAAAAAAAAAAAAAAAAAAAAAAAAAAAA"

end SpidoNG.Jwt
