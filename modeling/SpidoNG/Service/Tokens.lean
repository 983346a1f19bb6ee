import SpidoNG.Jwt.Gate
import SpidoNG.Lib.Separated
import SpidoNG.Service.Auth
import SpidoNG.Service.JsonReading

/-!
# Access tokens that the service issues

`issue_tokens` writes the user id into the payload as it is, under the name `sub`, with neither
issuer nor audience.
-/

namespace SpidoNG.Service

open Bytes List
open Jwt (Crypto Served Later Distinct getClaim claimSeconds numeralChar)

variable {K : Type}

/-- The token is accepted at every time before it expires, whatever tokens were presented before,
and the handlers read the user id from it. -/
structure Works (X : Crypto K) (s : AuthSettings) (n : ℕ) (uid : Bytes) : Prop where
  accepted : ∀ calls v now, Served X s.jwtConfig (fun _ _ _ _ => True) calls v → Later calls now →
    Distinct X calls (s.accessToken X n uid) → (now : ℤ) < s.accessExp n →
      (v.verify X now (s.accessToken X n uid)).1.1 = .valid
  user : ∀ (own : Ownership) (req : Request),
    req.header (str "Authorization") = str "Bearer " ++ s.accessToken X n uid →
      userId s.toAuthConfig own req = uid

structure Usable (s : AuthSettings) (n : ℕ) (uid : Bytes) : Prop where
  unchecked : 0 < s.accessExp n → s.issuer = [] ∧ s.audience = []
  clean : quote ∉ uid ∧ backslash ∉ uid
  claim : s.userClaim = str "sub" ∨ s.userClaim = str "iat" ∧ uid = toString n ∨
    s.userClaim = str "exp" ∧ uid = toString (s.accessExp n)

lemma numeralChar_of_mem {k : ℤ} : ∀ c ∈ toString k, numeralChar c := by
  have hdecimal (m : ℕ) : ∀ c ∈ decimal m, numeralChar c := by
    intro c hc
    obtain ⟨hlow, hhigh⟩ := digit_of_mem_decimal hc
    simp [numeralChar, isDigit, hlow, hhigh]
  unfold toString
  split_ifs
  · exact forall_mem_cons.2 ⟨rfl, hdecimal _⟩
  · exact hdecimal _

variable {c : UInt8} {t x : Bytes}

lemma not_mem_toString (hc : numeralChar c = false) (k : ℤ) : c ∉ toString k := by
  intro h
  rw [numeralChar_of_mem c h] at hc
  cases hc

lemma toString_ne_nil (k : ℤ) : toString k ≠ [] := by
  unfold toString decimal
  split_ifs
  · simp
  · simp [Nat.toDigits_ne_nil]

lemma accessPayload_eq (uid : Bytes) (n : ℕ) (exp : ℤ) : accessPayload uid n exp =
    [openBrace] ++ Jwt.quote ::
      (str "sub" ++ Jwt.quote :: (str ":" ++ Jwt.quote :: (uid ++ Jwt.quote ::
      (str "," ++ Jwt.quote ::
        (str "iat" ++ Jwt.quote :: (58 :: (toString n ++ str ",") ++ Jwt.quote ::
        (str "exp" ++ Jwt.quote :: (58 :: (toString exp ++ [closeBrace]))))))))) := by
  simp [accessPayload, payloadRest, str, openBrace, closeBrace, Jwt.quote]

variable {name v r u : Bytes}

lemma afterFirst_accessPayload {uid : Bytes} (hname : name ∈ Jwt.skippedClaims)
    (huid : quote ∉ uid) (n : ℕ) (exp : ℤ) :
    Jwt.afterFirst (Jwt.quoted name) (accessPayload uid n exp) =
      if uid = name then some (44 :: (payloadRest n exp).drop 2)
      else if str "exp" = name then some (58 :: (toString exp ++ [closeBrace])) else none := by
  have hq : Jwt.quote ∉ name ∧ str "sub" ≠ name ∧ str ":" ≠ name ∧ str "," ≠ name ∧
    str "iat" ≠ name ∧
      name.head? ≠ some 58 := by
    revert name
    decide
  obtain ⟨hquo, hsub, hcol, hcomma, hiat, hhead⟩ := hq
  have hnum : 58 :: (toString n ++ str ",") ≠ name := by
    rintro rfl
    exact hhead rfl
  have hmem : Jwt.quote ∉ 58 :: (toString n ++ str ",") := by
    simp only [mem_cons, mem_append, not_or]
    exact ⟨by decide, not_mem_toString rfl n, by decide⟩
  have hend : Jwt.quote ∉ 58 :: (toString exp ++ [closeBrace]) := by
    simp only [mem_cons, mem_append, not_or]
    exact ⟨by decide, not_mem_toString rfl exp, by decide, not_mem_nil⟩
  rw [accessPayload_eq, Jwt.afterFirst_append name (by decide),
    Jwt.afterFirst_quoted hquo (by decide),
    if_neg hsub, Jwt.afterFirst_quoted hquo (by decide), if_neg hcol,
    Jwt.afterFirst_quoted hquo huid]
  by_cases hsame : uid = name
  · simp [hsame, payloadRest, str, closeBrace, Jwt.quote]
  · rw [if_neg hsame, if_neg hsame, Jwt.afterFirst_quoted hquo (by decide), if_neg hcomma,
      Jwt.afterFirst_quoted hquo (by decide), if_neg hiat, Jwt.afterFirst_quoted hquo hmem,
      if_neg hnum, Jwt.afterFirst_quoted hquo (by decide), Jwt.afterFirst_last hend]

lemma getClaim_accessPayload {uid : Bytes} (hname : name ∈ Jwt.skippedClaims)
    (huid : quote ∉ uid) (n : ℕ) (exp : ℤ) : getClaim (accessPayload uid n exp) name =
      if uid ≠ name ∧ str "exp" = name then toString exp else [] := by
  have hafter := afterFirst_accessPayload hname huid n exp
  by_cases hfound : uid ≠ name ∧ str "exp" = name
  · rw [if_neg hfound.1, if_pos hfound.2, Jwt.afterFirst_eq_head] at hafter
    rw [if_pos hfound]
    refine Jwt.getClaim_of_numeral hafter ⟨[], [], [], closeBrace, [], rfl, by simp,
      by simp, by simp,
      toString_ne_nil exp, numeralChar_of_mem, .inr rfl⟩
  · unfold Jwt.quoted at hafter
    unfold getClaim
    rw [if_neg hfound, hafter]
    by_cases hsame : uid = name
    · rw [if_pos hsame]
      rfl
    · rw [if_neg hsame, if_neg fun hexp => hfound ⟨hsame, hexp⟩]

lemma secondsFrom_toString {k : ℤ} (hk : 0 ≤ k) (hlt : k < 2 ^ 63) :
    Jwt.secondsFrom 0 (toString k) = k := by
  obtain ⟨m, rfl⟩ := Int.eq_ofNat_of_zero_le hk
  have hvalue : Jwt.valueFrom 0 (decimal m) = m := by
    simpa only [Jwt.valueFrom, Nat.mul_comm] using foldl_decimal m
  have hdigits : ∀ c ∈ decimal m, isDigit c := by
    intro c hc
    obtain ⟨hlow, hhigh⟩ := digit_of_mem_decimal hc
    simp [isDigit, hlow, hhigh]
  have h := Jwt.secondsFrom_of_digits hdigits 0 (by rw [hvalue]; exact_mod_cast hlt)
  rw [hvalue] at h
  rw [toString, if_neg (by omega)]
  exact h

lemma splitToken_signJwt (X : Crypto K) (s : AuthSettings) (payload : Bytes) :
    Jwt.splitToken (signJwt X s payload) = some ⟨base64urlEncode jwtHeader, base64urlEncode payload,
      base64urlEncode (X.hmacSha256 s.secret
        (base64urlEncode jwtHeader ++ Jwt.dot :: base64urlEncode payload))⟩ := by
  refine Jwt.splitToken_eq_some_iff.2
    ⟨?_, dot_not_mem_base64urlEncode _, dot_not_mem_base64urlEncode _⟩
  simp [signJwt]

lemma verifyFresh_signJwt {X : Crypto K} {s : AuthSettings} (hs : s.Accepted) (now : ℕ)
    (payload : Bytes) : (Jwt.JwtVerifier.init X s.jwtConfig).2.verifyFresh X now
      (signJwt X s payload) =
      Jwt.checkClaims s.jwtConfig now payload := by
  have hcheck : (Jwt.JwtVerifier.init X s.jwtConfig).2.checkSignature X
      (base64urlEncode jwtHeader ++ Jwt.dot :: base64urlEncode payload)
      (X.hmacSha256 s.secret (base64urlEncode jwtHeader ++ Jwt.dot :: base64urlEncode payload)) =
        some true := by
    have halgo : s.jwtConfig.algorithm = str "HS256" := hs.algo
    rw [Jwt.checkSignature_eq_true_iff, Jwt.init_cfg, if_pos halgo]
    rfl
  unfold Jwt.JwtVerifier.verifyFresh
  rw [splitToken_signJwt]
  dsimp only [Jwt.Parts.signed]
  rw [b64urlDecode_base64urlEncode]
  dsimp only
  rw [hcheck]
  rw [b64urlDecode_base64urlEncode, Jwt.init_cfg]

lemma int64_lt (k : ℤ) : Jwt.int64 k < 2 ^ 63 := by
  have := Int.bmod_lt (x := k) (m := 2 ^ 64) (by decide)
  unfold Jwt.int64
  omega

section Claims

variable {s : AuthSettings} {n : ℕ} {uid : Bytes} (huid : quote ∉ uid)

include huid

lemma claimSeconds_exp (hexp : 0 < s.accessExp n) :
    claimSeconds (accessPayload uid n (s.accessExp n)) (str "exp") =
      if uid = str "exp" then 0 else s.accessExp n := by
  unfold claimSeconds
  rw [getClaim_accessPayload (by decide) huid]
  split_ifs with h hsame hsame
  · exact absurd hsame h.1
  · exact secondsFrom_toString hexp.le (int64_lt _)
  · rfl
  · exact absurd ⟨hsame, rfl⟩ h

lemma claimSeconds_nbf (exp : ℤ) : claimSeconds (accessPayload uid n exp) (str "nbf") = 0 := by
  unfold claimSeconds
  rw [getClaim_accessPayload (by decide) huid, if_neg fun h => absurd h.2 (by decide)]
  rfl

lemma claimsStatus_accessPayload (now : ℕ) (hnow : (now : ℤ) < s.accessExp n) :
    Jwt.claimsStatus s.jwtConfig now (accessPayload uid n (s.accessExp n)) = .valid ↔
      s.issuer = [] ∧ s.audience = [] := by
  have hpos : 0 < s.accessExp n := by omega
  have hiss : getClaim (accessPayload uid n (s.accessExp n)) (str "iss") = [] := by
    rw [getClaim_accessPayload (by decide) huid, if_neg fun h => absurd h.2 (by decide)]
  have haud : getClaim (accessPayload uid n (s.accessExp n)) (str "aud") = [] := by
    rw [getClaim_accessPayload (by decide) huid, if_neg fun h => absurd h.2 (by decide)]
  have htime : Jwt.InTime s.jwtConfig now (accessPayload uid n (s.accessExp n)) := by
    refine ⟨?_, ?_⟩
    · rw [claimSeconds_exp huid hpos]
      split_ifs
      · exact .inl rfl
      · exact .inr hnow
    · rw [claimSeconds_nbf huid]
      omega
  rw [Jwt.claimsStatus_eq_valid_iff]
  constructor
  · rintro ⟨hfound, -⟩
    refine ⟨?_, ?_⟩
    · by_contra hne
      exact hne ((hfound.iss hne).symm.trans hiss)
    · by_contra hne
      exact hne ((hfound.aud hne).symm.trans haud)
  · rintro ⟨hi, ha⟩
    refine ⟨⟨fun hne => absurd hi hne, fun hne => absurd ha hne, fun name hmem hskip => ?_⟩, htime⟩
    rw [mem_singleton.1 hmem] at hskip
    exact absurd (by decide) hskip

end Claims

def Clean (t : Bytes) : Prop := quote ∉ t ∧ backslash ∉ t

lemma clean_cons : Clean (c :: t) ↔ c ≠ quote ∧ c ≠ backslash ∧ Clean t := by
  unfold Clean
  rw [mem_cons, mem_cons, not_or, not_or]
  constructor
  · rintro ⟨⟨hq, hqt⟩, hb, hbt⟩
    exact ⟨Ne.symm hq, Ne.symm hb, hqt, hbt⟩
  · rintro ⟨hq, hb, hqt, hbt⟩
    exact ⟨⟨hq.symm, hqt⟩, hb.symm, hbt⟩

inductive Ends (t v : Bytes) : Bytes → Bytes → Prop
  | inside {x t' : Bytes} (h : x.length + t'.length < t.length) (hunclean : ¬ Clean t) :
      Ends t v x (t' ++ 34 :: 44 :: 34 :: v)
  | clean (h : Clean t) : Ends t v t (44 :: 34 :: v)
  | shorter {x : Bytes} (h : x.length < t.length) (hunclean : ¬ Clean t) :
    Ends t v x (44 :: 34 :: v)
  | hidden {x : Bytes} (hx : x.getLast? = some 44) (ht : t.getLast? = some 92) : Ends t v x v

lemma Ends.escape (h : Ends t v x r) (e y : Bytes) (hlt : y.length < (backslash :: e).length) :
    Ends (backslash :: (e ++ t)) v (y ++ x) r := by
  have hunc : ¬ Clean (backslash :: (e ++ t)) := fun h => (clean_cons.1 h).2.1 rfl
  cases h with
  | inside =>
    refine .inside ?_ hunc
    simp only [length_append, length_cons] at hlt ⊢
    omega
  | clean | shorter =>
    refine .shorter ?_ hunc
    simp only [length_append, length_cons] at hlt ⊢
    omega
  | hidden hx ht =>
    refine .hidden ?_ ?_
    · rw [List.getLast?_append, hx]
      rfl
    · rw [← cons_append, List.getLast?_append, ht]
      rfl

lemma length_utf8_lt (k : ℕ) : (utf8 k).length < 6 := by
  unfold utf8
  split_ifs <;> simp

lemma Ends.plain (h : Ends t v x r) (hquo : c ≠ quote)
    (hback : c ≠ backslash) : Ends (c :: t) v (c :: x) r := by
  have hclean : Clean (c :: t) ↔ Clean t := by
    rw [clean_cons]
    exact ⟨fun h => h.2.2, fun h => ⟨hquo, hback, h⟩⟩
  cases h with
  | inside h hunc =>
    refine .inside ?_ (mt hclean.1 hunc)
    simp only [length_cons]
    omega
  | clean h => exact .clean (hclean.2 h)
  | shorter h hunc => exact .shorter (by simpa using h) (mt hclean.1 hunc)
  | hidden hx ht =>
    refine .hidden ?_ ?_
    · rw [← singleton_append, List.getLast?_append, hx]
      rfl
    · rw [← singleton_append, List.getLast?_append, ht]
      rfl

lemma parseStringRest_comma (h : parseStringRest (44 :: 34 :: v) = some (x, r)) :
    x = [44] ∧ r = v := by
  unfold parseStringRest parseStringRest at h
  simpa [quote, backslash, eq_comm] using h

lemma ends_of_parseStringRest (m : ℕ) : ∀ {t x r : Bytes}, t.length ≤ m →
    parseStringRest (t ++ 34 :: 44 :: 34 :: v) = some (x, r) → Ends t v x r := by
  induction m with
  | zero =>
    intro t x r hm h
    obtain rfl := length_eq_zero_iff.1 (Nat.le_zero.1 hm)
    have hnext : Next 34 (44 :: 34 :: v) x r := next_of_parseStringRest h
    generalize hc : (34 : UInt8) = c at hnext
    cases hnext with
    | close => exact .clean (by simp [Clean])
    | short => exact absurd hc (by decide)
    | plain hquo => exact absurd hc.symm hquo
  | succ m ih =>
    intro t x r hm h
    cases t with
    | nil => exact ih (Nat.zero_le _) h
    | cons c t =>
      have hlen : t.length ≤ m := by simpa using hm
      have hnext : Next c (t ++ 34 :: 44 :: 34 :: v) x r := next_of_parseStringRest h
      generalize hs : t ++ 34 :: 44 :: 34 :: v = s at hnext
      cases hnext with
      | close =>
        rw [← hs]
        exact .inside (by simp) fun hclean => (clean_cons.1 hclean).1 rfl
      | plain hquo hback h' =>
        rw [← hs] at h'
        exact (ih hlen h').plain hquo hback
      | @short _ y _ _ _ _ h' =>
        cases t with
        | nil =>
          obtain ⟨rfl, rfl⟩ := List.cons.inj hs
          obtain ⟨rfl, rfl⟩ := parseStringRest_comma h'
          exact .hidden rfl rfl
        | cons e' =>
          obtain ⟨rfl, rfl⟩ := List.cons.inj hs
          rw [length_cons] at hlen
          exact (ih (by omega) h').escape [e'] [y] (by simp)
      | @unicode a b c d _ _ _ k hhex h' =>
        have hquo : (34 : UInt8) ∉ [117, a, b, c, d] := by
          intro hmem
          rcases mem_cons.1 hmem with hmem | hmem
          · exact absurd hmem (by decide)
          · exact hhex _ hmem rfl
        obtain ⟨t', rfl, rfl⟩ := Separated.exists_of_append_eq hquo hs
        rw [length_append] at hlen
        exact (ih (by omega) h').escape _ _ (length_utf8_lt k)

variable {b b₁ : JsonBody}

section Members

variable (n : ℕ) (exp : ℤ)

def payloadEnd : Bytes :=
  str "iat" ++ 34 :: 58 :: (toString n ++ 44 :: 34 ::
    (str "exp" ++ 34 :: 58 :: (toString exp ++ [125])))

lemma payloadRest_eq : payloadRest n exp = 34 :: 44 :: 34 :: payloadEnd n exp := by
  simp [payloadRest, payloadEnd, str]

lemma plain_of_numeralChar (h : numeralChar c) : Plain c := by
  refine plain_of_numberChar ?_
  unfold numeralChar at h
  grind [numberChar, isDigit]

variable {d : UInt8}

lemma round_number (hname : JsonText.Chars name name) (k : ℤ)
    (hd : isDelimiter d ∧ isWs d = false) (u : Bytes) (b : JsonBody) :
    JsonBody.Round b (34 :: (name ++ 34 :: 58 :: (toString k ++ d :: u)))
      { b with fields := b.fields ++ [(name, toString k)] } d u := by
  have hplain : ∀ c ∈ toString k, Plain c :=
    fun c hc => plain_of_numeralChar (numeralChar_of_mem c hc)
  obtain ⟨c, v, hv⟩ := exists_cons_of_ne_nil (toString_ne_nil k)
  obtain ⟨hneutral, hdelim⟩ := hplain c (by simp [hv])
  have hws : isWs c = false := by
    simp only [isDelimiter, Bool.or_eq_false_iff] at hdelim
    exact hdelim.2
  have hskip : skipWs (toString k ++ d :: u) = toString k ++ d :: u := by
    rw [hv]
    exact skipWs_cons hws
  have hnull : toString k ≠ str "null" := by
    intro h
    exact absurd (numeralChar_of_mem (k := k) 110 (by rw [h]; decide)) (by decide)
  have hround := JsonBody.Round.raw (b := b) (s := 34 ::
    (name ++ 34 :: 58 :: (toString k ++ d :: u)))
    (x := toString k) (d := d)
    (by rw [skipWs_cons (by decide), parseString_chars hname]) (skipWs_cons (by decide))
    (by rw [hskip, hv]; simpa using hneutral.1)
    (by rw [hskip]; exact parseValueRaw_plain hplain (toString_ne_nil k) (by simpa using hd.1))
    (skipWs_cons hd.2)
  rw [if_neg hnull] at hround
  exact hround

lemma parseMembers_end {m : ℕ} {b' : JsonBody} :
    JsonBody.parseMembers m b (34 :: payloadEnd n exp) = some b' ↔ 2 ≤ m ∧
      b' = { b with fields := b.fields ++
        [(str "iat", toString n), (str "exp", toString exp)] } := by
  have hiat : JsonText.Chars (str "iat") (str "iat") := .self (by decide +kernel)
  have hexp : JsonText.Chars (str "exp") (str "exp") := .self (by decide +kernel)
  cases m with
  | zero => simp [JsonBody.parseMembers]
  | succ m =>
    rw [payloadEnd, (round_number hiat n (by decide) _ b).parseMembers_eq, if_pos (by decide)]
    cases m with
    | zero => simp [JsonBody.parseMembers]
    | succ =>
      rw [(round_number hexp exp (by decide) _ _).parseMembers_eq, if_neg (by decide),
        if_pos (by decide)]
      simp [eq_comm]

variable {n exp}

lemma eq_nil_of_bracket {a rest : Bytes} (hc : c = closeBrace ∨ c = closeBracket)
    (h : payloadRest n exp = a ++ c :: rest) : rest = [] := by
  have hinit : payloadRest n exp =
      (str "\",\"iat\":" ++ (toString n ++ (str ",\"exp\":" ++ toString exp))) ++ [closeBrace] := by
    simp [payloadRest, str, closeBrace]
  by_contra hne
  obtain ⟨r, l, rfl⟩ := List.eq_nil_or_concat' rest |>.resolve_left hne
  rw [hinit] at h
  have hmem : c ∈ str "\",\"iat\":" ++ (toString n ++ (str ",\"exp\":" ++ toString exp)) := by
    have hcut : str "\",\"iat\":" ++ (toString n ++ (str ",\"exp\":" ++ toString exp)) ++
      [closeBrace] =
        (a ++ c :: r) ++ [l] := by
      rw [h]
      simp
    rw [(List.append_inj' hcut rfl).1]
    simp
  simp only [mem_append] at hmem
  have hnot : c ∉ str "\",\"iat\":" ∧ c ∉ str ",\"exp\":" ∧ numeralChar c = false := by
    rcases hc with rfl | rfl <;> decide
  rcases hmem with hmem | hmem | hmem | hmem
  · exact hnot.1 hmem
  · exact not_mem_toString hnot.2.2 n hmem
  · exact hnot.2.1 hmem
  · exact not_mem_toString hnot.2.2 exp hmem

inductive Left (n : ℕ) (exp : ℤ) (t x : Bytes) : Bytes → Prop
  | inside {t' : Bytes} (h : x.length + t'.length ≤ t.length) : Left n exp t x
      (t' ++ payloadRest n exp)
  | atComma (h : x.length ≤ t.length + 1) : Left n exp t x (44 :: 34 :: payloadEnd n exp)
  | atIat : Left n exp t x (payloadEnd n exp)
  | nothing : Left n exp t x []

lemma left_of_raw (hws : isWs c = false)
    (h : parseValueRaw (c :: (t ++ payloadRest n exp)) = some (x, r)) :
    Left n exp (c :: t) x r := by
  obtain ⟨hcut, ⟨e, a, he, ha⟩ | hx⟩ := parseValueRaw_inv hws h
  · have hlen := congrArg List.length hcut
    rw [← cons_append] at ha hlen
    rcases append_eq_append_iff.1 ha with ⟨a', -, hrest⟩ | ⟨t', ht, hrest⟩
    · rw [eq_nil_of_bracket he hrest]
      exact .nothing
    · cases t' with
      | nil =>
        rw [nil_append, payloadRest_eq] at hrest
        rcases he with rfl | rfl
        · exact absurd (List.cons.inj hrest).1 (by decide)
        · exact absurd (List.cons.inj hrest).1 (by decide)
      | cons _ t' =>
        have hr : r = t' ++ payloadRest n exp := (List.cons.inj hrest).2
        rw [hr] at hlen ⊢
        refine .inside ?_
        simp only [length_append] at hlen
        omega
  · rw [← cons_append, takeWhile_append] at hx
    rw [← cons_append] at hcut
    split_ifs at hx with hall
    · -- No delimiter in the text: the value ends at the comma.
      have htake : (payloadRest n exp).takeWhile (fun c => !isDelimiter c) = [34] := by
        rw [payloadRest_eq]
        rfl
      rw [htake] at hx
      rw [hx, payloadRest_eq, append_cons, append_cancel_left_eq] at hcut
      rw [← hcut, hx]
      exact .atComma (by simp)
    · have hlt : x.length ≤ (c :: t).length := by
        rw [hx]
        exact (List.takeWhile_prefix _).length_le
      obtain ⟨t', ht⟩ : x <+: c :: t := by
        rw [hx]
        exact List.takeWhile_prefix _
      rw [← ht, append_assoc, append_cancel_left_eq] at hcut
      rw [← hcut]
      refine .inside ?_
      rw [← ht, length_append]

lemma left_of_string
    (h : parseString (skipWs (t ++ payloadRest n exp)) = some (x, r)) : Left n exp t x r := by
  obtain ⟨u, hu, hrest⟩ := JsonBody.head_of_parseString h
  rw [payloadRest_eq] at hu
  have hends {t' : Bytes} (hlt : t'.length < t.length)
      (h : parseStringRest (t' ++ 34 :: 44 :: 34 :: payloadEnd n exp) = some (x, r)) :
      Left n exp t x r := by
    cases ends_of_parseStringRest _ le_rfl h with
    | inside =>
      rw [← payloadRest_eq]
      exact .inside (by omega)
    | clean | shorter => exact .atComma (by omega)
    | hidden => exact .atIat
  rcases skipWs_cases t (c := 34) (by decide) (44 :: 34 :: payloadEnd n exp) with
    hskip | ⟨d, t', hskip, hlt, -⟩
  · rw [hskip] at hu
    obtain ⟨-, rfl⟩ := List.cons.inj hu
    -- The first quote behind the text opens the string, the second one closes it.
    rw [(parseStringRest_comma hrest).2]
    exact .atIat
  · rw [hskip] at hu
    obtain ⟨-, rfl⟩ := List.cons.inj hu
    exact hends hlt hrest

lemma skipWs_payload (h : skipWs (t ++ payloadRest n exp) = d :: u)
    (hd : d ≠ 34) : ∃ t', u = t' ++ payloadRest n exp ∧ t'.length < t.length := by
  rw [payloadRest_eq] at h
  rcases skipWs_cases t (c := 34) (by decide) (44 :: 34 :: payloadEnd n exp) with
    hskip | ⟨e, t', hskip, hlt, -⟩
  · rw [hskip] at h
    exact absurd (List.cons.inj h).1.symm hd
  · rw [hskip] at h
    refine ⟨t', ?_, hlt⟩
    rw [payloadRest_eq]
    exact (List.cons.inj h).2.symm

lemma Left.next (h : Left n exp t x r) (hnext : skipWs r = d :: u)
    (hquo : d ≠ 34) (hiat : d ≠ 105) :
    (x.length ≤ t.length ∧ ∃ t', u = t' ++ payloadRest n exp ∧ t'.length < t.length) ∨
      x.length ≤ t.length + 1 ∧ d = 44 ∧ u = 34 :: payloadEnd n exp := by
  cases h with
  | inside =>
    obtain ⟨t', ht, hlt⟩ := skipWs_payload hnext hquo
    exact .inl ⟨by omega, t', ht, by omega⟩
  | atComma h =>
    rw [skipWs_cons (by decide)] at hnext
    obtain ⟨rfl, rfl⟩ := List.cons.inj hnext
    exact .inr ⟨h, rfl, rfl⟩
  | atIat =>
    have hhead : skipWs (payloadEnd n exp) = payloadEnd n exp := skipWs_cons (by decide)
    rw [hhead] at hnext
    exact absurd (List.cons.inj hnext).1.symm hiat
  | nothing => cases hnext

lemma left_of_value (hquo : (skipWs (t ++ payloadRest n exp)).head? ≠ some quote)
    (h : parseValueRaw (skipWs (t ++ payloadRest n exp)) = some (x, r)) : Left n exp t x r := by
  rw [payloadRest_eq] at h hquo
  rcases skipWs_cases t (c := 34) (by decide) (44 :: 34 :: payloadEnd n exp) with
    hskip | ⟨e, t', hskip, hlt, hws⟩
  · rw [hskip] at hquo
    exact absurd rfl hquo
  · rw [hskip, ← payloadRest_eq] at h
    cases left_of_raw hws h with
    | inside hle =>
      rw [length_cons] at hle
      exact .inside (by omega)
    | atComma hle =>
      rw [length_cons] at hle
      exact .atComma (by omega)
    | atIat => exact .atIat
    | nothing => exact .nothing

lemma round_left
    (h : JsonBody.Round b (t ++ payloadRest n exp) b₁ d u) (hd : d = comma ∨ d = closeBrace) :
    (∀ p ∈ b₁.fields, p ∈ b.fields ∨ p.2.length ≤ t.length) ∧
      ((∃ t', u = t' ++ payloadRest n exp ∧ t'.length < t.length) ∨
        d = comma ∧ u = 34 :: payloadEnd n exp) := by
  have hquo : d ≠ 34 := by rcases hd with rfl | rfl <;> decide
  have hiat : d ≠ 105 := by rcases hd with rfl | rfl <;> decide
  -- The name and the colon are in the text, and the value begins there.
  have hname {key s₁ s₂ : Bytes} (hkey : parseString (skipWs (t ++ payloadRest n exp))
    = some (key, s₁))
      (hcol : skipWs s₁ = 58 :: s₂) : ∃ t₂, s₂ = t₂ ++ payloadRest n exp ∧
        t₂.length < t.length := by
    rcases (left_of_string hkey).next hcol (by decide) (by decide) with ⟨-, h⟩ | ⟨-, h, -⟩
    · exact h
    · exact absurd h (by decide)
  -- Then the rest follows from what is left behind the value.
  have hval (key : Bytes) {t₂ x s₃ : Bytes} (ht₂ : t₂.length < t.length)
    (hleft : Left n exp t₂ x s₃)
      (hnext : skipWs s₃ = d :: u) :
      (∀ p ∈ b.fields ++ [(key, x)], p ∈ b.fields ∨ p.2.length ≤ t.length) ∧
        ((∃ t', u = t' ++ payloadRest n exp ∧ t'.length < t.length) ∨
          d = comma ∧ u = 34 :: payloadEnd n exp) := by
    have hfield (hx : x.length ≤ t.length) :
        ∀ p ∈ b.fields ++ [(key, x)], p ∈ b.fields ∨ p.2.length ≤ t.length := by
      intro p hp
      rcases mem_append.1 hp with hp | hp
      · exact .inl hp
      · rw [mem_singleton.1 hp]
        exact .inr hx
    rcases hleft.next hnext hquo hiat with ⟨hx, t', ht', hlt⟩ | ⟨hx, hcomma, hu⟩
    · exact ⟨hfield (by omega), .inl ⟨t', ht', by omega⟩⟩
    · exact ⟨hfield (by omega), .inr ⟨hcomma, hu⟩⟩
  cases h with
  | string hkey hcol hv hnext =>
    obtain ⟨t₂, rfl, ht₂⟩ := hname hkey hcol
    exact hval _ ht₂ (left_of_string hv) hnext
  | raw hkey hcol hq hv hnext =>
    obtain ⟨t₂, rfl, ht₂⟩ := hname hkey hcol
    split_ifs
    · exact ⟨fun p hp => .inl hp, (hval [] ht₂ (left_of_value hq hv) hnext).2⟩
    · exact hval _ ht₂ (left_of_value hq hv) hnext

lemma fields_of_parseMembers {m : ℕ} {b' : JsonBody}
    (h : JsonBody.parseMembers m b (t ++ payloadRest n exp) = some b') :
    ∀ p ∈ b'.fields, p ∈ b.fields ∨ p.2.length ≤ t.length ∨ p.2 = toString n ∨
      p.2 = toString exp := by
  induction m generalizing b t with
  | zero => cases h
  | succ m ih =>
    obtain ⟨b₁, d, u, hround, hrest⟩ := JsonBody.exists_round h
    have hd : d = comma ∨ d = closeBrace := hrest.imp And.left And.left
    obtain ⟨hfield, hu⟩ := round_left hround hd
    intro p hp
    rcases hrest with ⟨-, hrest⟩ | ⟨rfl, rfl⟩
    · rcases hu with ⟨t', rfl, hlt⟩ | ⟨-, rfl⟩
      · rcases ih hrest p hp with hp | hp | hp
        · exact (hfield p hp).imp_right .inl
        · exact .inr (.inl (by omega))
        · exact .inr (.inr hp)
      · obtain ⟨-, rfl⟩ := (parseMembers_end n exp).1 hrest
        rcases mem_append.1 hp with hp | hp
        · exact (hfield p hp).imp_right .inl
        · simp only [mem_cons, not_mem_nil, or_false] at hp
          rcases hp with rfl | rfl
          · exact .inr (.inr (.inl rfl))
          · exact .inr (.inr (.inr rfl))
    · exact (hfield p hp).imp_right .inl

end Members

lemma parseStringRest_clean (h : Clean x) (s : Bytes) :
    parseStringRest (x ++ 34 :: s) = some (x, s) := by
  induction x with
  | nil =>
    unfold parseStringRest
    simp [quote]
  | cons c x ih =>
    obtain ⟨hquo, hback, hx⟩ := clean_cons.1 h
    rw [cons_append]
    unfold parseStringRest
    simp [hquo, hback, ih hx]

def payloadMembers (uid : Bytes) (n : ℕ) (exp : ℤ) : Bytes :=
  34 :: (str "sub" ++ 34 :: 58 :: 34 :: (uid ++ payloadRest n exp))

lemma parse_accessPayload (uid : Bytes) (n : ℕ) (exp : ℤ) :
    JsonBody.parse (accessPayload uid n exp) =
      JsonBody.parseMembers ((accessPayload uid n exp).length + 1) {}
        (payloadMembers uid n exp) := by
  have hpay : accessPayload uid n exp = 123 :: payloadMembers uid n exp := by
    simp [accessPayload, payloadMembers, str]
  have hskip : skipWs (payloadMembers uid n exp) = payloadMembers uid n exp :=
    skipWs_cons (by decide)
  unfold JsonBody.parse
  rw [hpay, skipWs_cons (by decide)]
  dsimp only
  rw [if_neg (by decide), hskip, payloadMembers]
  dsimp only
  rw [if_neg (by decide)]

lemma round_sub_iff {uid : Bytes} {d : UInt8} {n : ℕ} {exp : ℤ} :
    JsonBody.Round b (payloadMembers uid n exp) b₁ d u ↔
      ∃ x s₃, parseStringRest (uid ++ payloadRest n exp) = some (x, s₃) ∧ skipWs s₃ = d :: u ∧
        b₁ = { b with fields := b.fields ++ [(str "sub", x)] } := by
  have hsub : JsonText.Chars (str "sub") (str "sub") := .self (by decide +kernel)
  have hkey : parseString (skipWs (payloadMembers uid n exp)) =
      some (str "sub", 58 :: 34 :: (uid ++ payloadRest n exp)) := by
    rw [payloadMembers, skipWs_cons (by decide), parseString_chars hsub]
  have hcol : skipWs (58 :: 34 :: (uid ++ payloadRest n exp)) =
      58 :: 34 :: (uid ++ payloadRest n exp) := skipWs_cons (by decide)
  have hval : skipWs (34 :: (uid ++ payloadRest n exp)) = 34 :: (uid ++ payloadRest n exp) :=
    skipWs_cons (by decide)
  constructor
  · intro h
    cases h with
    | string hkey' hcol' hv hnext =>
      rw [hkey] at hkey'
      cases hkey'
      rw [hcol] at hcol'
      cases hcol'
      rw [hval] at hv
      exact ⟨_, _, hv, hnext, rfl⟩
    | raw hkey' hcol' hquo =>
      rw [hkey] at hkey'
      cases hkey'
      rw [hcol] at hcol'
      cases hcol'
      rw [hval] at hquo
      exact absurd rfl hquo
  · rintro ⟨x, s₃, hread, hnext, rfl⟩
    refine .string hkey hcol ?_ hnext
    rw [hval]
    exact hread

lemma parse_of_clean {uid : Bytes} (h : Clean uid) (n : ℕ) (exp : ℤ) :
    JsonBody.parse (accessPayload uid n exp) = some ⟨[(str "sub", uid), (str "iat", toString n),
      (str "exp", toString exp)], []⟩ := by
  have hread : parseStringRest (uid ++ payloadRest n exp)
    = some (uid, 44 :: 34 :: payloadEnd n exp) := by
    rw [payloadRest_eq]
    exact parseStringRest_clean h _
  have hround : JsonBody.Round {} (payloadMembers uid n exp) ⟨[(str "sub", uid)], []⟩ 44
      (34 :: payloadEnd n exp) := round_sub_iff.2 ⟨uid, _, hread, skipWs_cons (by decide), rfl⟩
  rw [parse_accessPayload, hround.parseMembers_eq, if_pos (by decide)]
  refine (parseMembers_end n exp).2 ⟨?_, rfl⟩
  simp [accessPayload, str]

lemma clean_toString (k : ℤ) : Clean (toString k) :=
  ⟨not_mem_toString rfl k, not_mem_toString rfl k⟩

lemma ne_of_not_clean {uid : Bytes} (h : ¬ Clean uid) {n : ℕ} {exp : ℤ} {body : JsonBody}
    (hbody : JsonBody.parse (accessPayload uid n exp) = some body) : ∀ p ∈ body.fields,
      p.2 ≠ uid := by
  have hnum (k : ℤ) : toString k ≠ uid := by
    rintro rfl
    exact h (clean_toString k)
  have hshort {x : Bytes} (hlt : x.length < uid.length) : x ≠ uid := by
    rintro rfl
    exact lt_irrefl _ hlt
  rw [parse_accessPayload] at hbody
  obtain ⟨b₁, d, u, hround, hrest⟩ := JsonBody.exists_round hbody
  have hd : d = comma ∨ d = closeBrace := hrest.imp And.left And.left
  obtain ⟨x, s₃, hread, hnext, rfl⟩ := round_sub_iff.1 hround
  rw [payloadRest_eq] at hread
  intro p hp
  cases ends_of_parseStringRest _ le_rfl hread with
  | @inside _ _ _ _ =>
    rw [← payloadRest_eq] at hnext
    obtain ⟨t'', rfl, hlt'⟩ := skipWs_payload hnext (by rcases hd with rfl | rfl <;> decide)
    rcases hrest with ⟨-, hrest⟩ | ⟨-, rfl⟩
    · rcases fields_of_parseMembers hrest p hp with hp | hp | hp | hp
      · obtain rfl := mem_singleton.1 hp
        exact hshort (x := x) (by omega)
      · exact hshort (by omega)
      · rw [hp]
        exact hnum n
      · rw [hp]
        exact hnum exp
    · obtain rfl := mem_singleton.1 hp
      exact hshort (x := x) (by omega)
  | clean hclean => exact absurd hclean h
  | shorter hlt =>
    rw [skipWs_cons (by decide)] at hnext
    obtain ⟨rfl, rfl⟩ := List.cons.inj hnext
    rcases hrest with ⟨-, hrest⟩ | ⟨hcl, -⟩
    · obtain ⟨-, rfl⟩ := (parseMembers_end n exp).1 hrest
      simp only [nil_append, cons_append, mem_cons, not_mem_nil, or_false] at hp
      rcases hp with rfl | rfl | rfl
      · exact hshort hlt
      · exact hnum n
      · exact hnum exp
    · exact absurd hcl (by decide)
  | hidden =>
    have hhead : skipWs (payloadEnd n exp) = payloadEnd n exp := skipWs_cons (by decide)
    rw [hhead] at hnext
    obtain ⟨rfl, -⟩ := List.cons.inj hnext
    exact absurd hd (by decide)

lemma jwtClaim_of_clean {uid : Bytes} (h : Clean uid) (n : ℕ) (exp : ℤ) (name : Bytes) :
    jwtClaim (accessPayload uid n exp) name =
      if str "sub" = name then uid else if str "iat" = name then toString n
        else if str "exp" = name then toString exp else [] := by
  unfold jwtClaim
  rw [parse_of_clean h]
  dsimp only [JsonBody.get]
  split_ifs with hsub hiat hexp
  · rw [List.find?_cons_of_pos (by simpa using hsub)]
    rfl
  · rw [List.find?_cons_of_neg (by simpa using hsub), List.find?_cons_of_pos (by simpa using hiat)]
    rfl
  · rw [List.find?_cons_of_neg (by simpa using hsub), List.find?_cons_of_neg (by simpa using hiat),
      List.find?_cons_of_pos (by simpa using hexp)]
    rfl
  · rw [List.find?_cons_of_neg (by simpa using hsub), List.find?_cons_of_neg (by simpa using hiat),
      List.find?_cons_of_neg (by simpa using hexp)]
    rfl

lemma jwtClaim_eq_iff {uid : Bytes} (huid : uid ≠ []) (n : ℕ) (exp : ℤ) (name : Bytes) :
    jwtClaim (accessPayload uid n exp) name = uid ↔ Clean uid ∧
      (name = str "sub" ∨ name = str "iat" ∧ uid = toString n ∨ name = str "exp" ∧
        uid = toString exp) := by
  by_cases hclean : Clean uid
  · rw [jwtClaim_of_clean hclean]
    have hne : str "sub" ≠ str "iat" ∧ str "sub" ≠ str "exp" ∧ str "iat" ≠ str "exp" := by decide
    split_ifs with hsub hiat hexp
    · exact iff_of_true rfl ⟨hclean, .inl hsub.symm⟩
    · subst hiat
      simp [hclean, hne.1.symm, hne.2.2, eq_comm]
    · subst hexp
      simp [hclean, hne.2.1.symm, hne.2.2.symm, eq_comm]
    · refine iff_of_false huid.symm ?_
      rintro ⟨-, h | ⟨h, -⟩ | ⟨h, -⟩⟩
      · exact hsub h.symm
      · exact hiat h.symm
      · exact hexp h.symm
  · refine iff_of_false ?_ fun h => hclean h.1
    unfold jwtClaim
    split
    · exact huid.symm
    · rename_i body hbody
      intro h
      cases hfind : body.fields.find? fun p => p.1 == name with
      | none => simp [JsonBody.get, hfind, huid.symm] at h
      | some p =>
        refine ne_of_not_clean hclean hbody p (List.mem_of_find?_eq_some hfind) ?_
        simpa [JsonBody.get, hfind] using h

lemma userId_of_token {X : Crypto K} {s : AuthSettings} (hs : s.Accepted) {n : ℕ} {uid : Bytes}
    (own : Ownership) {req : Request}
    (hreq : req.header (str "Authorization") = str "Bearer " ++ s.accessToken X n uid) :
    userId s.toAuthConfig own req = jwtClaim (accessPayload uid n (s.accessExp n)) s.userClaim := by
  have hdrop : (req.header (str "Authorization")).drop 7 = s.accessToken X n uid := by
    rw [hreq]
    rfl
  have hscheme : Jwt.HasScheme (req.header (str "Authorization")) := by
    rw [hreq]
    exact .inl rfl
  have hsplit := splitToken_signJwt X s (accessPayload uid n (s.accessExp n))
  have hpay : jwtPayload req = accessPayload uid n (s.accessExp n) := by
    rw [Jwt.jwtPayload_of_split hscheme (by rw [hdrop]; exact hsplit),
      base64urlDecode_of_jwt (b64urlDecode_base64urlEncode _)]
  unfold userId
  rw [hs.jwt]
  rw [hpay]

lemma header_bearerRequest (token : Bytes) :
    (Jwt.bearerRequest token).header (str "Authorization") = str "Bearer " ++ token := by
  simp [Jwt.bearerRequest, Request.header]

def plainSettings : AuthSettings := { type := .jwt, secret := str "k", refreshEnabled := true }

lemma plainSettings_accepted : plainSettings.Accepted := ⟨rfl, rfl, by decide, rfl⟩

def issuerSettings : AuthSettings := { plainSettings with issuer := str "me" }

end SpidoNG.Service
