import SpidoNG.Jwt.Replay
import SpidoNG.Service.Base64url

/-!
# The gate in front of a route

The part of `process_input` that asks the verifier.
-/

namespace SpidoNG.Jwt

open Bytes List JwtVerifier
open Service (Request jwtPayload base64urlEncode)
open Http (isBlank toLower)

variable {K : Type} {X : Crypto K} {cfg : JwtConfig}

def tokenOf (req : Request) : Bytes := extractBearer (req.header (str "Authorization"))

def gate (X : Crypto K) (v : JwtVerifier K) (now : ℕ) (req : Request) :
    Option JwtStatus × JwtVerifier K :=
  if tokenOf req = [] then (some .missing, v)
  else
    let r := v.verify X now (tokenOf req)
    (if r.1.1 = .valid then none else some r.1.1, r.2)

def HasScheme (authz : Bytes) : Prop := authz.take 7 = str "Bearer " ∨ authz.take 7 = str "bearer "

variable {req : Request}

lemma jwtPayload_of_not_scheme (h : ¬ HasScheme (req.header (str "Authorization"))) :
    jwtPayload req = [] := by
  exact if_pos (not_or.1 h)

lemma jwtPayload_of_split {p : Parts} (hscheme : HasScheme (req.header (str "Authorization")))
    (h : splitToken ((req.header (str "Authorization")).drop 7) = some p) :
    jwtPayload req = Service.base64urlDecode p.payload := by
  obtain ⟨hdrop, hheader, hpay⟩ := splitToken_eq_some_iff.1 h
  have hrest : ((req.header (str "Authorization")).drop 7).dropWhile (· != 46) =
      46 :: (p.payload ++ 46 :: p.signature) := by
    rw [hdrop]
    exact dropWhile_ne_append hheader
  have htake : (p.payload ++ 46 :: p.signature).takeWhile (· != 46) = p.payload :=
    takeWhile_ne_append hpay
  unfold jwtPayload
  dsimp only
  rw [if_neg (not_and_or.2 (hscheme.imp not_not.2 not_not.2)), hrest, if_neg (cons_ne_nil _ _),
    tail_cons, if_pos (by simp), htake]

lemma dot_not_blank {s : Bytes} (h : ∀ c ∈ s, isBlank c) : dot ∉ s := by
  intro hdot
  exact absurd (h dot hdot) (by decide)

lemma exists_of_extractBearer {authz : Bytes} (h : HasScheme authz) : ∃ front back,
    (∀ c ∈ front, isBlank c) ∧ (∀ c ∈ back, isBlank c) ∧
      authz.drop 7 = front ++ (extractBearer authz ++ back) := by
  obtain ⟨c, rest, hath, hblank⟩ : ∃ c rest, authz = c :: rest ∧ isBlank c = false := by
    cases authz with
    | nil => rcases h with h | h <;> cases h
    | cons c rest =>
      refine ⟨c, rest, rfl, ?_⟩
      rcases h with h | h
      · have hc : c = 66 := (List.cons.inj h).1
        subst hc
        rfl
      · have hc : c = 98 := (List.cons.inj h).1
        subst hc
        rfl
  have hdrop : authz.dropWhile isBlank = authz := by
    rw [hath, dropWhile_cons_of_neg (by simp [hblank])]
  have hlower : (authz.take 7).map toLower = str "bearer " := by
    rcases h with h | h
    · rw [h]
      decide
    · rw [h]
      decide
  have htoken : extractBearer authz = ((authz.drop 7).dropWhile isBlank).rdropWhile isBlank := by
    rw [extractBearer, hdrop, if_pos hlower]
  refine ⟨(authz.drop 7).takeWhile isBlank, ((authz.drop 7).dropWhile isBlank).rtakeWhile isBlank,
    fun c hc => mem_takeWhile_imp hc, fun c hc => mem_rtakeWhile_imp hc, ?_⟩
  rw [htoken, rdropWhile_append_rtakeWhile, takeWhile_append_dropWhile]

lemma jwtPayload_of_token {p : Parts} {json : Bytes}
    (hsplit : splitToken (tokenOf req) = some p) (hjson : b64urlDecode p.payload = some json) :
    jwtPayload req = [] ∨ jwtPayload req = json := by
  by_cases hscheme : HasScheme (req.header (str "Authorization"))
  · right
    obtain ⟨front, back, hfront, hback, hdrop⟩ := exists_of_extractBearer hscheme
    obtain ⟨htoken, hheader, hpay⟩ := splitToken_eq_some_iff.1 hsplit
    have hwhole : splitToken ((req.header (str "Authorization")).drop 7) =
        some ⟨front ++ p.header, p.payload, p.signature ++ back⟩ := by
      refine splitToken_eq_some_iff.2 ⟨?_, ?_, hpay⟩
      · rw [hdrop, show extractBearer (req.header (str "Authorization")) = _ from htoken]
        simp
      · rw [mem_append, not_or]
        exact ⟨dot_not_blank hfront, hheader⟩
    rw [jwtPayload_of_split hscheme hwhole, Service.base64urlDecode_of_jwt hjson]
  · exact .inl (jwtPayload_of_not_scheme hscheme)

/-- If a request is let through, then its token is signed, and the handlers read with `jwt_payload`
the payload of this token that the verifier decoded, or nothing. -/
theorem jwtPayload_eq {calls : List (ℕ × Bytes)} {v : JwtVerifier K} {now : ℕ} {req : Request}
    (h : Served X cfg (fun calls _ _ token => Distinct X calls token) calls v)
    (hdigest : Distinct X calls (tokenOf req)) (hpass : (gate X v now req).1 = none) :
    ∃ p json, splitToken (tokenOf req) = some p ∧ Signed X (init X cfg).2 p ∧
      b64urlDecode p.payload = some json ∧ (jwtPayload req = [] ∨ jwtPayload req = json) := by
  have hvalid : (v.verify X now (tokenOf req)).1.1 = .valid := by
    unfold gate at hpass
    split_ifs at hpass with hempty
    by_contra hne
    simp [hne] at hpass
  obtain ⟨c, hc, hkey, hfresh⟩ := vouched_of_valid h hvalid
  have htoken : c.2 = tokenOf req := by
    rcases mem_cons.1 hc with rfl | hc
    · rfl
    · exact hdigest c hc hkey
  rw [htoken] at hfresh
  obtain ⟨p, json, hsplit, hsigned, hjson, -⟩ := verifyFresh_eq_valid_iff.1 hfresh
  exact ⟨p, json, hsplit, hsigned, hjson, jwtPayload_of_token hsplit hjson⟩

def bearerRequest (token : Bytes) : Request where
  method := .GET
  path := str "/"
  query := []
  version := str "HTTP/1.1"
  headers := [⟨str "Authorization", str "Bearer " ++ token⟩]
  body := []
  keepAlive := true
  params := []

theorem jwtPayload_eq_endless : ∃ p json, splitToken (tokenOf (bearerRequest endlessToken))
    = some p ∧
    Signed toyCrypto (init toyCrypto plainConfig).2 p ∧ b64urlDecode p.payload = some json ∧
      (jwtPayload (bearerRequest endlessToken) = [] ∨ jwtPayload (bearerRequest endlessToken)
        = json) :=
  have hpass : (gate toyCrypto (init toyCrypto plainConfig).2 0
      (bearerRequest endlessToken)).1 = none := rfl
  jwtPayload_eq .init (by simp [Distinct]) hpass

def Denies (X : Crypto K) (cfg : JwtConfig) : Prop :=
  ∀ calls v, Served X cfg (fun _ _ _ _ => True) calls v →
    (∀ now token, (v.verify X now token).1.1 ≠ .valid) ∧
      ∀ now req, ∃ status, (gate X v now req).1 = some status

lemma gate_of_not_valid {v : JwtVerifier K} {now : ℕ}
    (h : ∀ token, (v.verify X now token).1.1 ≠ .valid) (req : Request) :
    ∃ status, (gate X v now req).1 = some status := by
  unfold gate
  split_ifs with hemp
  · exact ⟨_, rfl⟩
  · exact ⟨_, if_neg (h _)⟩

lemma denies_of_fresh (h : ∀ now token, ((init X cfg).2.verifyFresh X now token).1 ≠ .valid) :
    Denies X cfg := by
  intro calls v hserved
  have hnever : ∀ now token, (v.verify X now token).1.1 ≠ .valid := by
    intro now token hvalid
    obtain ⟨c, -, -, hfresh⟩ := vouched_of_valid hserved hvalid
    exact h c.1 c.2 hfresh
  exact ⟨hnever, fun now => gate_of_not_valid (hnever now)⟩

lemma pkey_of_failed (h : (init X cfg).1 = false) : (init X cfg).2.pkey = none := by
  unfold init at *
  split_ifs at * with hrs hpem hhs
  · rfl
  · split at h
    · rfl
    · cases h
  · rfl
  · rfl

def forge (X : Crypto K) (secret json : Bytes) : Bytes :=
  let signed := dot :: base64urlEncode json
  signed ++ dot :: base64urlEncode (X.hmacSha256 secret signed)

lemma forge_parts (X : Crypto K) (secret json : Bytes) : splitToken (forge X secret json) =
    some ⟨[], base64urlEncode json,
      base64urlEncode (X.hmacSha256 secret (dot :: base64urlEncode json))⟩ := by
  refine splitToken_eq_some_iff.2 ⟨?_, by simp, Service.dot_not_mem_base64urlEncode json⟩
  simp [forge]

lemma verifyFresh_forge (halg : cfg.algorithm = str "HS256") {now : ℕ} {json : Bytes}
    (h : claimsStatus cfg now json = .valid) :
    ((init X cfg).2.verifyFresh X now (forge X cfg.secret json)).1 = .valid := by
  obtain ⟨hfound, htime⟩ := claimsStatus_eq_valid_iff.1 h
  refine verifyFresh_eq_valid_iff.2 ⟨_, json, forge_parts X cfg.secret json, ?_,
    Service.b64urlDecode_base64urlEncode json, ?_⟩
  · refine ⟨_, Service.b64urlDecode_base64urlEncode _, ?_⟩
    rw [init_cfg, if_pos halg]
    rfl
  · rw [init_cfg]
    exact ⟨hfound, htime⟩

/-- A verifier whose setup has failed denies everything exactly if its algorithm is not HS256, or if
no payload passes the claims it is configured with. -/
theorem denies_iff (hfail : (init X cfg).1 = false) : Denies X cfg ↔
    cfg.algorithm ≠ str "HS256" ∨ ∀ now json, claimsStatus cfg now json ≠ .valid := by
  constructor
  · intro h
    by_contra hne
    rw [not_or, not_not] at hne
    obtain ⟨halg, hpass⟩ := hne
    simp only [ne_eq, not_forall, not_not] at hpass
    obtain ⟨now, json, hjson⟩ := hpass
    refine (h [] _ .init).1 now (forge X cfg.secret json) ?_
    rw [verify_of_empty (init_lru X cfg)]
    exact verifyFresh_forge halg hjson
  · intro h
    refine denies_of_fresh fun now token hvalid => ?_
    obtain ⟨p, json, -, ⟨sig, -, hsig⟩, -, hfound, htime⟩ := verifyFresh_eq_valid_iff.1 hvalid
    rw [init_cfg] at hsig hfound htime
    rcases h with halg | hclaims
    · rw [if_neg halg, pkey_of_failed hfail] at hsig
      exact X.null_key _ _ hsig
    · exact hclaims now json (claimsStatus_eq_valid_iff.2 ⟨hfound, htime⟩)

theorem denies_iff_withoutKey : Denies toyCrypto { algorithm := str "RS256" } :=
  (denies_iff (by decide)).2 (.inl (by decide))

theorem not_denies : (init toyCrypto {}).1 = false ∧ ¬ Denies toyCrypto {} := by
  refine ⟨by decide, fun h => (h [] _ .init).1 0 endlessToken ?_⟩
  decide +kernel

end SpidoNG.Jwt
