import SpidoNG.Http.Parser

/-!
# The token verifier

`JwtVerifier` of `spido/src/server/jwt.cpp`, with its cache of verdicts and the extraction of the
token from a header.
-/

namespace SpidoNG.Jwt

open Bytes
open Http (isBlank toLower)

def dot : UInt8 := 46
def quote : UInt8 := 34
def backslash : UInt8 := 92
def colon : UInt8 := 58
def comma : UInt8 := 44
def closeBrace : UInt8 := 125

def b64urlVal (c : UInt8) : Option ℕ :=
  if 65 ≤ c && c ≤ 90 then some (c.toNat - 65)
  else if 97 ≤ c && c ≤ 122 then some (c.toNat - 71)
  else if 48 ≤ c && c ≤ 57 then some (c.toNat + 4)
  else if c == 45 then some 62
  else if c == 95 then some 63
  else none

def b64urlDecodeFrom (buf bits : ℕ) : Bytes → Option Bytes
  | [] => some []
  | c :: s =>
    match b64urlVal c with
    | none => none
    | some v =>
      let buf := (buf * 64 + v) % 2 ^ 32
      if 8 ≤ bits + 6 then
        (b64urlDecodeFrom buf (bits - 2) s).map (UInt8.ofNat (buf / 2 ^ (bits - 2) % 256) :: ·)
      else b64urlDecodeFrom buf (bits + 6) s

def b64urlDecode (s : Bytes) : Option Bytes := b64urlDecodeFrom 0 0 s

def afterFirst (needle : Bytes) : Bytes → Option Bytes
  | [] => none
  | c :: s =>
    if needle.isPrefixOf (c :: s) then some ((c :: s).drop needle.length) else afterFirst needle s

def untilQuote (prev : UInt8) : Bytes → Option Bytes
  | [] => none
  | c :: s => if c == quote && prev != backslash then some [] else (untilQuote c s).map (c :: ·)

def getClaim (json name : Bytes) : Bytes :=
  match afterFirst (quote :: (name ++ [quote])) json with
  | none => []
  | some s =>
    match s.dropWhile isBlank with
    | [] => []
    | c :: s =>
      if c != colon then []
      else
        match s.dropWhile isBlank with
        | [] => []
        | c :: s =>
          if c == quote then (untilQuote c s).getD []
          else ((c :: s).takeWhile fun c => c != comma && c != closeBrace).rdropWhile isBlank

def int64 (n : ℤ) : ℤ := Int.bmod n (2 ^ 64)

def secondsFrom (n : ℤ) : Bytes → ℤ
  | [] => n
  | c :: s => if 48 ≤ c && c ≤ 57 then secondsFrom (int64 (n * 10 + (c.toNat - 48))) s else 0

def claimSeconds (json name : Bytes) : ℤ := secondsFrom 0 (getClaim json name)

structure JwtConfig where
  enabled : Bool := false
  algorithm : Bytes := str "HS256"
  secret : Bytes := []
  publicKeyPem : Bytes := []
  requiredClaims : List Bytes := [str "exp"]
  issuer : Bytes := []
  audience : Bytes := []
  cacheSize : ℕ := 65536
  leewaySeconds : ℕ := 30
  deriving DecidableEq

inductive JwtStatus
  | valid
  | missing
  | malformed
  | badSignature
  | expired
  | notYetValid
  | badIssuer
  | badAudience
  | missingClaim
  | internal
  deriving DecidableEq

def jwtStatusStr : JwtStatus → Bytes
  | .valid => str "valid"
  | .missing => str "missing"
  | .malformed => str "malformed"
  | .badSignature => str "bad_signature"
  | .expired => str "expired"
  | .notYetValid => str "not_yet_valid"
  | .badIssuer => str "bad_issuer"
  | .badAudience => str "bad_audience"
  | .missingClaim => str "missing_claim"
  | .internal => str "internal"

structure JwtCacheEntry where
  exp : ℤ := 0
  valid : Bool := false
  reason : Bytes := []
  deriving DecidableEq

def setReason (e : JwtCacheEntry) (r : Bytes) : JwtCacheEntry := { e with reason := r.take 23 }

def verdict (exp : ℤ) (status : JwtStatus) : JwtStatus × JwtCacheEntry :=
  (status, setReason { exp := exp, valid := status == .valid } (jwtStatusStr status))

def JwtCacheEntry.stale (e : JwtCacheEntry) (now : ℕ) : Bool :=
  e.valid && decide (e.exp ≠ 0 ∧ e.exp ≤ now)

def JwtCacheEntry.status (e : JwtCacheEntry) : JwtStatus :=
  if e.valid then .valid else if e.reason.take 2 = str "ex" then .expired else .badSignature

structure JwtCache where
  capacity : ℕ
  lru : List (Bytes × JwtCacheEntry) := []
  deriving DecidableEq

namespace JwtCache

def make (capacity : ℕ) : JwtCache := { capacity := if capacity = 0 then 1 else capacity }

def find (c : JwtCache) (key : Bytes) : Option JwtCacheEntry :=
  (c.lru.find? fun p => p.1 == key).map (·.2)

def others (c : JwtCache) (key : Bytes) : List (Bytes × JwtCacheEntry) :=
  c.lru.filter fun p => p.1 != key

def lookup (c : JwtCache) (key : Bytes) : Option JwtCacheEntry × JwtCache :=
  match c.find key with
  | none => (none, c)
  | some e => (some e, { c with lru := (key, e) :: c.others key })

def insert (c : JwtCache) (key : Bytes) (e : JwtCacheEntry) : JwtCache :=
  match c.find key with
  | some _ => { c with lru := (key, e) :: c.others key }
  | none => { c with lru := (key, e) :: if c.capacity ≤ c.lru.length then c.lru.dropLast
    else c.lru }

end JwtCache

/-- OpenSSL, with the facts that proofs use. -/
structure Crypto (K : Type) where
  sha256 : Bytes → Bytes
  hmacSha256 : (key msg : Bytes) → Bytes
  readPublicKey : Bytes → Option K
  digestVerify : Option K → (msg sig : Bytes) → Option Bool
  hmac_length : ∀ key msg, (hmacSha256 key msg).length = 32
  null_key : ∀ msg sig, digestVerify none msg sig ≠ some true

structure JwtVerifier (K : Type) where
  cfg : JwtConfig
  cache : JwtCache
  pkey : Option K := none

structure Parts where
  header : Bytes
  payload : Bytes
  signature : Bytes

def Parts.signed (p : Parts) : Bytes := p.header ++ dot :: p.payload

def splitToken (token : Bytes) : Option Parts :=
  match token.dropWhile (· != dot) with
  | [] => none
  | _ :: rest =>
    match rest.dropWhile (· != dot) with
    | [] => none
    | _ :: sig => some ⟨token.takeWhile (· != dot), rest.takeWhile (· != dot), sig⟩

def skippedClaims : List Bytes := [str "exp", str "nbf", str "iss", str "aud"]

def claimsStatus (cfg : JwtConfig) (now : ℕ) (json : Bytes) : JwtStatus :=
  if claimSeconds json (str "exp") ≠ 0 ∧ claimSeconds json (str "exp") ≤ now then .expired
  else if (now : ℤ) + cfg.leewaySeconds < claimSeconds json (str "nbf") then .notYetValid
  else if cfg.issuer ≠ [] ∧ getClaim json (str "iss") ≠ cfg.issuer then .badIssuer
  else if cfg.audience ≠ [] ∧ getClaim json (str "aud") ≠ cfg.audience then .badAudience
  else if cfg.requiredClaims.any fun name =>
      !skippedClaims.contains name && (getClaim json name).isEmpty then .missingClaim
  else .valid

def checkClaims (cfg : JwtConfig) (now : ℕ) (json : Bytes) : JwtStatus × JwtCacheEntry :=
  verdict (claimSeconds json (str "exp")) (claimsStatus cfg now json)

namespace JwtVerifier

variable {K : Type}

def init (X : Crypto K) (cfg : JwtConfig) : Bool × JwtVerifier K :=
  let v : JwtVerifier K := { cfg := cfg, cache := .make cfg.cacheSize }
  if cfg.algorithm = str "RS256" then
    if cfg.publicKeyPem = [] then (false, v)
    else
      match X.readPublicKey cfg.publicKeyPem with
      | none => (false, v)
      | some key => (true, { v with pkey := some key })
  else if cfg.algorithm = str "HS256" then (cfg.secret ≠ [], v)
  else (false, v)

def checkSignature (X : Crypto K) (v : JwtVerifier K) (signed sig : Bytes) : Option Bool :=
  if v.cfg.algorithm = str "HS256" then
    let mac := X.hmacSha256 v.cfg.secret signed
    some (mac.length == 32 && sig.length == 32 && mac == sig)
  else X.digestVerify v.pkey signed sig

/-- `verify` after a cache miss. -/
def verifyFresh (X : Crypto K) (v : JwtVerifier K) (now : ℕ) (token : Bytes) :
    JwtStatus × JwtCacheEntry :=
  match splitToken token with
  | none => verdict 0 .malformed
  | some p =>
    match b64urlDecode p.signature with
    | none => verdict 0 .malformed
    | some sig =>
      match v.checkSignature X p.signed sig with
      | none => verdict 0 .internal
      | some false => verdict 0 .badSignature
      | some true =>
        match b64urlDecode p.payload with
        | none => verdict 0 .malformed
        | some json => checkClaims v.cfg now json

def verify (X : Crypto K) (v : JwtVerifier K) (now : ℕ) (token : Bytes) :
    (JwtStatus × JwtCacheEntry) × JwtVerifier K :=
  let key := X.sha256 token
  match v.cache.lookup key with
  | (some cached, cache) =>
    if cached.stale now then
      let e := setReason { cached with valid := false } (str "expired")
      ((.expired, e), { v with cache := cache.insert key e })
    else ((cached.status, cached), { v with cache := cache })
  | (none, cache) =>
    let r := v.verifyFresh X now token
    (r, { v with cache := cache.insert key r.2 })

end JwtVerifier

def extractBearer (authz : Bytes) : Bytes :=
  let authz := authz.dropWhile isBlank
  if (authz.take 7).map toLower = str "bearer " then
    ((authz.drop 7).dropWhile isBlank).rdropWhile isBlank
  else []

end SpidoNG.Jwt
