import SpidoNG.Lib.Interaction
import SpidoNG.Service.Base64url

/-!
# Login, refresh and logout

The handlers of `generator/templates/auth_endpoints.cpp.j2`, which issue tokens, and what
`main.cpp.j2` tells the verifier.
-/

namespace SpidoNG.Service

open Bytes Pg

structure AuthSettings extends AuthConfig where
  algo : Bytes := str "HS256"
  leewayS : ℕ := 60
  issuer : Bytes := []
  audience : Bytes := []
  refreshEnabled : Bool := false
  usersTable : Bytes := str "users"
  emailColumn : Bytes := str "email"
  passwordColumn : Bytes := str "password_hash"
  userIdColumn : Bytes := str "id"
  accessTtlS : ℤ := 900
  refreshTtlS : ℤ := 30 * 24 * 3600
  refreshTable : Bytes := str "refresh_tokens"

structure AuthSettings.Accepted (s : AuthSettings) : Prop where
  jwt : s.type = .jwt
  algo : s.algo = str "HS256"
  secret : s.secret ≠ []
  refresh : s.refreshEnabled = true

def AuthSettings.jwtConfig (s : AuthSettings) : Jwt.JwtConfig where
  enabled := true
  algorithm := s.algo
  secret := s.secret
  issuer := s.issuer
  audience := s.audience
  leewaySeconds := s.leewayS

def jwtHeader : Bytes := str "\x7b\"alg\":\"HS256\",\"typ\":\"JWT\"\x7d"

def signJwt {K : Type} (X : Jwt.Crypto K) (s : AuthSettings) (payloadJson : Bytes) : Bytes :=
  let signingInput := base64urlEncode jwtHeader ++ Jwt.dot :: base64urlEncode payloadJson
  signingInput ++ Jwt.dot :: base64urlEncode (X.hmacSha256 s.secret signingInput)

def AuthSettings.accessExp (s : AuthSettings) (n : ℕ) : ℤ := Jwt.int64 (n + s.accessTtlS)

def AuthSettings.refreshExp (s : AuthSettings) (n : ℕ) : ℤ := Jwt.int64 (n + s.refreshTtlS)

def payloadRest (n : ℕ) (exp : ℤ) : Bytes :=
  str "\",\"iat\":" ++ (toString n ++ (str ",\"exp\":" ++ (toString exp ++ str "\x7d")))

def accessPayload (uid : Bytes) (n : ℕ) (exp : ℤ) : Bytes :=
  str "\x7b\"sub\":\"" ++ (uid ++ payloadRest n exp)

def AuthSettings.accessToken {K : Type} (X : Jwt.Crypto K) (s : AuthSettings) (n : ℕ)
    (uid : Bytes) :
    Bytes := signJwt X s (accessPayload uid n (s.accessExp n))

def randomRefreshToken : Option Bytes → Bytes
  | none => []
  | some buf => buf.flatMap fun b => [hexChar (b.toNat / 16), hexChar (b.toNat % 16)]

structure TokenPair where
  access : Bytes
  refresh : Bytes

inductive AuthOp
  | nowUnix
  | randBytes
  | execPrepared (name sql : Bytes) (types : List Oid) (params : List PgParam)

@[reducible] def AuthOp.Res : AuthOp → Type
  | .nowUnix => ℕ
  | .randBytes => Option Bytes
  | .execPrepared _ _ _ _ => PgResult

abbrev AuthAction (α : Type) := Prog AuthOp AuthOp.Res α

def execTexts (name sql : Bytes) (params : List Bytes) : AuthAction PgResult :=
  .perform (AuthOp.execPrepared name sql (params.map fun _ => Oid.unknown) (params.map .text))

section Statements

variable (s : AuthSettings)

def loginSql : Bytes :=
  str "SELECT " ++ s.userIdColumn ++ str "::text FROM " ++ s.usersTable ++ str " WHERE " ++
    s.emailColumn ++ str " = $1 AND   " ++ s.passwordColumn ++ str " = crypt($2, " ++
      s.passwordColumn ++ str ")"

def insertTokenSql : Bytes :=
  str "INSERT INTO " ++ s.refreshTable ++
    str " (token, user_id, expires_at) VALUES ($1, $2, to_timestamp($3::bigint))"

def consumeTokenSql : Bytes :=
  str "DELETE FROM " ++ s.refreshTable ++
    str " WHERE token = $1 AND expires_at > now() RETURNING user_id::text"

def deleteTokenSql : Bytes := str "DELETE FROM " ++ s.refreshTable ++ str " WHERE token = $1"

end Statements

variable {K : Type} (X : Jwt.Crypto K) (lib : Platform) (s : AuthSettings)

def issueTokens (uid : Bytes) : AuthAction TokenPair := do
  let n ← .perform AuthOp.nowUnix
  let buf ← .perform AuthOp.randBytes
  let refresh := randomRefreshToken buf
  let _ ← execTexts (str "rt_insert") (insertTokenSql s) [refresh, uid, toString (s.refreshExp n)]
  return ⟨s.accessToken X n uid, refresh⟩

def sendTokens (tp : TokenPair) : Response :=
  Response.json lib (Response.setStatus {} 200) <| .object
    [(str "access_token", .string tp.access), (str "refresh_token", .string tp.refresh),
      (str "expires_in", .int s.accessTtlS), (str "token_type", .string (str "Bearer"))]

def rowUser (r : PgResult) : Bytes := (r.cell 0 0).getD []

def answerTokens (none empty : Response) (r : PgResult) : AuthAction Response :=
  if r.ok = false then return sendDbError lib r
  else if r.rows = [] then return none
  else if rowUser r = [] then return empty
  else do
    let tp ← issueTokens X s (rowUser r)
    return sendTokens lib s tp

def login (req : Request) : AuthAction Response :=
  match JsonBody.parse req.body with
  | none => return .plain 400 (str "invalid json")
  | some body =>
    let email := (body.get (str "email")).getD []
    let password := (body.get (str "password")).getD []
    if email = [] ∨ password = [] then return .plain 400 (str "email + password required")
    else do
      let r ← execTexts (str "login_verify") (loginSql s) [email, password]
      answerTokens X lib s (.plain 401 (str "invalid credentials"))
        (.plain 500 (str "login failed")) r

def refreshToken (rt : Bytes) : AuthAction Response := do
  let r ← execTexts (str "rt_consume") (consumeTokenSql s) [rt]
  answerTokens X lib s (.plain 401 (str "invalid refresh token"))
    (.plain 500 (str "refresh failed")) r

def logoutToken (rt : Bytes) : AuthAction Response := do
  let _ ← execTexts (str "rt_delete") (deleteTokenSql s) [rt]
  return .setStatus {} 204

def withToken (k : Bytes → AuthAction Response) (req : Request) : AuthAction Response :=
  match JsonBody.parse req.body with
  | none => return .plain 400 (str "invalid json")
  | some body =>
    let rt := (body.get (str "refresh_token")).getD []
    if rt = [] then return .plain 400 (str "refresh_token required") else k rt

def refresh : Request → AuthAction Response := withToken (refreshToken X lib s)

def logout : Request → AuthAction Response := withToken (logoutToken s)

end SpidoNG.Service
