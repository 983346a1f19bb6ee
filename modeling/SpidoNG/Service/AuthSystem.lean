import SpidoNG.Lib.Threads
import SpidoNG.Service.JsonRoundTrip
import SpidoNG.Service.Tokens

/-!
# The refresh table and the requests that use it

Workers answer login, refresh and logout requests, whose operations are interleaved in any way.
-/

namespace SpidoNG.Service

open Bytes Pg Threads Function

structure TokenRow where
  userId : Bytes
  expiresAt : ℤ

structure TokenTable where
  rows : Bytes → Option TokenRow
  drawn : Bytes → Option ℕ
  taken : Bytes → Option ℕ

structure Outside where
  seconds : ℕ := 0
  dbNow : ℤ := 0
  random : Option Bytes := none
  failure : Option Bytes := none
  users : List (List (Option Bytes)) := []

namespace TokenTable

def insert (token uid : Bytes) (exp : ℤ) (T : TokenTable) : PgResult × TokenTable :=
  if (T.rows token).isSome then (.error (str "duplicate key value"), T)
  else ({}, { T with rows := update T.rows token (some ⟨uid, exp⟩) })

def consume (now : ℤ) (b : ℕ) (token : Bytes) (T : TokenTable) : PgResult × TokenTable :=
  match T.rows token with
  | none => ({}, T)
  | some row =>
    if row.expiresAt ≤ now then ({}, T)
    else ({ rows := [[some row.userId]] },
      { T with
        rows := update T.rows token none
        taken := update T.taken token (some b) })

def delete (token : Bytes) (T : TokenTable) : PgResult × TokenTable :=
  ({}, { T with rows := update T.rows token none })

def execute (s : AuthSettings) (env : Outside) (b : ℕ) (sql : Bytes) (params : List PgParam)
    (T : TokenTable) : PgResult × TokenTable :=
  match env.failure, params.map PgParam.value with
  | some msg, _ => (.error msg, T)
  | none, [token, uid, exp] =>
    if sql = insertTokenSql s then T.insert token uid (signedNumber exp) else ({}, T)
  | none, [token] =>
    if sql = consumeTokenSql s then T.consume env.dbNow b token
    else if sql = deleteTokenSql s then T.delete token
    else ({}, T)
  | none, _ => ({ rows := env.users }, T)

end TokenTable

inductive AuthRequest
  | login (req : Request)
  | refresh (req : Request)
  | logout (req : Request)

def presentedToken (req : Request) : Option Bytes :=
  ((JsonBody.parse req.body).bind (·.get (str "refresh_token"))).filter (· ≠ [])

namespace AuthRequest

def token : AuthRequest → Option Bytes
  | login _ => none
  | refresh req => presentedToken req
  | logout req => presentedToken req

def refreshed : AuthRequest → Option Bytes
  | refresh req => presentedToken req
  | _ => none

def loggedOut : AuthRequest → Option Bytes
  | logout req => presentedToken req
  | _ => none

end AuthRequest

abbrev AuthStep := ℕ × AuthOp

@[reducible] def AuthStep.Res (x : AuthStep) : Type := x.2.Res

section Machine

variable {K : Type} (X : Jwt.Crypto K) (lib : Platform) (s : AuthSettings)

def AuthRequest.handler : AuthRequest → AuthAction Response
  | login req => Service.login X lib s req
  | refresh req => Service.refresh X lib s req
  | logout req => Service.logout s req

def stamp (b : ℕ) : AuthAction Response → Prog AuthStep AuthStep.Res (Option Response)
  | .pure res => .pure (some res)
  | .call op k => .call (b, op) fun r => stamp b (k r)

def execStep (env : Outside) : (x : AuthStep) → TokenTable → x.Res × TokenTable
  | (_, .nowUnix), T => (env.seconds, T)
  | (b, .randBytes), T =>
    (env.random, { T with
      drawn := update T.drawn (randomRefreshToken env.random) (some b) })
  | (b, .execPrepared _ sql _ params), T => T.execute s env b sql params

def authMachine (Tid : Type) : Machine Tid TokenTable Outside AuthStep.Res
    (fun _ : AuthRequest => Response) (fun _ : AuthRequest => Response) where
  exec _ env _ x T := some (execStep s env x T)
  body b _ c := stamp b (c.handler X lib s)
  script _ c := .call c fun res => .pure (some res)
  runsOn _ _ := true

end Machine

def returnedToken (res : Response) : Option Bytes :=
  (JsonBody.parse res.body).bind (·.get (str "refresh_token"))

lemma round_string {name : Bytes} (hname : JsonText.Chars name name) (x : Bytes) {d : UInt8}
    (hd : isWs d = false) (u : Bytes) (b : JsonBody) :
    JsonBody.Round b (34 :: (name ++ 34 :: 58 :: 34 :: (x.flatMap escapeChar ++ 34 :: d :: u)))
      { b with fields := b.fields ++ [(name, x)] } d u := by
  refine .string (by rw [skipWs_cons (by decide), parseString_chars hname])
    (skipWs_cons (by decide))
    ?_ (skipWs_cons hd)
  rw [skipWs_cons (by decide), parseString_chars (chars_escape x)]

section Answers

variable (lib : Platform) (s : AuthSettings) (tp : TokenPair)

def tokenMembers : Bytes :=
  34 :: (str "access_token" ++ 34 :: 58 :: 34 :: (tp.access.flatMap escapeChar ++ 34 :: 44 ::
    34 :: (str "refresh_token" ++ 34 :: 58 :: 34 :: (tp.refresh.flatMap escapeChar ++ 34 :: 44 ::
      34 :: (str "expires_in" ++ 34 :: 58 :: (toString s.accessTtlS ++ 44 ::
        34 :: (str "token_type" ++ 34 :: 58 :: 34 :: ((str "Bearer").flatMap escapeChar ++
          34 :: 125 :: []))))))))

lemma body_sendTokens : (sendTokens lib s tp).body = 123 :: tokenMembers s tp := by
  have hesc : ∀ name ∈ [str "access_token", str "refresh_token", str "expires_in",
    str "token_type"],
      name.flatMap escapeChar = name := by decide +kernel
  simp only [List.mem_cons, List.not_mem_nil, or_false, forall_eq_or_imp, forall_eq] at hesc
  obtain ⟨h₁, h₂, h₃, h₄⟩ := hesc
  simp [sendTokens, Response.json, Response.setContentType, Response.setStatus, Response.header,
    Json.dump, Json.dumpMembers, commaSeparated, emitJsonStr, tokenMembers, List.intercalate,
    openBrace, closeBrace, quote, comma, h₁, h₂, h₃, h₄]

lemma status_sendTokens : (sendTokens lib s tp).status = 200 := rfl

lemma returnedToken_sendTokens : returnedToken (sendTokens lib s tp) = some tp.refresh := by
  have hacc : JsonText.Chars (str "access_token") (str "access_token") := .self (by decide +kernel)
  have hrefresh : JsonText.Chars (str "refresh_token") (str "refresh_token") :=
    .self (by decide +kernel)
  have hexp : JsonText.Chars (str "expires_in") (str "expires_in") := .self (by decide +kernel)
  have htype : JsonText.Chars (str "token_type") (str "token_type") := .self (by decide +kernel)
  have hparse : JsonBody.parse (sendTokens lib s tp).body = some ⟨[(str "access_token", tp.access),
      (str "refresh_token", tp.refresh), (str "expires_in", toString s.accessTtlS),
      (str "token_type", str "Bearer")], []⟩ := by
    have hskip : skipWs (tokenMembers s tp) = tokenMembers s tp := skipWs_cons (by decide)
    obtain ⟨n, hn⟩ : ∃ n, (123 :: tokenMembers s tp).length + 1 = n + 4 :=
      ⟨_, (Nat.sub_add_cancel (by simp [tokenMembers]; omega)).symm⟩
    unfold JsonBody.parse
    rw [body_sendTokens, hn, skipWs_cons (by decide)]
    dsimp only
    rw [if_neg (by decide), hskip, tokenMembers]
    dsimp only
    rw [if_neg (by decide), (round_string hacc _ (by decide) _ _).parseMembers_eq,
      if_pos (by decide), (round_string hrefresh _ (by decide) _ _).parseMembers_eq,
      if_pos (by decide), (round_number hexp _ (by decide) _ _).parseMembers_eq,
      if_pos (by decide), (round_string htype _ (by decide) _ _).parseMembers_eq,
      if_neg (by decide), if_pos (by decide)]
    rfl
  rw [returnedToken, hparse]
  rfl

end Answers

end SpidoNG.Service
