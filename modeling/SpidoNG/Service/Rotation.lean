import SpidoNG.Service.AuthSystem

/-!
# Rotation of refresh tokens

A refresh token is good for one refresh, for none after a logout, and a client finds its own.
-/

namespace SpidoNG.Service

open Bytes Pg Threads List Option Function

variable {Tid K : Type} [DecidableEq Tid] {X : Jwt.Crypto K} {lib : Platform} {s : AuthSettings}

abbrev AuthSys (Tid : Type) := Sys Tid TokenTable AuthStep.Res
  (fun _ : AuthRequest => Response) (fun _ : AuthRequest => Response)

abbrev AuthEvent (Tid : Type) := Event Tid Outside AuthRequest

abbrev AuthRecord (Tid : Type) := CallRecord Tid (fun _ : AuthRequest => Response)

def AuthSys.start (Tid : Type) (rows : Bytes → Option TokenRow) : AuthSys Tid :=
  Sys.init ⟨rows, fun _ => none, fun _ => none⟩

def Refreshed (x : Bytes) (r : AuthRecord Tid) : Prop :=
  r.call.refreshed = some x ∧ r.ret.status = 200

def LoggedOut (x : Bytes) (r : AuthRecord Tid) : Prop :=
  r.call.loggedOut = some x ∧ r.ret.status = 204

structure Rotates (M : Machine Tid TokenTable Outside AuthStep.Res (fun _ : AuthRequest => Response)
    (fun _ : AuthRequest => Response)) (σ : AuthSys Tid) : Prop where
  once : σ.calls.Pairwise fun r r' => ∀ x, Refreshed x r → ¬ Refreshed x r' ∧ ¬ LoggedOut x r'
  stored : ∀ t σ', step M σ (.leave t) = some σ' → ∀ r ∈ σ'.calls.head?, ∀ x, r.ret.status = 200 →
    returnedToken r.ret = some x → (σ'.shared.rows x).isSome

lemma AuthRequest.token_of_loggedOut {c : AuthRequest} {x : Bytes} (h : c.loggedOut = some x) :
    c.token = some x := by
  cases c with
  | logout => exact h
  | login req | refresh req => cases h

def Presented (σ : AuthSys Tid) (x : Bytes) : Prop :=
  (∃ t, ∃ a ∈ σ.active t, a.call.token = some x) ∨ ∃ r ∈ σ.calls, r.call.token = some x

def Known (σ : AuthSys Tid) (x : Bytes) : Prop :=
  σ.shared.rows x ≠ none ∨ σ.shared.drawn x ≠ none ∨ Presented σ x

/-- What the next operation of a request has to meet: random tokens are new, and the statements
whose results are not looked at do not fail. -/
def OpOrderly (s : AuthSettings) (σ : AuthSys Tid) (env : Outside) : AuthOp → Prop
  | .nowUnix => True
  | .randBytes => ¬ Known σ (randomRefreshToken env.random)
  | .execPrepared _ sql _ _ => sql = insertTokenSql s ∨ sql = deleteTokenSql s → env.failure = none

def nextOp (a : Active AuthStep.Res fun _ : AuthRequest => Response) : Option AuthOp :=
  match a.rest with
  | .pure _ => none
  | .call x _ => some x.2

def Orderly (s : AuthSettings) (σ : AuthSys Tid) : AuthEvent Tid → Prop
  | .start _ _ _ => True
  -- Nobody presents a token that a request has drawn and not yet given out.
  | .enter t _ => ∀ c ∈ σ.next t, ∀ x ∈ c.token, ∀ u, ∀ a ∈ σ.active u,
      σ.shared.drawn x ≠ some a.began
  | .step t env => ∀ a ∈ σ.active t, ∀ op ∈ nextOp a, OpOrderly s σ env op
  -- No refresh that has taken the row of a token is under way when a logout is answered.
  | .leave t => ∀ a ∈ σ.active t, ∀ x ∈ a.call.loggedOut, ∀ u, ∀ a' ∈ σ.active u,
      σ.shared.taken x ≠ some a'.began
  | .finish _ => True

def Took (T : TokenTable) (b : ℕ) (c : AuthRequest) : Prop :=
  ∀ x, c.refreshed = some x → T.taken x = some b

def textsOp (name sql : Bytes) (params : List Bytes) : AuthOp :=
  .execPrepared name sql (params.map fun _ => Oid.unknown) (params.map .text)

section Programs

variable (X lib s)

def storing (n : ℕ) (uid x : Bytes) : AuthAction Response :=
  .call (textsOp (str "rt_insert") (insertTokenSql s) [x, uid, toString (s.refreshExp n)]) fun _ =>
    .pure (sendTokens lib s ⟨s.accessToken X n uid, x⟩)

def drawing (uid : Bytes) (n : ℕ) : AuthAction Response :=
  .call .randBytes fun buf => storing X lib s n uid (randomRefreshToken buf)

inductive Phase (T : TokenTable) (b : ℕ) : AuthRequest → AuthAction Response → Prop
  | refused {c : AuthRequest} {res : Response} (hres : res.status ≠ 200 ∧ res.status ≠ 204) :
      Phase T b c (.pure res)
  | login {req : Request} {email password : Bytes} :
      Phase T b (.login req) (.call (textsOp (str "login_verify") (loginSql s) [email, password])
        (answerTokens X lib s (.plain 401 (str "invalid credentials"))
          (.plain 500 (str "login failed"))))
  | consuming {req : Request} {x : Bytes} (hx : presentedToken req = some x) :
      Phase T b (.refresh req) (.call (textsOp (str "rt_consume") (consumeTokenSql s) [x])
        (answerTokens X lib s (.plain 401 (str "invalid refresh token"))
          (.plain 500 (str "refresh failed"))))
  | issuing {c : AuthRequest} {uid : Bytes} (htook : Took T b c) :
      Phase T b c (.call .nowUnix (drawing X lib s uid))
  | drawing {c : AuthRequest} {uid : Bytes} {n : ℕ} (htook : Took T b c) :
      Phase T b c (.call .randBytes fun buf => storing X lib s n uid (randomRefreshToken buf))
  | storing {c : AuthRequest} {uid x : Bytes} {n : ℕ} (htook : Took T b c)
      (hdrawn : T.drawn x = some b) (hrow : T.rows x = none) :
      Phase T b c (.call (textsOp (str "rt_insert") (insertTokenSql s)
        [x, uid, toString (s.refreshExp n)]) fun _ =>
          .pure (sendTokens lib s ⟨s.accessToken X n uid, x⟩))
  | issued {c : AuthRequest} {tp : TokenPair} (htook : Took T b c)
      (hdrawn : T.drawn tp.refresh = some b) (hrow : T.rows tp.refresh ≠ none) :
      Phase T b c (.pure (sendTokens lib s tp))
  | deleting {req : Request} {x : Bytes} (hx : presentedToken req = some x) :
      Phase T b (.logout req) (.call (textsOp (str "rt_delete") (deleteTokenSql s) [x]) fun _ =>
        .pure (.setStatus {} 204))
  | deleted {req : Request} (hrow : ∀ x, presentedToken req = some x → T.rows x = none) :
      Phase T b (.logout req) (.pure (.setStatus {} 204))

end Programs

inductive Effect (b : ℕ) (c : AuthRequest) (σ : AuthSys Tid) : TokenTable → Prop
  | quiet : Effect b c σ σ.shared
  | draw {x : Bytes} (hnew : ¬ Known σ x) :
      Effect b c σ { σ.shared with drawn := update σ.shared.drawn x (some b) }
  | insert {x : Bytes} {row : TokenRow} (hdrawn : σ.shared.drawn x = some b) :
      Effect b c σ { σ.shared with rows := update σ.shared.rows x (some row) }
  | take {x : Bytes} (hx : c.token = some x) (hrow : σ.shared.rows x ≠ none) :
      Effect b c σ { σ.shared with
        rows := update σ.shared.rows x none
        taken := update σ.shared.taken x (some b) }
  | delete {x : Bytes} (hx : c.token = some x) :
      Effect b c σ { σ.shared with rows := update σ.shared.rows x none }

lemma withToken_cases (k : Bytes → AuthAction Response) (req : Request) :
    (∃ x, presentedToken req = some x ∧ withToken k req = k x) ∨
      ∃ t, withToken k req = .pure (.plain 400 t) := by
  unfold withToken presentedToken
  cases JsonBody.parse req.body with
  | none => exact .inr ⟨_, rfl⟩
  | some body =>
    cases hget : body.get (str "refresh_token") with
    | none =>
      refine .inr ⟨str "refresh_token required", ?_⟩
      simp [hget]
      rfl
    | some x =>
      by_cases hx : x = []
      · refine .inr ⟨str "refresh_token required", ?_⟩
        simp [hget, hx]
        rfl
      · refine .inl ⟨x, ?_⟩
        simp [hget, hx]

lemma phase_handler (T : TokenTable) (b : ℕ) (c : AuthRequest) :
    Phase X lib s T b c (c.handler X lib s) := by
  cases c with
  | login =>
    simp only [AuthRequest.handler, login]
    split
    · exact .refused (by decide)
    · split_ifs with h
      · exact .refused (by decide)
      · exact .login
  | refresh req =>
    rcases withToken_cases (refreshToken X lib s) req with ⟨x, hx, heq⟩ | ⟨t, heq⟩
    · rw [AuthRequest.handler, refresh, heq]
      exact .consuming hx
    · rw [AuthRequest.handler, refresh, heq]
      exact .refused (by simp)
  | logout req =>
    rcases withToken_cases (logoutToken s) req with ⟨x, hx, heq⟩ | ⟨t, heq⟩
    · rw [AuthRequest.handler, logout, heq]
      exact .deleting hx
    · rw [AuthRequest.handler, logout, heq]
      exact .refused (by simp)

lemma deleteTokenSql_ne : deleteTokenSql s ≠ consumeTokenSql s := by
  intro h
  have hlen := congrArg List.length h
  simp [deleteTokenSql, consumeTokenSql, str] at hlen

lemma phase_answerTokens {T : TokenTable} {b : ℕ} {c : AuthRequest} {none empty : Response}
    (hnone : none.status ≠ 200 ∧ none.status ≠ 204) (hemp : empty.status ≠ 200 ∧ empty.status ≠ 204)
    {r : PgResult} (htook : r.rows ≠ [] → Took T b c) :
    Phase X lib s T b c (answerTokens X lib s none empty r) := by
  unfold answerTokens
  split_ifs with hok hrows huser
  · exact .refused (by simp [status_sendDbError])
  · exact .refused hnone
  · exact .refused hemp
  · exact .issuing (htook hrows)

section Statements

variable {env : Outside} (b : ℕ) (T : TokenTable) (name sql x y z : Bytes)

lemma execStep_failure {msg : Bytes} (h : env.failure = some msg) (params : List Bytes) :
    execStep s env (b, textsOp name sql params) T = (.error msg, T) := by
  simp [execStep, textsOp, TokenTable.execute, h]

lemma execStep_login (h : env.failure = none) :
    execStep s env (b, textsOp name sql [x, y]) T = ({ rows := env.users }, T) := by
  simp [execStep, textsOp, TokenTable.execute, h]

lemma execStep_insert (h : env.failure = none) :
    execStep s env (b, textsOp name (insertTokenSql s) [x, y, z]) T =
      T.insert x y (signedNumber z) := by
  simp [execStep, textsOp, TokenTable.execute, h, PgParam.text]

lemma execStep_consume (h : env.failure = none) :
    execStep s env (b, textsOp name (consumeTokenSql s) [x]) T = T.consume env.dbNow b x := by
  simp [execStep, textsOp, TokenTable.execute, h, PgParam.text]

lemma execStep_delete (h : env.failure = none) :
    execStep s env (b, textsOp name (deleteTokenSql s) [x]) T = T.delete x := by
  simp [execStep, textsOp, TokenTable.execute, h, PgParam.text, deleteTokenSql_ne]

end Statements

section

omit [DecidableEq Tid]

lemma not_known {σ : AuthSys Tid} {x : Bytes} (h : ¬ Known σ x) :
    σ.shared.rows x = none ∧ σ.shared.drawn x = none ∧ ¬ Presented σ x := by
  simpa only [Known, not_or, not_not] using h

lemma Phase.act {σ : AuthSys Tid} {env : Outside} {b : ℕ} {c : AuthRequest} {op : AuthOp}
    {k : op.Res → AuthAction Response} (h : Phase X lib s σ.shared b c (.call op k))
    (hok : OpOrderly s σ env op) : Effect b c σ (execStep s env (b, op) σ.shared).2 ∧
      Phase X lib s (execStep s env (b, op) σ.shared).2 b c
        (k (execStep s env (b, op) σ.shared).1) := by
  cases h with
  | @login _ email password =>
    have hsame : (execStep s env (b, textsOp (str "login_verify") (loginSql s) [email, password])
        σ.shared).2 = σ.shared := by
      cases hfail : env.failure with
      | none => rw [execStep_login _ _ _ _ _ _ hfail]
      | some => rw [execStep_failure _ _ _ _ hfail]
    rw [hsame]
    exact ⟨.quiet, phase_answerTokens (by simp) (by simp) fun _ x hx => by cases hx⟩
  | @consuming _ x hx =>
    cases hfail : env.failure with
    | some =>
      rw [execStep_failure _ _ _ _ hfail]
      exact ⟨.quiet, .refused (by simp [status_sendDbError])⟩
    | none =>
      rw [execStep_consume _ _ _ _ hfail, TokenTable.consume]
      cases hrow : σ.shared.rows x with
      | none => exact ⟨.quiet, .refused (by simp)⟩
      | some =>
        dsimp only
        split_ifs with hexp
        · exact ⟨.quiet, .refused (by simp)⟩
        · refine ⟨.take hx (by simp [hrow]), phase_answerTokens (by simp) (by simp)
            fun _ y hy => ?_⟩
          cases hx.symm.trans hy
          exact update_self ..
  | issuing htook => exact ⟨.quiet, .drawing htook⟩
  | drawing htook =>
    exact ⟨.draw hok, .storing htook (update_self ..) (not_known hok).1⟩
  | storing htook hdrawn hrow =>
    rw [execStep_insert _ _ _ _ _ _ (hok (.inl rfl)), TokenTable.insert, hrow, if_neg (by decide)]
    exact ⟨.insert hdrawn, .issued htook hdrawn (by simp)⟩
  | deleting hx =>
    rw [execStep_delete _ _ _ _ (hok (.inr rfl)), TokenTable.delete]
    refine ⟨.delete hx, .deleted fun y hy => ?_⟩
    cases hx.symm.trans hy
    exact update_self ..

namespace Effect

variable {σ : AuthSys Tid} {T' : TokenTable} {b n : ℕ} {c : AuthRequest} {x : Bytes}
  (h : Effect b c σ T')
include h

lemma drawn_of (hx : σ.shared.drawn x = some n) : T'.drawn x = some n := by
  cases h with
  | @draw y hnew =>
    rw [← hx]
    refine update_of_ne ?_ ..
    rintro rfl
    cases (not_known hnew).2.1.symm.trans hx
  | _ => exact hx

lemma drawn_cases (hx : T'.drawn x = some n) : σ.shared.drawn x = some n ∨ n = b ∧ ¬ Known σ x := by
  cases h with
  | @draw y hnew =>
    by_cases hy : x = y
    · subst hy
      simp only [update_self, some.injEq] at hx
      exact .inr ⟨hx.symm, hnew⟩
    · simp only [update_of_ne hy] at hx
      exact .inl hx
  | _ => exact .inl hx

lemma rows_eq_none (hx : σ.shared.rows x = none)
    (hdrawn : σ.shared.drawn x ≠ some b) : T'.rows x = none := by
  cases h with
  | quiet | draw => exact hx
  | @insert _ _ hy =>
    rw [← hx]
    refine update_of_ne ?_ ..
    rintro rfl
    exact hdrawn hy
  | take | delete =>
    dsimp only
    rw [update_apply, hx, ite_self]

lemma rows_ne_none (hx : σ.shared.rows x ≠ none) (hc : c.token ≠ some x) : T'.rows x ≠ none := by
  cases h with
  | quiet | draw => exact hx
  | @insert _ _ _ =>
    dsimp only
    rw [update_apply]
    split_ifs
    · simp
    · exact hx
  | @take y hy hrow | @delete y hy =>
    dsimp only
    rw [update_of_ne]
    · exact hx
    · rintro rfl
      exact hc hy

lemma taken_of (hx : σ.shared.taken x = some n)
    (hrow : σ.shared.rows x = none) : T'.taken x = some n := by
  cases h with
  | @take _ _ hrow' =>
    rw [← hx]
    refine update_of_ne ?_ ..
    rintro rfl
    exact hrow' hrow
  | _ => exact hx

lemma taken_cases (hx : T'.taken x = some n) : σ.shared.taken x = some n ∨
      n = b ∧ c.token = some x ∧ σ.shared.rows x ≠ none ∧ T'.rows x = none := by
  cases h with
  | @take y hy hrow =>
    by_cases hxy : x = y
    · subst hxy
      simp only [update_self, some.injEq] at hx
      exact .inr ⟨hx.symm, hy, hrow, update_self ..⟩
    · simp only [update_of_ne hxy] at hx
      exact .inl hx
  | _ => exact .inl hx

end Effect

variable {p : AuthAction Response}

lemma Phase.other {σ : AuthSys Tid} {T' : TokenTable} {b n : ℕ} {c c' : AuthRequest}
    (h : Phase X lib s σ.shared n c p) (he : Effect b c' σ T') (hne : n ≠ b)
    (hown : ∀ x, σ.shared.drawn x = some n → c'.token ≠ some x)
    (hapart : ∀ x, σ.shared.drawn x = some b → c.token ≠ some x)
    (htaken : ∀ x, σ.shared.taken x = some n → σ.shared.rows x = none) :
    Phase X lib s T' n c p := by
  have htook : Took σ.shared n c → Took T' n c :=
    fun hc x hx => he.taken_of (hc x hx) (htaken x (hc x hx))
  cases h with
  | refused hres => exact .refused hres
  | login => exact .login
  | consuming hx => exact .consuming hx
  | issuing hc => exact .issuing (htook hc)
  | drawing hc => exact .drawing (htook hc)
  | storing hc hdrawn hrow =>
    refine .storing (htook hc) (he.drawn_of hdrawn) (he.rows_eq_none hrow fun hb => hne ?_)
    exact some.inj (hdrawn.symm.trans hb)
  | issued hc hdrawn hrow =>
    exact .issued (htook hc) (he.drawn_of hdrawn) (he.rows_ne_none hrow (hown _ hdrawn))
  | deleting hx => exact .deleting hx
  | deleted hrow =>
    exact .deleted fun x hx => he.rows_eq_none (hrow x hx) fun hb => hapart x hb hx

section System

variable (X lib s)

structure Rotation (σ : AuthSys Tid) : Prop where
  stamped : Stamped σ
  phase : ∀ {t a}, σ.active t = some a →
    ∃ p, a.rest = stamp a.began p ∧ Phase X lib s σ.shared a.began a.call p
  apart : ∀ {t a x}, σ.active t = some a → σ.shared.drawn x = some a.began → ¬ Presented σ x
  drawn_lt : ∀ {x n}, σ.shared.drawn x = some n → n < σ.time
  taken : ∀ {x n}, σ.shared.taken x = some n → σ.shared.rows x = none ∧ Presented σ x ∧ n < σ.time
  refreshed : ∀ {r x}, r ∈ σ.calls → Refreshed x r → σ.shared.taken x = some r.began
  loggedOut : ∀ {r x}, r ∈ σ.calls → LoggedOut x r → σ.shared.rows x = none ∧
    ∀ {t a}, σ.active t = some a → σ.shared.taken x ≠ some a.began
  once : σ.calls.Pairwise fun r r' => ∀ x, Refreshed x r → ¬ Refreshed x r' ∧ ¬ LoggedOut x r'

end System

variable {σ σ' : AuthSys Tid} {e : AuthEvent Tid}

lemma presented_iff {x : Bytes} : Presented σ x ↔ ∃ n c, Began σ n c ∧ c.token = some x := by
  constructor
  · rintro (⟨t, a, ha, hx⟩ | ⟨r, hr, hx⟩)
    · exact ⟨_, _, .inl ⟨t, a, ha, rfl, rfl⟩, hx⟩
    · exact ⟨_, _, .inr ⟨r, hr, rfl, rfl⟩, hx⟩
  · rintro ⟨n, c, ⟨t, a, ha, -, rfl⟩ | ⟨r, hr, -, rfl⟩, hx⟩
    · exact .inl ⟨t, a, ha, hx⟩
    · exact .inr ⟨r, hr, hx⟩

lemma presented_cases (hc : Change (authMachine X lib s Tid) σ e σ') {x : Bytes}
    (h : Presented σ' x) :
    Presented σ x ∨ ∃ t fuel c, e = .enter t fuel ∧ σ.next t = some c ∧ c.token = some x := by
  obtain ⟨n, c, hbeg, hx⟩ := presented_iff.1 h
  rcases hc.began_cases hbeg with hbeg | ⟨t, fuel, hev, hnext⟩
  · exact .inl (presented_iff.2 ⟨n, c, hbeg, hx⟩)
  · exact .inr ⟨t, fuel, c, hev, hnext, hx⟩

lemma stamp_call {b : ℕ} {x : AuthStep}
    {k : x.Res → Prog AuthStep AuthStep.Res (Option Response)} (h : .call x k = stamp b p) :
    ∃ (op : AuthOp) (k' : op.Res → AuthAction Response), p = .call op k' ∧
      Prog.call x k = .call (b, op) fun r => stamp b (k' r) := by
  cases p with
  | pure => cases h
  | call op k' => exact ⟨op, k', rfl, h⟩

lemma stamp_pure {b : ℕ} {res : Response} (h : .pure (some res) = stamp b p) : p = .pure res := by
  cases p with
  | pure =>
    cases h
    rfl
  | call => cases h

namespace Rotation

variable {t : Tid}

lemma act (h : Rotation X lib s σ) {env : Outside} (hok : Orderly s σ (.step t env))
    {c : AuthRequest} {b : ℕ} {x : AuthStep}
    {k : x.Res → Prog AuthStep AuthStep.Res (Option Response)}
    {r : x.Res} (hbef : σ.active t = some ⟨c, b, .call x k⟩)
    (hexec : (authMachine X lib s Tid).exec σ.time env t x σ.shared = some (r, σ'.shared)) :
    Effect b c σ σ'.shared ∧ ∃ p, k r = stamp b p ∧ Phase X lib s σ'.shared b c p := by
  obtain ⟨p, hrest, hph⟩ : ∃ p, .call x k = stamp b p ∧ Phase X lib s σ.shared b c p :=
    h.phase hbef
  obtain ⟨op, k', rfl, hcall⟩ := stamp_call hrest
  cases hcall
  have hresult : execStep s env (b, op) σ.shared = (r, σ'.shared) := some.inj hexec
  have hact := hph.act (hok _ hbef op rfl)
  rw [hresult] at hact
  exact ⟨hact.1, _, rfl, hact.2⟩

lemma effect (h : Rotation X lib s σ) (hok : Orderly s σ e)
    (hc : Change (authMachine X lib s Tid) σ e σ') :
    σ'.shared = σ.shared ∨ ∃ t a, σ.active t = some a ∧ Effect a.began a.call σ σ'.shared ∧
      ∀ x, Presented σ' x → Presented σ x := by
  cases hc with
  | act t env c b x k r hev hbef hexec haft hoth hcalls =>
    subst hev
    refine .inr ⟨t, _, hbef, (h.act hok hbef hexec).1, fun x hx => ?_⟩
    rcases presented_cases (.act t env c b _ k r rfl hbef hexec haft hoth hcalls) hx with
      hx | ⟨_, _, _, hev, -⟩
    · exact hx
    · cases hev
  | quiet hshared | enter _ _ _ _ _ hshared | leave _ _ _ _ _ hshared => exact .inl hshared

section Step

variable (h : Rotation X lib s σ) (hok : Orderly s σ e)
  (hc : Change (authMachine X lib s Tid) σ e σ')

include h hok hc

variable {x : Bytes}

lemma rows_eq_none (hx : Presented σ x) (hrow : σ.shared.rows x = none) :
    σ'.shared.rows x = none := by
  rcases h.effect hok hc with heq | ⟨t, a, ha, heff, -⟩
  · rw [heq]
    exact hrow
  · exact heff.rows_eq_none hrow fun hdrawn => h.apart ha hdrawn hx

variable {n : ℕ}

lemma taken_of (hx : σ.shared.taken x = some n) : σ'.shared.taken x = some n := by
  rcases h.effect hok hc with heq | ⟨t, a, ha, heff, -⟩
  · rw [heq]
    exact hx
  · exact heff.taken_of hx (h.taken hx).1

lemma taken_cases (hx : σ'.shared.taken x = some n) : σ.shared.taken x = some n ∨
      n < σ.time ∧ Presented σ x ∧ σ.shared.rows x ≠ none ∧ σ'.shared.rows x = none := by
  rcases h.effect hok hc with heq | ⟨t, a, ha, heff, -⟩
  · exact .inl (heq ▸ hx)
  · rcases heff.taken_cases hx with hx | ⟨rfl, htaken, hrow, hrow'⟩
    · exact .inl hx
    · exact .inr ⟨h.stamped.active_lt ha, .inl ⟨t, a, ha, htaken⟩, hrow, hrow'⟩

lemma drawn_cases (hx : σ'.shared.drawn x = some n) :
    σ.shared.drawn x = some n ∨ n < σ.time ∧ ¬ Presented σ' x := by
  rcases h.effect hok hc with heq | ⟨t, a, ha, heff, hpresented⟩
  · exact .inl (heq ▸ hx)
  · rcases heff.drawn_cases hx with hx | ⟨rfl, hnew⟩
    · exact .inl hx
    · exact .inr ⟨h.stamped.active_lt ha, fun hx => (not_known hnew).2.2 (hpresented x hx)⟩

lemma drawn_lt_step (hx : σ'.shared.drawn x = some n) : n < σ.time := by
  rcases h.drawn_cases hok hc hx with hx | ⟨hlt, -⟩
  · exact h.drawn_lt hx
  · exact hlt

variable {a : Active AuthStep.Res fun _ : AuthRequest => Response}

lemma apart_step
    (ha : σ'.active t = some a) (hx : σ'.shared.drawn x = some a.began) : ¬ Presented σ' x := by
  intro hpresented
  have hlt := h.drawn_lt_step hok hc hx
  rcases h.drawn_cases hok hc hx with hold | ⟨-, hnew⟩
  · rcases hc.active_cases ha with ⟨-, fuel, -, heq⟩ | ⟨b, hb, -, hbeg⟩
    · rw [heq] at hlt
      exact lt_irrefl _ hlt
    · rw [← hbeg] at hold
      rcases presented_cases hc hpresented with hx | ⟨u, fuel, c, rfl, hnext, hx⟩
      · exact h.apart hb hold hx
      · exact hok c hnext x hx t b hb hold
  · exact hnew hpresented

lemma taken_step (hx : σ'.shared.taken x = some n) :
    σ'.shared.rows x = none ∧ Presented σ' x ∧ n < σ.time := by
  have hmono : ∀ {x}, Presented σ x → Presented σ' x := by
    intro x hx
    obtain ⟨n, c, hbeg, hx⟩ := presented_iff.1 hx
    exact presented_iff.2 ⟨n, c, hbeg.step hc, hx⟩
  rcases h.taken_cases hok hc hx with hold | ⟨hlt, hpresented, -, hrow⟩
  · obtain ⟨hrow, hpresented, hlt⟩ := h.taken hold
    exact ⟨h.rows_eq_none hok hc hpresented hrow, hmono hpresented, hlt⟩
  · exact ⟨hrow, hmono hpresented, hlt⟩

lemma loggedOut_later {r : AuthRecord Tid} (hr : r ∈ σ.calls) (hx : LoggedOut x r) :
    σ'.shared.rows x = none ∧ ∀ {t a}, σ'.active t = some a → σ'.shared.taken x ≠ some a.began := by
  obtain ⟨hrow, htaken⟩ := h.loggedOut hr hx
  have hpresented : Presented σ x := .inr ⟨r, hr, AuthRequest.token_of_loggedOut hx.1⟩
  refine ⟨h.rows_eq_none hok hc hpresented hrow, fun {t a} ha htook => ?_⟩
  rcases hc.active_cases ha with ⟨-, fuel, -, heq⟩ | ⟨b, hb, -, hbeg⟩
  · have hlt := (h.taken_step hok hc htook).2.2
    rw [heq] at hlt
    exact lt_irrefl _ hlt
  · rcases h.taken_cases hok hc htook with hold | ⟨-, -, hrow', -⟩
    · exact htaken hb (hbeg ▸ hold)
    · exact hrow' hrow

lemma phase_step (ha : σ'.active t = some a) :
    ∃ p, a.rest = stamp a.began p ∧ Phase X lib s σ'.shared a.began a.call p := by
  cases hc with
  | quiet hshared hact =>
    rw [hshared]
    exact h.phase ((hact t).symm.trans ha)
  | enter u _ _ _ _ hshared _ haft hoth =>
    by_cases ht : t = u
    · subst ht
      cases haft.symm.trans ha
      exact ⟨_, rfl, phase_handler _ _ _⟩
    · rw [hshared]
      exact h.phase ((hoth t ht).symm.trans ha)
  | act u _ _ _ x _ _ hev hbef hexec haft hoth =>
    subst hev
    obtain ⟨heff, hph⟩ := h.act hok hbef hexec
    by_cases ht : t = u
    · subst ht
      cases haft.symm.trans ha
      exact hph
    · have hold := (hoth t ht).symm.trans ha
      obtain ⟨p, hrest, hp⟩ := h.phase hold
      refine ⟨p, hrest, hp.other heff ?_ ?_ ?_ fun x hx => (h.taken hx).1⟩
      · exact fun hbeg => ht (h.stamped.active_inj hold hbef hbeg)
      · exact fun x hx hc => h.apart hold hx (.inl ⟨u, _, hbef, hc⟩)
      · exact fun x hx hc => h.apart hbef hx (.inl ⟨t, _, hold, hc⟩)
  | leave u _ _ _ _ hshared _ haft hoth =>
    rw [hshared]
    by_cases ht : t = u
    · subst ht
      cases haft.symm.trans ha
    · exact h.phase ((hoth t ht).symm.trans ha)

end Step

structure Answers (T : TokenTable) (b : ℕ) (c : AuthRequest) (res : Response) : Prop where
  took : ∀ {x}, c.refreshed = some x → res.status = 200 → T.taken x = some b
  deleted : ∀ {x}, c.loggedOut = some x → res.status = 204 → T.rows x = none
  stored : ∀ {x}, res.status = 200 → returnedToken res = some x → T.rows x ≠ none

lemma answers (h : Rotation X lib s σ) {c : AuthRequest} {b : ℕ} {res : Response}
    (hbef : σ.active t = some ⟨c, b, .pure (some res)⟩) : Answers σ.shared b c res := by
  obtain ⟨p, hrest, hph⟩ : ∃ p, .pure (some res) = stamp b p ∧ Phase X lib s σ.shared b c p :=
    h.phase hbef
  rw [stamp_pure hrest] at hph
  cases hph with
  | refused hres =>
    exact ⟨fun _ h200 => absurd h200 hres.1, fun _ h204 => absurd h204 hres.2,
      fun h200 => absurd h200 hres.1⟩
  | issued htook _ hrow =>
    refine ⟨fun hx _ => htook _ hx, fun _ h204 => ?_, fun {x} _ hx => ?_⟩
    · rw [status_sendTokens] at h204
      exact absurd h204 (by decide)
    · cases (returnedToken_sendTokens ..).symm.trans hx
      exact hrow
  | deleted hrow =>
    exact ⟨fun hx => (by cases hx), fun hx _ => hrow _ hx, fun h200 => absurd h200 (by decide)⟩

lemma calls_cases [DecidableEq Tid] (hstep : Threads.Step (authMachine X lib s Tid) σ e σ') :
    σ'.calls = σ.calls ∨ ∃ t job c b res, e = .leave t ∧
      σ.active t = some ⟨c, b, .pure (some res)⟩ ∧ σ'.shared = σ.shared ∧
        (∀ {u a}, σ'.active u = some a → σ.active u = some a) ∧
          σ'.calls = ⟨t, job, c, res, b, σ.time⟩ :: σ.calls := by
  cases hstep.change with
  | quiet _ _ hcalls | enter _ _ _ _ _ _ _ _ _ hcalls | act _ _ _ _ _ _ _ _ _ _ _ _ hcalls =>
    exact .inl hcalls
  | leave t job c b res hshared hbef haft hoth hcalls =>
    refine .inr ⟨t, job, c, b, res, hstep.event_of_left hbef haft, hbef, hshared, ?_, hcalls⟩
    intro u a ha
    by_cases hu : u = t
    · subst hu
      cases haft.symm.trans ha
    · exact (hoth u hu).symm.trans ha

lemma step [DecidableEq Tid] (h : Rotation X lib s σ) (hok : Orderly s σ e)
    (hstep : Threads.Step (authMachine X lib s Tid) σ e σ') : Rotation X lib s σ' := by
  have hc := hstep.change
  have htime := hstep.time
  refine ⟨h.stamped.step hc htime, h.phase_step hok hc, h.apart_step hok hc, ?_, ?_, ?_, ?_, ?_⟩
  · exact fun hx => (h.drawn_lt_step hok hc hx).trans (by omega)
  · intro x n hx
    obtain ⟨hrow, hpresented, hlt⟩ := h.taken_step hok hc hx
    exact ⟨hrow, hpresented, by omega⟩
  · intro r x hr hx
    rcases calls_cases hstep with hcalls | ⟨t, job, c, b, res, -, hbef, hshared, -, hcalls⟩
    · exact h.taken_of hok hc (h.refreshed (hcalls ▸ hr) hx)
    · rcases mem_cons.1 (hcalls ▸ hr) with rfl | hr
      · rw [hshared]
        exact (h.answers hbef).took hx.1 hx.2
      · exact h.taken_of hok hc (h.refreshed hr hx)
  · intro r x hr hx
    rcases calls_cases hstep with hcalls | ⟨t, job, c, b, res, rfl, hbef, hshared, hact, hcalls⟩
    · exact h.loggedOut_later hok hc (hcalls ▸ hr) hx
    · rcases mem_cons.1 (hcalls ▸ hr) with rfl | hr
      · rw [hshared]
        exact ⟨(h.answers hbef).deleted hx.1 hx.2,
          fun {u a} ha => hok _ hbef x hx.1 u a (hact ha)⟩
      · exact h.loggedOut_later hok hc hr hx
  · rcases calls_cases hstep with hcalls | ⟨t, job, c, b, res, -, hbef, -, -, hcalls⟩
    · rw [hcalls]
      exact h.once
    · rw [hcalls]
      refine pairwise_cons.2 ⟨fun r hr x hx => ?_, h.once⟩
      have htook := (h.answers hbef).took hx.1 hx.2
      refine ⟨fun hr' => ?_, fun hr' => (h.loggedOut hr hr').2 hbef htook⟩
      exact h.stamped.active_ne hbef hr (some.inj ((h.refreshed hr hr').symm.trans htook))

lemma rotates [DecidableEq Tid] (h : Rotation X lib s σ) : Rotates (authMachine X lib s Tid) σ := by
  refine ⟨h.once, fun t σ' hstep r hr x h200 hx => ?_⟩
  cases Threads.Step.of_step hstep with
  | @leave _ c b _ res _ _ hapart =>
    have hact : σ.active t = some ⟨c, b, .pure (some res)⟩ := by
      rw [Sys.active, hapart]
      rfl
    cases hr
    exact isSome_iff_ne_none.2 ((h.answers hact).stored h200 hx)

lemma start (rows : Bytes → Option TokenRow) : Rotation X lib s (AuthSys.start Tid rows) := by
  refine ⟨stamped_init _, ?_, ?_, ?_, ?_, ?_, ?_, List.Pairwise.nil⟩
  · intro t a ha
    cases ha
  · intro t a x ha
    cases ha
  · intro x n hx
    cases hx
  · intro x n hx
    cases hx
  · intro r x hr
    cases hr
  · intro r x hr
    cases hr

end Rotation

end

/-- In every run whose steps are orderly, rotation is as it should be. -/
theorem rotates_of_orderly (X : Jwt.Crypto K) (lib : Platform) (s : AuthSettings)
    (rows : Bytes → Option TokenRow) {es : List (AuthEvent Tid)} {σ : AuthSys Tid}
    (hok : Meets (authMachine X lib s Tid) (Orderly s) (AuthSys.start Tid rows) es)
    (hrun : run (authMachine X lib s Tid) (AuthSys.start Tid rows) es = some σ) :
    Rotates (authMachine X lib s Tid) σ := by
  have h : Rotation X lib s σ :=
    run_induction (fun h hok hstep => h.step hok hstep) (Rotation.start rows) hok hrun
  exact h.rotates

section Decidable

variable [Fintype Tid]

instance (σ : AuthSys Tid) (x : Bytes) : Decidable (Presented σ x) :=
  inferInstanceAs (Decidable (_ ∨ _))

instance (σ : AuthSys Tid) (x : Bytes) : Decidable (Known σ x) :=
  inferInstanceAs (Decidable (_ ∨ _ ∨ _))

instance (σ : AuthSys Tid) (env : Outside) : (op : AuthOp) → Decidable (OpOrderly s σ env op)
  | .nowUnix => .isTrue trivial
  | .randBytes => inferInstanceAs (Decidable (¬ _))
  | .execPrepared _ _ _ _ => inferInstanceAs (Decidable (_ → _))

instance (σ : AuthSys Tid) : (e : AuthEvent Tid) → Decidable (Orderly s σ e)
  | .start _ _ _ => .isTrue trivial
  | .enter _ _ => inferInstanceAs (Decidable (∀ _, _))
  | .step _ _ => inferInstanceAs (Decidable (∀ _, _))
  | .leave _ => inferInstanceAs (Decidable (∀ _, _))
  | .finish _ => .isTrue trivial

end Decidable

def soloMachine := authMachine Jwt.toyCrypto ⟨fun _ => []⟩ plainSettings Unit

def postRequest (path body : String) : Request where
  method := .POST
  path := str path
  query := []
  version := str "HTTP/1.1"
  headers := []
  body := str body
  keepAlive := true
  params := []

def loginRequest : AuthRequest :=
  .login (postRequest "/auth/login" "\x7b\"email\":\"e\",\"password\":\"p\"\x7d")

def refreshRequest (token : String) : AuthRequest :=
  .refresh (postRequest "/auth/refresh" ("\x7b\"refresh_token\":\"" ++ token ++ "\"\x7d"))

def logoutRequest (token : String) : AuthRequest :=
  .logout (postRequest "/auth/logout" ("\x7b\"refresh_token\":\"" ++ token ++ "\"\x7d"))

def serve (c : AuthRequest) (envs : List Outside) : List (AuthEvent Unit) :=
  .start () c 0 :: .enter () 0 :: (envs.map (.step ()) ++ [.leave (), .finish ()])

def loginRun (byte : UInt8) (insert : Option Bytes) : List Outside :=
  [{ users := [[some (str "u")]] }, {}, { random := some [byte] }, { failure := insert }]

def visit : List (AuthEvent Unit) :=
  serve loginRequest (loginRun 1 none) ++ (serve (refreshRequest "01") (loginRun 2 none) ++
    serve (logoutRequest "02") [{}])

theorem rotates_visit : ∃ σ, run soloMachine (AuthSys.start Unit fun _ => none) visit = some σ ∧
    σ.calls.map (·.ret.status) = [204, 200, 200] ∧ Rotates soloMachine σ := by
  have hmeets : meetsAll soloMachine (fun σ e => decide (Orderly plainSettings σ e))
      (AuthSys.start Unit fun _ => none) visit = true := by decide +kernel
  obtain ⟨σ, hrun, hstatus⟩ : ∃ σ, run soloMachine (AuthSys.start Unit fun _ => none) visit
    = some σ ∧
      σ.calls.map (·.ret.status) = [204, 200, 200] := by
    have h : (run soloMachine (AuthSys.start Unit fun _ => none) visit).map
        (fun σ => σ.calls.map (·.ret.status)) = some [204, 200, 200] := by decide +kernel
    obtain ⟨σ, hσ, hstatus⟩ := map_eq_some_iff.1 h
    exact ⟨σ, hσ, hstatus⟩
  refine ⟨σ, hrun, hstatus, rotates_of_orderly Jwt.toyCrypto ⟨fun _ => []⟩ plainSettings _ ?_ hrun⟩
  exact (meets_of_meetsAll hmeets).mono fun σ e => of_decide_eq_true

def lostInsert : List (AuthEvent Unit) :=
  .start () loginRequest 0 :: .enter () 0 :: (loginRun 1 (some (str "down"))).map (.step ())

def lostDelete : List (AuthEvent Unit) :=
  serve (logoutRequest "01") [{ failure := some (str "down") }] ++
    serve (refreshRequest "01") (loginRun 2 none)

theorem not_rotates : (∃ σ, run soloMachine (AuthSys.start Unit fun _ => none) lostInsert = some σ ∧
      ¬ Rotates soloMachine σ) ∧
    ∃ σ, run soloMachine (AuthSys.start Unit (update (fun _ => none) (str "01")
      (some ⟨str "u", 1⟩))) lostDelete = some σ ∧ ¬ Rotates soloMachine σ := by
  constructor
  · have hlost : ((run soloMachine (AuthSys.start Unit fun _ => none) lostInsert).bind fun σ =>
        (step soloMachine σ (.leave ())).bind fun σ' => σ'.calls.head?.bind fun r =>
          (returnedToken r.ret).map fun x => (r.ret.status, (σ'.shared.rows x).isSome)) =
        some (200, false) := by decide +kernel
    obtain ⟨σ, hrun, hlost⟩ := bind_eq_some_iff.1 hlost
    obtain ⟨σ', hstep, hlost⟩ := bind_eq_some_iff.1 hlost
    obtain ⟨r, hr, hlost⟩ := bind_eq_some_iff.1 hlost
    obtain ⟨x, hx, hlost⟩ := map_eq_some_iff.1 hlost
    obtain ⟨hstatus, hrow⟩ := Prod.mk.inj hlost
    refine ⟨σ, hrun, fun h => ?_⟩
    have hstored := h.stored () σ' hstep r hr x hstatus hx
    rw [hrow] at hstored
    cases hstored
  · have hused : ((run soloMachine (AuthSys.start Unit (update (fun _ => none) (str "01")
        (some ⟨str "u", 1⟩))) lostDelete).map fun σ => σ.calls.map fun r =>
          (r.call.refreshed, r.call.loggedOut, r.ret.status)) =
        some [(some (str "01"), none, 200), (none, some (str "01"), 204)] := by decide +kernel
    obtain ⟨σ, hrun, hused⟩ := map_eq_some_iff.1 hused
    refine ⟨σ, hrun, fun h => ?_⟩
    obtain ⟨r, rest, hcalls, hr, hrest⟩ := map_eq_cons_iff.1 hused
    obtain ⟨r', rest', rfl, hr', -⟩ := map_eq_cons_iff.1 hrest
    simp only [Prod.mk.injEq] at hr hr'
    have honce := h.once
    rw [hcalls] at honce
    exact ((pairwise_cons.1 honce).1 r' mem_cons_self (str "01") ⟨hr.1, hr.2.2⟩).2
      ⟨hr'.2.1, hr'.2.2⟩

end SpidoNG.Service
