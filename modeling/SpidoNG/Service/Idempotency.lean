import SpidoNG.Service.Creation

/-!
# The idempotency log

A `POST` with an idempotency key claims the key in a table, and keeps its response there.
-/

namespace SpidoNG.Service

open Bytes Pg Prog List Resource

structure LogEntry (α : Type) where
  endpoint : Bytes
  status : Bytes := [0, 0, 0, 0]
  body : Bytes := []
  holder : α

abbrev LogTable (α : Type) := Bytes → Option (LogEntry α)

inductive LogStatement
  | claim (key endpoint : Bytes)
  | fetch (key : Bytes)
  | clear (key : Bytes)
  | store (key status body : Bytes)

def logStatement (r : Resource) (name sql : Bytes) (params : List PgParam) : Option LogStatement :=
  match params.map PgParam.value with
  | [key, endpoint] =>
    if name = str "idem_claim_" ++ r.table ∧ sql = idemClaimSql r then some (.claim key endpoint)
    else none
  | [key] =>
    if name = str "idem_fetch_" ++ r.table ∧ sql = idemFetchSql r then some (.fetch key)
    else if name = str "idem_clear_" ++ r.table ∧ sql = idemClearSql r then some (.clear key)
    else none
  | [key, status, body] =>
    if name = str "idem_store_" ++ r.table ∧ sql = idemStoreSql r then some (.store key status body)
    else none
  | _ => none

def LogStatement.perform {α : Type} (holder : α) (T : LogTable α) : LogStatement →
    PgResult × LogTable α
  | .claim key endpoint =>
    match T key with
    | some _ => ({}, T)
    | none => ({ rows := [[some key]] }, Function.update T key (some { endpoint, holder }))
  | .fetch key =>
    match T key with
    | some e => ({ rows := [[some e.status, some e.body]] }, T)
    | none => ({}, T)
  | .clear key => ({}, Function.update T key none)
  | .store key status body =>
    match T key with
    | some e => ({}, Function.update T key (some { e with status, body }))
    | none => ({}, T)

section

variable (auth : AuthConfig) (r : Resource) (req : Request)

def OnLog (others : Op → LogTable Unit → LogTable Unit → Prop) (T : LogTable Unit) :
    (op : Op) → op.Res → LogTable Unit → Prop
  | .execPrepared name sql types params, x, T' =>
    match logStatement r name sql params with
    | some st => T' = (st.perform () T).2 ∧ x = (st.perform () T).1 ∨
        PgResult.hadError x = true ∧ (T' = T ∨ T' = (st.perform () T).2)
    | none => others (.execPrepared name sql types params) T T'
  | op, _, T' => others op T T'

def Claimed (t : Trace) : Prop :=
  idempotencyKey r req ≠ [] ∧
    ∃ x ∈ answersTo (str "idem_claim_" ++ r.table) t, x.hadError = false ∧ x.rows ≠ []

def ClearsSucceed (t : Trace) : Prop :=
  ∀ x ∈ answersTo (str "idem_clear_" ++ r.table) t, x.hadError = false

def queued (t : Trace) : Bool :=
  t.any fun
    | ⟨.enqueue _ _ _, _⟩ => true
    | _ => false

def Created (t : Trace) : Prop :=
  if r.batched then queued t = true
  else if r.transactional then
    (execs t).length = r.innerCount + 2 ∧ ∀ x ∈ execs t, x.2.hadError = false
  else ∃ x ∈ answersTo (str "ins_" ++ r.table) t, x.hadError = false

def Released (lib : Platform) (others : Op → LogTable Unit → LogTable Unit → Prop)
    (T : LogTable Unit) : Prop :=
  T (idempotencyKey r req) = none ∧
    ∀ t res T', RunIn (OnLog r others) (postHandler lib auth r req) T t res T' → ¬ Replayed r t

def Acceptable : Prop :=
  (∃ body, JsonBody.parse req.body = some body ∧ validationErrors r body true = []) ∧
    (ownerId auth r req (bypassOwn auth r.permissions.create r.permissions.header req)).isSome

/-- The request is acceptable; there is a connection, and the first statement that fails on it, if
any, is neither the first one nor the last. -/
def Releasing (t : Trace) : Prop :=
  Acceptable auth r req ∧ (⟨.checkout, (false : Bool)⟩ : Prog.Event Op Op.Res) ∉ t ∧
    ∀ i, (execs t).findIdx? (fun x => x.2.hadError) = some i → 0 < i ∧ i ≤ r.innerCount

end

variable {lib : Platform} {auth : AuthConfig} {r : Resource} {req : Request} {t pre : Trace}
  {others : Op → LogTable Unit → LogTable Unit → Prop} {T T' : LogTable Unit} {α : Type}
  {Q : Trace → α → LogTable Unit → Prop}

def Unlogged (r : Resource) : Op → Prop
  | .execPrepared name sql _ params => logStatement r name sql params = none
  | _ => True

lemma logStatement_eq_none {name : Bytes} (h : name.take 2 ≠ str "id") (sql : Bytes)
    (params : List PgParam) : logStatement r name sql params = none := by
  have hne : ∀ s : Bytes, 2 ≤ s.length → s.take 2 = str "id" → name ≠ s ++ r.table := by
    rintro s hlen hs rfl
    rw [take_append_of_le_length hlen] at h
    exact h hs
  have hclaim := hne (str "idem_claim_") (by decide +kernel) (by decide +kernel)
  have hfetch := hne (str "idem_fetch_") (by decide +kernel) (by decide +kernel)
  have hclear := hne (str "idem_clear_") (by decide +kernel) (by decide +kernel)
  have hstore := hne (str "idem_store_") (by decide +kernel) (by decide +kernel)
  unfold logStatement
  split <;> simp only [hclaim, hfetch, hclear, hstore, false_and, if_false]

lemma unlogged_of_name {s : Bytes} (hlen : 2 ≤ s.length) (hs : s.take 2 ≠ str "id")
    (name sql : Bytes) (types : List Oid) (params : List PgParam) :
    Unlogged r (.execPrepared (s ++ name) sql types params) := by
  refine logStatement_eq_none ?_ sql params
  rwa [take_append_of_le_length hlen]

lemma OnLog.unlogged {op : Op} {x : op.Res} (h : OnLog r others T op x T') (hop : Unlogged r op) :
    others op T T' := by
  cases op with
  | execPrepared name sql _ params =>
    simp only [OnLog, (show logStatement r name sql params = none from hop)] at h
    exact h
  | _ => exact h

lemma logStatement_claim (key endpoint : Bytes) :
    logStatement r (str "idem_claim_" ++ r.table) (idemClaimSql r) [.text key, .text endpoint] =
      some (.claim key endpoint) := by
  simp [logStatement, PgParam.text]

lemma logStatement_clear (key : Bytes) :
    logStatement r (str "idem_clear_" ++ r.table) (idemClearSql r) [.text key] = some
      (.clear key) := by
  have hne : str "idem_clear_" ++ r.table ≠ str "idem_fetch_" ++ r.table := fun h =>
    absurd (append_cancel_right h) (by decide +kernel)
  simp [logStatement, PgParam.text, hne]

abbrev Aside (r : Resource) (req : Request) (others : Op → LogTable Unit → LogTable Unit → Prop) :
    Prop := ∀ op T T', others op T T' → T' (idempotencyKey r req) = T (idempotencyKey r req)

lemma ensures_unlogged (haside : Aside r req others) {op : Op} {f : op.Res → Action α}
    (hop : Unlogged r op) (h : ∀ x T', T' (idempotencyKey r req) = T (idempotencyKey r req) →
      Ensures (OnLog r others) Q (f x) (pre ++ [⟨op, x⟩]) T') :
    Ensures (OnLog r others) Q (Prog.perform op >>= f) pre T :=
  ensures_perform fun x T' hstep => h x T' (haside op T T' (hstep.unlogged hop))

structure Steady (k : ℕ) (t : Trace) : Prop where
  connected : (⟨.checkout, (false : Bool)⟩ : Prog.Event Op Op.Res) ∉ t
  ok : ∀ x ∈ execs t, x.2.hadError = false
  length : (execs t).length = k

variable {k : ℕ} {x : PgResult}

lemma Steady.exec (h : Steady k pre) (sql : Bytes) (hx : x.hadError = false) :
    Steady (k + 1) (pre ++ [⟨.exec sql, x⟩]) where
  connected := by
    rw [mem_append, mem_singleton]
    rintro (hmem | heq)
    · exact h.connected hmem
    · cases heq
  ok := by
    rw [execs_append, execs_exec]
    intro y hy
    rcases mem_append.1 hy with hy | hy
    · exact h.ok y hy
    · rw [mem_singleton.1 hy]
      exact hx
  length := by rw [execs_append, execs_exec, length_append, h.length, length_singleton]

lemma Steady.other (h : Steady k pre) (op : Op) (x : op.Res) (hop : ∀ sql, op ≠ .exec sql)
    (hne : (⟨.checkout, (false : Bool)⟩ : Prog.Event Op Op.Res) ≠ ⟨op, x⟩) :
    Steady k (pre ++ [⟨op, x⟩]) where
  connected := by
    rw [mem_append, mem_singleton]
    rintro (hmem | heq)
    · exact h.connected hmem
    · exact hne heq
  ok := by
    rw [execs_other x hop]
    exact h.ok
  length := by
    rw [execs_other x hop]
    exact h.length

lemma Steady.findIdx (h : Steady k t) : (execs t).findIdx? (fun x => x.2.hadError) = none := by
  rw [findIdx?_eq_none_iff]
  exact h.ok

lemma Steady.findIdx_failed (h : Steady k pre) {sql : Bytes}
    (hx : x.hadError) {rest : List (Bytes × PgResult)}
    (ht : execs t = execs pre ++ (sql, x) :: rest) :
    (execs t).findIdx? (fun x => x.2.hadError) = some k := by
  rw [ht, findIdx?_append, h.findIdx, findIdx?_cons]
  simp [hx, h.length]

def Verdict (auth : AuthConfig) (r : Resource) (req : Request) (t : Trace) (_ : Response)
    (T : LogTable Unit) : Prop :=
  Claimed r req t → ¬ Created r t → ClearsSucceed r t →
    (T (idempotencyKey r req) = none ↔ Releasing auth r req t)

variable {res : Response}

lemma verdict_of_kept (hkept : T (idempotencyKey r req) ≠ none) (h : ¬ Releasing auth r req t) :
    Verdict auth r req t res T :=
  fun _ _ _ => ⟨fun hnone => absurd hnone hkept, fun hrel => absurd hrel h⟩

lemma ensures_of_created (h : ∀ t, Created r (pre ++ t)) (p : Handler) :
    Ensures (OnLog r others) (Verdict auth r req) p pre T := fun t _ _ _ _ hnot => absurd (h t) hnot

lemma Releasing.other (h : Releasing auth r req pre) (op : Op) (x : op.Res)
    (hop : ∀ sql, op ≠ .exec sql)
    (hne : (⟨.checkout, (false : Bool)⟩ : Prog.Event Op Op.Res) ≠ ⟨op, x⟩) :
    Releasing auth r req (pre ++ [⟨op, x⟩]) := by
  obtain ⟨hacc, hconn, hfirst⟩ := h
  refine ⟨hacc, ?_, ?_⟩
  · rw [mem_append, mem_singleton]
    rintro (hmem | heq)
    · exact hconn hmem
    · exact hne heq
  · rwa [execs_other x hop]

lemma ensures_release (hkey : idempotencyKey r req ≠ []) (h : Releasing auth r req pre)
    (err : PgResult) :
    Ensures (OnLog r others) (Verdict auth r req)
      (fail lib r (idempotencyKey r req) err) pre T := by
  unfold fail idemClear
  rw [if_neg (by simpa using hkey)]
  refine ensures_perform fun (x : PgResult) T' hstep => ensures_pure fun _ _ hclear => ?_
  have hx := hclear x (mem_answersTo x)
  simp only [OnLog, logStatement_clear] at hstep
  refine ⟨fun _ => h.other (clearOp r req) x nofun nofun, fun _ => ?_⟩
  rcases hstep with ⟨rfl, -⟩ | ⟨herr, -⟩
  · exact Function.update_self ..
  · rw [hx] at herr
    cases herr

lemma Steady.releasing (h : Steady k pre) (hacc : Acceptable auth r req) :
    Releasing auth r req pre := by
  refine ⟨hacc, h.connected, fun i hi => ?_⟩
  rw [h.findIdx] at hi
  cases hi

lemma OnLog.claim (h : OnLog r others T (claimOp r req) x T') (hx : x.hadError = false) :
    (x.rows ≠ [] ↔ T (idempotencyKey r req) = none) ∧ T' (idempotencyKey r req) ≠ none := by
  simp only [claimOp, OnLog, logStatement_claim] at h
  rcases h with ⟨hT', hres⟩ | ⟨herr, -⟩
  · cases hkey : T (idempotencyKey r req) with
    | none =>
      rw [LogStatement.perform, hkey] at hT' hres
      rw [hT', show x = _ from hres]
      simp
    | some =>
      rw [LogStatement.perform, hkey] at hT' hres
      rw [hT', show x = _ from hres]
      simp [hkey]
  · rw [hx] at herr
    cases herr

lemma claim_ne_fetch : str "idem_claim_" ++ r.table ≠ str "idem_fetch_" ++ r.table := fun h =>
  absurd (append_cancel_right h) (by decide +kernel)

lemma answersTo_claim (name n sql : Bytes) (types : List Oid) (params : List PgParam)
    (acquired : Bool) (x : PgResult) :
    answersTo name ([] ++ [⟨.tryAcquire, acquired⟩] ++ [⟨.execPrepared n sql types params, x⟩]) =
      if n = name then [x] else [] := by
  rw [answersTo_append, answersTo_execPrepared]
  rfl

section

variable (haside : Aside r req others)
include haside

lemma ensures_steadyHook {hook : Option Bytes} {pk user : Bytes}
    {f : PgResult → Action α} (h : Steady k pre) (hheld : T (idempotencyKey r req) ≠ none)
    (hok : ∀ x pre' T', x.hadError = false → Steady (k + (truthy hook).toList.length) pre' →
      T' (idempotencyKey r req) ≠ none → Ensures (OnLog r others) Q (f x) pre' T')
    (herr : ∀ sql x T', (truthy hook).toList.length = 1 → x.hadError →
      Ensures (OnLog r others) Q (f x) (pre ++ [⟨.exec sql, x⟩]) T') :
    Ensures (OnLog r others) Q (runHookIn hook pk user >>= f) pre T := by
  unfold runHookIn
  cases htruthy : truthy hook with
  | none =>
    rw [htruthy] at hok
    exact hok {} pre T rfl h hheld
  | some =>
    rw [htruthy] at hok
    refine ensures_unlogged haside trivial fun (x : PgResult) T' hT => ?_
    cases hx : x.hadError with
    | false => exact hok x _ T' hx (h.exec _ hx) (hT ▸ hheld)
    | true => exact herr _ x T' (by rw [htruthy]; rfl) hx

lemma ensures_commit (hbatched : r.batched = false)
    (htx : r.transactional) (h : Steady (r.innerCount + 1) pre)
    (hheld : T (idempotencyKey r req) ≠ none) (body : Bytes) :
    Ensures (OnLog r others) (Verdict auth r req)
      (do
        let c ← exec (str "COMMIT")
        if c.hadError then Pure.pure (sendDbError lib c)
        else
          invalidateTable r.table
          respond r (idempotencyKey r req) 201 body) pre T := by
  refine ensures_unlogged haside trivial fun (c : PgResult) T hT => ?_
  have hheld := hT ▸ hheld
  split_ifs with hc
  · refine ensures_pure (verdict_of_kept hheld fun hrel => ?_)
    have hle := (hrel.2.2 _ (h.findIdx_failed hc (execs_append _ _))).2
    omega
  · have hc := eq_false_of_ne_true hc
    have h := h.exec (str "COMMIT") hc
    have hcommitted : ∀ t, execs t = execs (pre ++ [⟨.exec (str "COMMIT"), c⟩]) → Created r t := by
      intro t ht
      rw [Created, if_neg (by simp [hbatched]), if_pos htx, ht]
      exact ⟨h.length, h.ok⟩
    refine ensures_perform fun _ T _ => ?_
    unfold respond idemStore
    split_ifs
    · refine ensures_pure fun _ hnot => absurd (hcommitted _ ?_) hnot
      exact execs_other _ nofun
    · refine ensures_perform fun _ T _ => ensures_pure fun _ hnot => absurd (hcommitted _ ?_) hnot
      rw [execs_other, execs_other] <;> exact nofun

section

variable (hkey : idempotencyKey r req ≠ []) (hacc : Acceptable auth r req)
include hkey hacc

lemma ensures_rolledBack (h : Steady k pre) (hk : 0 < k ∧ k ≤ r.innerCount)
    {sql : Bytes} (hx : x.hadError) :
    Ensures (OnLog r others) (Verdict auth r req) (rollback lib r (idempotencyKey r req) x)
      (pre ++ [⟨.exec sql, x⟩]) T := by
  refine ensures_unlogged haside trivial fun y T' _ => ensures_release hkey ⟨hacc, ?_, ?_⟩ x
  · rw [mem_append, mem_append, mem_singleton, mem_singleton]
    rintro ((hmem | heq) | heq)
    · exact h.connected hmem
    · cases heq
    · cases heq
  · intro i hi
    have htrace : execs (pre ++ [⟨.exec sql, x⟩] ++ [⟨.exec (str "ROLLBACK"), y⟩]) =
        execs pre ++ (sql, x) :: [(str "ROLLBACK", y)] := by
      rw [execs_append, execs_append, append_assoc]
      rfl
    rw [h.findIdx_failed hx htrace] at hi
    cases hi
    exact hk

lemma ensures_transaction (hbatched : r.batched = false) (htx : r.transactional)
    (h : Steady 0 pre) (hheld : T (idempotencyKey r req) ≠ none) (row : List PgParam) :
    Ensures (OnLog r others) (Verdict auth r req)
      (insertTransactional lib auth r req (idempotencyKey r req) row) pre T := by
  refine ensures_unlogged haside trivial fun (conn : Bool) T hT => ?_
  have hheld := hT ▸ hheld
  cases conn with
  | false =>
    refine ensures_pure (verdict_of_kept hheld fun hrel => hrel.2.1 ?_)
    exact mem_append_right _ (mem_singleton.2 rfl)
  | true =>
  have h : Steady 0 (pre ++ [⟨.checkout, (true : Bool)⟩]) := h.other .checkout _ nofun nofun
  refine ensures_unlogged haside trivial fun (b : PgResult) T hT => ?_
  have hheld := hT ▸ hheld
  split_ifs with hb
  · refine ensures_pure (verdict_of_kept hheld fun hrel => ?_)
    exact absurd (hrel.2.2 0 (h.findIdx_failed hb (execs_append _ _))).1 (lt_irrefl 0)
  have h := h.exec (str "BEGIN") (eq_false_of_ne_true hb)
  refine ensures_steadyHook haside h hheld ?_ fun sql x T hone hx => ?_
  · intro x pre T hx h hheld
    rw [if_neg (by simp [hx])]
    refine ensures_unlogged haside trivial fun (ins : PgResult) T hT => ?_
    have hheld := hT ▸ hheld
    split_ifs with hins
    · refine ensures_rolledBack haside hkey hacc h ⟨by omega, ?_⟩ hins
      unfold innerCount
      omega
    have h := h.exec (inlineParams (insertSql r row.length) row) (eq_false_of_ne_true hins)
    refine ensures_steadyHook haside h hheld ?_ fun sql y T hone hy => ?_
    · intro y pre T hy h hheld
      rw [if_neg (by simp [hy])]
      refine ensures_commit haside hbatched htx ?_ hheld _
      convert h using 1
      unfold innerCount
      omega
    · rw [if_pos hy]
      refine ensures_rolledBack haside hkey hacc h ⟨by omega, ?_⟩ hy
      unfold innerCount
      omega
  · rw [if_pos hx]
    refine ensures_rolledBack haside hkey hacc h ⟨by omega, ?_⟩ hx
    unfold innerCount
    omega

lemma ensures_direct (hbatched : r.batched = false) (htx : r.transactional = false)
    (h : Steady 0 pre) (row : List PgParam) : Ensures (OnLog r others) (Verdict auth r req)
      (insertDirect lib auth r req (idempotencyKey r req) row) pre T := by
  have hins : ∀ {pre T}, Steady 0 pre → Ensures (OnLog r others) (Verdict auth r req)
      (insertNow lib auth r req row) pre T := by
    intro pre T h
    refine ensures_unlogged haside
      (unlogged_of_name (by decide +kernel) (by decide +kernel) _ _ _ _)
        fun (res : PgResult) T _ => ?_
    have h := h.other (.execPrepared (str "ins_" ++ r.table) (insertSql r row.length)
      (unknownTypes row.length) row) res nofun nofun
    refine ensures_unlogged haside trivial fun _ T _ => ?_
    split_ifs with hres
    · refine ensures_release hkey ?_ res
      exact (h.other (.invalidateTable r.table) _ nofun nofun).releasing hacc
    · refine ensures_of_created (fun t => ?_) _
      rw [Created, if_neg (by simp [hbatched]), if_neg (by simp [htx])]
      refine ⟨res, ?_, eq_false_of_ne_true hres⟩
      simp only [answersTo_append, answersTo_execPrepared, if_pos, mem_append, mem_singleton,
        true_or, or_true]
  unfold insertDirect runHook
  cases truthy r.hooks.beforeInsert with
  | none => exact hins h
  | some sql =>
    refine ensures_unlogged haside
      (unlogged_of_name (by decide +kernel) (by decide +kernel) _ _ _ _)
        fun (x : PgResult) T _ => ?_
    have h := h.other (.execPrepared (str "hook_bi_" ++ r.table) sql (unknownTypes 2)
      [.text [], .text (hookUser auth r req)]) x nofun nofun
    split_ifs
    · exact ensures_release hkey (h.releasing hacc) x
    · exact hins h

end

lemma ensures_claimed (hkey : idempotencyKey r req ≠ [])
    (h : Steady 0 pre) (hheld : T (idempotencyKey r req) ≠ none) :
    Ensures (OnLog r others) (Verdict auth r req) (postBody lib auth r req (idempotencyKey r req))
      pre T := by
  have hrefused : ∀ {t res}, ¬ Acceptable auth r req → Verdict auth r req t res T := fun hnot =>
    verdict_of_kept hheld fun hrel => hnot hrel.1
  unfold postBody
  split
  next hparse =>
    refine ensures_pure (hrefused ?_)
    rintro ⟨⟨body, hbody, -⟩, -⟩
    rw [hparse] at hbody
    cases hbody
  next body hparse =>
  dsimp only
  split_ifs with herrs
  · refine ensures_pure (hrefused ?_)
    rintro ⟨⟨body', hbody, hnone⟩, -⟩
    rw [hparse] at hbody
    cases hbody
    simp [hnone] at herrs
  split
  next hnone =>
    refine ensures_pure (hrefused ?_)
    rintro ⟨-, hown⟩
    rw [hnone] at hown
    cases hown
  next owner hown =>
  have hacc : Acceptable auth r req :=
    ⟨⟨body, hparse, by simpa using herrs⟩, by rw [hown]; rfl⟩
  unfold insertRow
  split_ifs with hbatched htx
  · refine ensures_unlogged haside trivial fun _ T _ => ?_
    refine ensures_unlogged haside trivial fun _ T _ => ensures_of_created (fun t => ?_) _
    rw [Created, if_pos hbatched]
    simp [queued]
  · exact ensures_transaction haside hkey hacc (eq_false_of_ne_true hbatched) htx h hheld _
  · exact ensures_direct haside hkey hacc (eq_false_of_ne_true hbatched)
      (eq_false_of_ne_true htx) h _

lemma ensures_verdict :
    Ensures (OnLog r others) (Verdict auth r req) (postHandler lib auth r req) [] T := by
  unfold postHandler
  split_ifs
  · exact ensures_pure fun hclaim => absurd hclaim.2 (by simp [answersTo])
  refine ensures_unlogged haside trivial fun (acquired : Bool) T _ => ?_
  split_ifs
  · exact ensures_pure fun hclaim => absurd hclaim.2 (by simp [answersTo])
  unfold idemClaim
  dsimp only
  split_ifs with hkey
  · exact fun t _ _ _ hclaim => absurd (by simpa using hkey) hclaim.1
  have hkey : idempotencyKey r req ≠ [] := by simpa using hkey
  refine ensures_perform fun (x : PgResult) T' hstep => ?_
  split_ifs with hx hrows
  · refine ensures_pure fun hclaim => ?_
    obtain ⟨-, y, hy, hok, -⟩ := hclaim
    rw [answersTo_claim, if_pos rfl, mem_singleton] at hy
    rw [hy, hx] at hok
    cases hok
  · refine ensures_perform fun (z : PgResult) T _ => ensures_pure fun hclaim => ?_
    obtain ⟨-, y, hy, -, hne⟩ := hclaim
    rw [answersTo_append, answersTo_claim, if_pos rfl, answersTo_execPrepared,
      if_neg claim_ne_fetch.symm,
      append_nil, mem_singleton] at hy
    rw [hy] at hne
    exact absurd (by simpa using hrows) hne
  · have hheld := (hstep.claim (eq_false_of_ne_true hx)).2
    have hsteady : Steady 0 ([] : Trace) := ⟨nofun, nofun, rfl⟩
    have hsteady := (hsteady.other .tryAcquire acquired nofun nofun).other (claimOp r req)
      x nofun nofun
    exact ensures_claimed haside hkey hsteady hheld

lemma not_replayed_of_free (hfree : T (idempotencyKey r req) = none)
    (hrun : RunIn (OnLog r others) (postHandler lib auth r req) T t res T') :
    ¬ Replayed r t := by
  suffices h : Ensures (OnLog r others) (fun t (_ : Response) _ => ¬ Replayed r t)
      (postHandler lib auth r req) [] T from h t res T' hrun
  unfold postHandler
  split_ifs
  · exact ensures_pure (by simp [Replayed, answersTo])
  refine ensures_unlogged haside trivial fun (acquired : Bool) T₁ hT₁ => ?_
  have hnone : ¬ Replayed r ([] ++ [⟨.tryAcquire, acquired⟩]) := by simp [Replayed, answersTo]
  split_ifs
  · exact ensures_pure hnone
  unfold idemClaim
  dsimp only
  split_ifs with hkey
  · exact fun t _ _ hrun => not_replayed_of_past keeps_postBody rfl hrun.run hnone
  refine ensures_perform fun (x : PgResult) T₂ hstep => ?_
  have hclaim : ¬ Replayed r ([] ++ [⟨.tryAcquire, acquired⟩] ++ [⟨claimOp r req, x⟩]) :=
    not_not.2 ((answersTo_claim _ _ _ _ _ acquired x).trans (if_neg claim_ne_fetch))
  split_ifs with hx hrows
  · exact ensures_pure hclaim
  · have hgranted := (hstep.claim (eq_false_of_ne_true hx)).1.2 (hT₁.trans hfree)
    exact absurd (by simpa using hrows) hgranted
  · exact fun t _ _ hrun => not_replayed_of_past keeps_postBody rfl hrun.run hclaim

end

/-- Of the requests that claim their key and insert nothing, those give the key up that are
acceptable and fail at a hook or at the `INSERT`. -/
theorem released_iff (lib : Platform) (auth : AuthConfig) (r : Resource) (req : Request)
    (others : Op → LogTable Unit → LogTable Unit → Prop) (haside : Aside r req others)
    (T : LogTable Unit) (t : Trace) (res : Response) (T' : LogTable Unit)
    (hrun : RunIn (OnLog r others) (postHandler lib auth r req) T t res T')
    (hclaimed : Claimed r req t) (hnot : ¬ Created r t) (hclears : ClearsSucceed r t) :
    Released auth r req lib others T' ↔ Releasing auth r req t := by
  have hverdict := ensures_verdict haside t res T' hrun hclaimed hnot hclears
  constructor
  · exact fun h => hverdict.1 h.1
  · intro h
    have hfree := hverdict.2 h
    exact ⟨hfree, fun t res T'' hretry => not_replayed_of_free haside hfree hretry⟩

def failing (r : Resource) (T : LogTable Unit) : (op : Op) → Option (op.Res × LogTable Unit)
  | .execPrepared name sql _ params =>
    match logStatement r name sql params with
    | some st => some (st.perform () T)
    | none => some (PgResult.error [], T)
  | .exec _ | .queryCached _ _ _ _ => some (PgResult.error [], T)
  | .tryAcquire | .checkout => some (true, T)
  | .getEntity _ _ _ _ => some ((none : Option Bytes), T)
  | .walAppend _ => some ((0 : ℕ), T)
  | .markDirty _ | .enqueue _ _ _ | .invalidateTable _ | .log _ => some ((), T)

lemma onLog_failing {op : Op} {x : op.Res} (h : failing r T op = some (x, T')) :
    OnLog r (fun _ T T' => T' = T) T op x T' := by
  cases op with
  | execPrepared name sql _ params =>
    simp only [failing] at h
    simp only [OnLog]
    cases hst : logStatement r name sql params with
    | some st =>
      rw [hst] at h
      have heq : st.perform () T = (x, T') := Option.some.inj h
      exact .inl ⟨by rw [heq], by rw [heq]⟩
    | none =>
      rw [hst] at h
      cases h
      rfl
  | _ =>
    cases h
    rfl

lemma runIn_failing {p : Handler} (h : p.simulate (failing r) T = some (t, res, T')) :
    RunIn (OnLog r fun _ T T' => T' = T) p T t res T' := by
  refine .of_simulate (fun _ _ _ _ hx => ?_) h
  exact onLog_failing hx

def keyedItems : Resource where
  path := str "/items"
  table := str "items"
  columns := [str "name"]
  idempotency := { enabled := true }

def keyedItem (body : Bytes) : Request :=
  { newItem with headers := [⟨str "Idempotency-Key", str "k"⟩], body }

def granted (body : Bytes) : Trace :=
  [⟨.tryAcquire, true⟩, ⟨claimOp keyedItems (keyedItem body),
    ({ rows := [[some (str "k")]] } : PgResult)⟩]

def failedInsert : Trace :=
  granted newItem.body ++ [⟨insertOp keyedItems [.fromText (str "a")], PgResult.error []⟩,
    ⟨.invalidateTable (str "items"), ()⟩,
    ⟨clearOp keyedItems (keyedItem newItem.body), ({} : PgResult)⟩]

theorem released_failedInsert : ∃ t res T', RunIn (OnLog keyedItems fun _ T T' => T' = T)
    (postHandler ⟨fun _ => []⟩ {} keyedItems (keyedItem newItem.body)) (fun _ => none) t res T' ∧
      Released {} keyedItems (keyedItem newItem.body) ⟨fun _ => []⟩ (fun _ T T' => T' = T) T' := by
  have heval : ((postHandler ⟨fun _ => []⟩ {} keyedItems (keyedItem newItem.body)).simulate
      (failing keyedItems) fun _ => none).map (fun x => x.1) = some failedInsert := by
    decide +kernel
  obtain ⟨⟨t, res, T'⟩, hsim, ht⟩ := Option.map_eq_some_iff.1 heval
  obtain rfl : t = failedInsert := ht
  have hclaimed : Claimed keyedItems (keyedItem newItem.body) failedInsert := by
    unfold Claimed
    decide +kernel
  have hnot : ¬ Created keyedItems failedInsert := by
    unfold Created
    decide +kernel
  have hclears : ClearsSucceed keyedItems failedInsert := by
    unfold ClearsSucceed
    decide +kernel
  have hreleasing : Releasing {} keyedItems (keyedItem newItem.body) failedInsert := by
    have hparse : (JsonBody.parse newItem.body).isSome := by decide +kernel
    obtain ⟨body, hbody⟩ := Option.isSome_iff_exists.1 hparse
    refine ⟨⟨⟨body, hbody, rfl⟩, by decide +kernel⟩, by decide +kernel, fun i hi => ?_⟩
    have hnone : (execs failedInsert).findIdx? (fun x => x.2.hadError) = none := rfl
    rw [hnone] at hi
    cases hi
  have hrun := runIn_failing hsim
  refine ⟨_, res, T', hrun, ?_⟩
  exact (released_iff ⟨fun _ => []⟩ {} keyedItems (keyedItem newItem.body) _
    (fun _ _ _ h => by rw [h]) _ _ res T' hrun hclaimed hnot hclears).2 hreleasing

theorem not_released_invalidJson : ∃ t res T', RunIn (OnLog keyedItems fun _ T T' => T' = T)
    (postHandler ⟨fun _ => []⟩ {} keyedItems (keyedItem [])) (fun _ => none) t res T' ∧
      Claimed keyedItems (keyedItem []) t ∧ ¬ Created keyedItems t ∧ ClearsSucceed keyedItems t ∧
      ¬ Released {} keyedItems (keyedItem []) ⟨fun _ => []⟩ (fun _ T T' => T' = T) T' := by
  have heval : ((postHandler ⟨fun _ => []⟩ {} keyedItems (keyedItem [])).simulate
      (failing keyedItems) fun _ => none).map (fun x => (x.1, (x.2.2 (str "k")).isSome)) =
        some (granted [], true) := by
    decide +kernel
  obtain ⟨⟨t, res, T'⟩, hsim, hx⟩ := Option.map_eq_some_iff.1 heval
  obtain ⟨ht, hkept⟩ := Prod.mk.inj hx
  obtain rfl : t = granted [] := ht
  have hkey : idempotencyKey keyedItems (keyedItem []) = str "k" := rfl
  refine ⟨_, res, T', runIn_failing hsim, ?_, ?_, ?_, fun h => ?_⟩
  · unfold Claimed
    decide +kernel
  · unfold Created
    decide +kernel
  · unfold ClearsSucceed
    decide +kernel
  · have hfree := h.1
    rw [hkey] at hfree
    simp [hfree] at hkept

end SpidoNG.Service
