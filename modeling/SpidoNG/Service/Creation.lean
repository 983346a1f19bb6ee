import SpidoNG.Service.Transactional

/-!
# What a POST does

The calls of `POST <path>` in their order.
-/

namespace SpidoNG.Service

open Bytes Pg Prog

section

variable (r : Resource) (req : Request)

def claimOp : Op :=
  .execPrepared (str "idem_claim_" ++ r.table) (idemClaimSql r) (unknownTypes 2)
    [.text (idempotencyKey r req), .text (str "POST " ++ r.path)]

def fetchOp : Op :=
  .execPrepared (str "idem_fetch_" ++ r.table) (idemFetchSql r) (unknownTypes 1)
    [.text (idempotencyKey r req)]

def clearOp : Op :=
  .execPrepared (str "idem_clear_" ++ r.table) (idemClearSql r) (unknownTypes 1)
    [.text (idempotencyKey r req)]

def storeOp (status : ℤ) (body : Bytes) : Op :=
  .execPrepared (str "idem_store_" ++ r.table) (idemStoreSql r) [Oid.unknown, 23, Oid.unknown]
    [.text (idempotencyKey r req), .i4 status, .text body]

def insertOp (row : List PgParam) : Op :=
  .execPrepared (str "ins_" ++ r.table) (insertSql r row.length) (unknownTypes row.length) row

def IsInner (auth : AuthConfig) (sql : Bytes) : Prop :=
  sql ∈ hookTexts r.hooks.beforeInsert [] (hookUser auth r req) ∨ (∃ row, sql = insertText r row) ∨
    ∃ pk, sql ∈ hookTexts r.hooks.afterInsert pk (hookUser auth r req)

end

inductive PostStage
  | arrived
  | admitted
  | taken
  | held
  | linked
  | opened
  | failed
  | undone
  | created
  | ended

section

variable (auth : AuthConfig) (r : Resource) (req : Request)

inductive PostNext : PostStage → (op : Op) → op.Res → PostStage → Prop
  | overloaded : PostNext .arrived .tryAcquire false .ended
  | keyless (hkey : idempotencyKey r req = []) : PostNext .arrived .tryAcquire true .held
  | keyed (hkey : idempotencyKey r req ≠ []) : PostNext .arrived .tryAcquire true .admitted
  | claimFails {x : PgResult} (hx : x.hadError = true) : PostNext .admitted (claimOp r req) x .ended
  | conflict {x : PgResult} (hx : x.hadError = false) (hrows : x.rows = []) :
      PostNext .admitted (claimOp r req) x .taken
  | claims {x : PgResult} (hx : x.hadError = false) (hrows : x.rows ≠ []) :
      PostNext .admitted (claimOp r req) x .held
  | fetch (x : PgResult) : PostNext .taken (fetchOp r req) x .ended
  | markDirty : PostNext .held (.markDirty r.table) () .held
  | enqueue (row : List PgParam) : PostNext .held (.enqueue r.path r.table row) () .created
  | hook {sql : Bytes} {x : PgResult} (hx : x.hadError = false) :
      PostNext .held (.execPrepared (str "hook_bi_" ++ r.table) sql (unknownTypes 2)
        [.text [], .text (hookUser auth r req)]) x .held
  | hookFails {sql : Bytes} {x : PgResult} (hx : x.hadError = true) :
      PostNext .held (.execPrepared (str "hook_bi_" ++ r.table) sql (unknownTypes 2)
        [.text [], .text (hookUser auth r req)]) x .undone
  | insert {row : List PgParam} {x : PgResult} (hx : x.hadError = false) :
      PostNext .held (insertOp r row) x .created
  | insertFails {row : List PgParam} {x : PgResult} (hx : x.hadError = true) :
      PostNext .held (insertOp r row) x .undone
  | exhausted : PostNext .held .checkout false .ended
  | checkout (htx : r.transactional = true) : PostNext .held .checkout true .linked
  | begin {x : PgResult} (hx : x.hadError = false) :
      PostNext .linked (.exec (str "BEGIN")) x .opened
  | beginFails {x : PgResult} (hx : x.hadError = true) :
      PostNext .linked (.exec (str "BEGIN")) x .ended
  | inner {sql : Bytes} {x : PgResult} (hsql : IsInner r req auth sql) (hx : x.hadError = false) :
      PostNext .opened (.exec sql) x .opened
  | innerFails {sql : Bytes} {x : PgResult} (hsql : IsInner r req auth sql)
    (hx : x.hadError = true) :
      PostNext .opened (.exec sql) x .failed
  | commit {x : PgResult} (hx : x.hadError = false) :
      PostNext .opened (.exec (str "COMMIT")) x .created
  | commitFails {x : PgResult} (hx : x.hadError = true) :
      PostNext .opened (.exec (str "COMMIT")) x .ended
  | rollback (x : PgResult) : PostNext .failed (.exec (str "ROLLBACK")) x .undone
  | clear (hkey : idempotencyKey r req ≠ []) (x : PgResult) :
      PostNext .undone (clearOp r req) x .ended
  | afterHook {sql pk : Bytes} (x : PgResult) :
      PostNext .created (.execPrepared (str "hook_ai_" ++ r.table) sql (unknownTypes 2)
        [.text pk, .text (hookUser auth r req)]) x .created
  | log (line : Bytes) : PostNext .created (.log line) () .created
  | store (hkey : idempotencyKey r req ≠ []) (status : ℤ) (body : Bytes) (x : PgResult) :
      PostNext .created (storeOp r req status body) x .created
  | invalidate (s : PostStage) : PostNext s (.invalidateTable r.table) () s

end

variable {lib : Platform} {auth : AuthConfig} {r : Resource} {req : Request} {s : PostStage}

lemma keeps_exec {sql : Bytes} {α : Type} {f : PgResult → Action α}
    (h : ∀ x : PgResult, ∃ s', PostNext auth r req s (.exec sql) x s' ∧
      (f x).Keeps (PostNext auth r req) s') :
    (exec sql >>= f).Keeps (PostNext auth r req) s := Keeps.perform h

lemma keeps_execPrepared {name sql : Bytes} {types : List Oid} {params : List PgParam} {α : Type}
    {f : PgResult → Action α}
    (h : ∀ x : PgResult, ∃ s', PostNext auth r req s (.execPrepared name sql types params) x s' ∧
      (f x).Keeps (PostNext auth r req) s') :
    (execPrepared name sql types params >>= f).Keeps (PostNext auth r req) s := Keeps.perform h

lemma keeps_respond (status : ℤ) (body : Bytes) :
    (respond r (idempotencyKey r req) status body).Keeps (PostNext auth r req) .created := by
  unfold respond idemStore
  split_ifs with hkey
  · trivial
  · exact keeps_execPrepared fun x => ⟨_, .store (by simpa using hkey) status body x, trivial⟩

lemma keeps_fail (err : PgResult) :
    (fail lib r (idempotencyKey r req) err).Keeps (PostNext auth r req) .undone := by
  unfold fail idemClear
  split_ifs with hkey
  · trivial
  · exact keeps_execPrepared fun x => ⟨_, .clear (by simpa using hkey) x, trivial⟩

lemma keeps_rollback (err : PgResult) :
    (rollback lib r (idempotencyKey r req) err).Keeps (PostNext auth r req) .failed :=
  keeps_exec fun x => ⟨_, .rollback x, keeps_fail err⟩

variable {f : PgResult → Handler} {hook : Option Bytes}

section

variable (hok : ∀ x : PgResult, x.hadError = false → (f x).Keeps (PostNext auth r req) .opened)
  (herr : ∀ x : PgResult, x.hadError → (f x).Keeps (PostNext auth r req) .failed)

include hok herr

lemma keeps_inner {sql : Bytes} (hsql : IsInner r req auth sql) :
    (exec sql >>= f).Keeps (PostNext auth r req) .opened := by
  refine keeps_exec fun x => ?_
  cases hx : x.hadError with
  | false => exact ⟨_, .inner hsql hx, hok x hx⟩
  | true => exact ⟨_, .innerFails hsql hx, herr x hx⟩

lemma keeps_hookIn {pk user : Bytes}
    (hsql : ∀ sql ∈ hookTexts hook pk user, IsInner r req auth sql) :
    (runHookIn hook pk user >>= f).Keeps (PostNext auth r req) .opened := by
  unfold runHookIn
  unfold hookTexts at hsql
  cases htruthy : Resource.truthy hook with
  | none => exact hok {} rfl
  | some =>
    rw [htruthy] at hsql
    exact keeps_inner hok herr (hsql _ (by simp))

end

lemma keeps_insertTransactional (htx : r.transactional) (row : List PgParam) :
    (insertTransactional lib auth r req (idempotencyKey r req) row).Keeps (PostNext auth r req)
      .held := by
  refine Keeps.perform fun (conn : Bool) => ?_
  cases conn with
  | false => exact ⟨_, .exhausted, trivial⟩
  | true =>
  refine ⟨_, .checkout htx, keeps_exec fun b => ?_⟩
  split_ifs with hb
  · exact ⟨_, .beginFails hb, trivial⟩
  refine ⟨_, .begin (eq_false_of_ne_true hb), ?_⟩
  refine keeps_hookIn ?_ ?_ fun sql hsql => .inl hsql
  · intro before hbef
    rw [if_neg (by simp [hbef])]
    refine keeps_inner ?_ ?_ (.inr (.inl ⟨row, rfl⟩))
    · intro res hres
      rw [if_neg (by simp [hres])]
      refine keeps_hookIn ?_ ?_ fun sql hsql => .inr (.inr ⟨_, hsql⟩)
      · intro after haft
        rw [if_neg (by simp [haft])]
        refine keeps_exec fun c => ?_
        split_ifs with hc
        · exact ⟨_, .commitFails hc, trivial⟩
        · refine ⟨_, .commit (eq_false_of_ne_true hc), ?_⟩
          exact Keeps.perform fun _ => ⟨_, .invalidate _, keeps_respond 201 _⟩
      · intro after haft
        rw [if_pos haft]
        exact keeps_rollback after
    · intro res hres
      rw [if_pos hres]
      exact keeps_rollback res
  · intro before hbef
    rw [if_pos hbef]
    exact keeps_rollback before

lemma keeps_afterHook {pk kind : Bytes} {p : Handler}
    (hp : p.Keeps (PostNext auth r req) .created) :
    (runAfterHook r.table (str "hook_ai_" ++ r.table) kind hook pk (hookUser auth r req) >>=
      fun _ => p).Keeps (PostNext auth r req) .created := by
  unfold runAfterHook runHook
  cases Resource.truthy hook with
  | none => exact hp
  | some =>
    refine keeps_execPrepared fun x => ⟨_, .afterHook x, ?_⟩
    show ((if x.hadError then log _ else Pure.pure ()) >>= fun _ => p).Keeps _ _
    split_ifs
    · exact Keeps.perform fun _ => ⟨_, .log _, hp⟩
    · exact hp

def insertNow (lib : Platform) (auth : AuthConfig) (r : Resource) (req : Request)
    (row : List PgParam) : Handler := do
  let res ← execPrepared (str "ins_" ++ r.table) (insertSql r row.length)
    (unknownTypes row.length) row
  invalidateTable r.table
  if res.hadError then fail lib r (idempotencyKey r req) res
  else
    runAfterHook r.table (str "hook_ai_" ++ r.table) (str "after_insert") r.hooks.afterInsert
      (insertedKey res) (hookUser auth r req)
    respond r (idempotencyKey r req) 201 (insertedBody lib r res)

lemma keeps_insertDirect (row : List PgParam) :
    (insertDirect lib auth r req (idempotencyKey r req) row).Keeps (PostNext auth r req) .held := by
  have hins : (insertNow lib auth r req row).Keeps (PostNext auth r req) .held := by
    refine keeps_execPrepared fun res => ?_
    cases hres : res.hadError with
    | true => exact ⟨_, .insertFails hres, Keeps.perform fun _ =>
      ⟨_, .invalidate _, keeps_fail res⟩⟩
    | false =>
      refine ⟨_, .insert hres, Keeps.perform fun _ => ⟨_, .invalidate _, ?_⟩⟩
      exact keeps_afterHook (keeps_respond 201 _)
  unfold insertDirect runHook
  cases Resource.truthy r.hooks.beforeInsert with
  | none => exact hins
  | some =>
    refine keeps_execPrepared fun x => ?_
    split_ifs with hx
    · exact ⟨_, .hookFails hx, keeps_fail x⟩
    · exact ⟨_, .hook (eq_false_of_ne_true hx), hins⟩

lemma keeps_postBody :
    (postBody lib auth r req (idempotencyKey r req)).Keeps (PostNext auth r req) .held := by
  unfold postBody
  split
  · trivial
  dsimp only
  split_ifs
  · trivial
  split
  · trivial
  unfold insertRow
  split_ifs with hbatched htx
  · refine Keeps.perform fun _ => ⟨_, .markDirty, Keeps.perform fun _ => ⟨_, .enqueue _, ?_⟩⟩
    exact keeps_respond 202 _
  · exact keeps_insertTransactional htx _
  · exact keeps_insertDirect _

lemma keeps_postHandler : (postHandler lib auth r req).Keeps (PostNext auth r req) .arrived := by
  unfold postHandler
  split_ifs
  · trivial
  refine Keeps.perform fun (acquired : Bool) => ?_
  cases acquired with
  | false => exact ⟨_, .overloaded, trivial⟩
  | true =>
  unfold idemClaim
  rw [if_neg (by decide)]
  dsimp only
  split_ifs with hkey
  · exact ⟨_, .keyless (by simpa using hkey), keeps_postBody⟩
  refine ⟨_, .keyed (by simpa using hkey), keeps_execPrepared fun x => ?_⟩
  split_ifs with hx hrows
  · exact ⟨_, .claimFails hx, trivial⟩
  · refine ⟨_, .conflict (eq_false_of_ne_true hx) (by simpa using hrows), ?_⟩
    exact keeps_execPrepared fun x => ⟨_, .fetch x, trivial⟩
  · exact ⟨_, .claims (eq_false_of_ne_true hx) (by simpa using hrows), keeps_postBody⟩

def PostStage.past : PostStage → Bool
  | .arrived | .admitted | .taken => false
  | _ => true

lemma PostNext.past {s' : PostStage} {op : Op} {x : op.Res} (h : PostNext auth r req s op x s')
    (hs : s.past) : s'.past ∧ answersTo (str "idem_fetch_" ++ r.table) [⟨op, x⟩] = [] := by
  have hname : ∀ {tag : Bytes} {sql types params} (x : PgResult), tag ≠ str "idem_fetch_" →
      answersTo (str "idem_fetch_" ++
      r.table) [⟨.execPrepared (tag ++ r.table) sql types params, x⟩] =
        [] := by
    intro tag sql types params x htag
    rw [answersTo_execPrepared, if_neg fun heq => htag (List.append_cancel_right heq)]
  cases h with
  | overloaded | keyless | keyed | claimFails | conflict | claims | fetch => cases hs
  | hook | hookFails | insert | insertFails | clear | afterHook | store =>
    exact ⟨rfl, hname _ (by decide +kernel)⟩
  | invalidate => exact ⟨hs, rfl⟩
  | _ => exact ⟨rfl, rfl⟩

lemma not_replayed_of_past {p : Handler} (hp : p.Keeps (PostNext auth r req) s)
    (hs : s.past) {t t' : Trace} {res : Response} (hrun : p.Run t res) (ht' : ¬ Replayed r t') :
    ¬ Replayed r (t' ++ t) := by
  have hstep : ∀ {s op x s' t}, s.past ∧ ¬ Replayed r t → PostNext auth r req s op x s' →
      s'.past ∧ ¬ Replayed r (t ++ [⟨op, x⟩]) := by
    rintro s op x s' t ⟨hs, ht⟩ hnext
    obtain ⟨hs', hnone⟩ := hnext.past hs
    refine ⟨hs', ?_⟩
    rwa [Replayed, answersTo_append, hnone, List.append_nil]
  obtain ⟨s', -, h⟩ :=
    hp.run (I := fun s t => s.past ∧ ¬ Replayed r t) hstep hrun ⟨hs, ht'⟩
  exact h

end SpidoNG.Service
