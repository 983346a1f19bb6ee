import SpidoNG.Lib.Threads
import SpidoNG.Service.Idempotency
import SpidoNG.Service.Server

/-!
# Concurrent POST requests

Workers answer `POST` requests for the resources of a configuration, and the calls of the requests
are interleaved in any way.
-/

namespace SpidoNG.Service

open Bytes Pg Threads List Option Function

def Config.postRoute (cfg : Config) (path : Bytes) : Option Resource :=
  cfg.generated.reverse.find? fun r => r.serves .create && r.path == path

/-- A request that reaches the handler of its resource. -/
structure Post (cfg : Config) where
  resource : Resource
  routed : cfg.postRoute resource.path = some resource
  request : Request

namespace Post

variable {cfg : Config} (c : Post cfg)

def key : Bytes := idempotencyKey c.resource c.request

def log : Bytes := c.resource.idempotency.table

lemma resource_eq {c c' : Post cfg} (h : c.resource.path = c'.resource.path) :
    c.resource = c'.resource := some.inj (c.routed.symm.trans (h ▸ c'.routed))

end Post

abbrev Sender (cfg : Config) := ℕ × Post cfg

/-- The logs and connections, and what became of the requests. -/
structure PostStore (cfg : Config) where
  logs : Bytes → LogTable (Sender cfg)
  links : ℕ → Link
  inserted : List (Sender cfg)
  refused : List (Post cfg × Post cfg)
  replayed : List (Post cfg × Post cfg)

structure PostEnv (cfg : Config) where
  granted : Bool := true
  answer : PgResult := {}
  took : Bool := false
  landed : Bool := false
  tamper : Option (Bytes → LogTable (Sender cfg)) := none
  conn : PgConnection := {}
  status : TxStatus := .idle
  reply : Reply := .ready {}
  choice : Choice := {}

namespace PostStore

variable {cfg : Config}

def init : PostStore cfg := ⟨fun _ _ => none, fun _ => ⟨{}, {}⟩, [], [], []⟩

def owner (S : PostStore cfg) (log key : Bytes) : Option (Sender cfg) :=
  (S.logs log key).map LogEntry.holder

def setLog (S : PostStore cfg) (log : Bytes) (T : LogTable (Sender cfg)) : PostStore cfg :=
  { S with logs := Function.update S.logs log T }

def note (c : Post cfg) (T : LogTable (Sender cfg)) (res : PgResult) (S : PostStore cfg) :
    LogStatement → PostStore cfg
  | .claim key _ => { S with refused := (T key).toList.map (fun e => (c, e.holder.2)) ++ S.refused }
  | .fetch key =>
    if 0 < (res.i4 0 0).getD 0 then
      { S with replayed := (T key).toList.map (fun e => (c, e.holder.2)) ++ S.replayed }
    else S
  | _ => S

def insert (w : Sender cfg) (S : PostStore cfg) : PostStore cfg :=
  { S with inserted := w :: S.inserted }

def statement (env : PostEnv cfg) (log : Bytes) (w : Sender cfg) (st : LogStatement)
    (S : PostStore cfg) : PgResult × PostStore cfg :=
  let (res, T) := st.perform w (S.logs log)
  if env.answer.hadError then (env.answer, if env.took then S.setLog log T else S)
  else (res, (S.setLog log T).note w.2 (S.logs log) res st)

def otherStatement (env : PostEnv cfg) (w : Sender cfg) (name : Bytes) (S : PostStore cfg) :
    PostStore cfg :=
  let S := { S with logs := env.tamper.getD S.logs }
  if name = str "ins_" ++ w.2.resource.table ∧
    (env.answer.hadError = false ∨ env.landed = true) then
    S.insert w
  else S

def connect (env : PostEnv cfg) (w : Sender cfg) (l : Link) (S : PostStore cfg) : PostStore cfg :=
  let before := (S.links w.1).session.committed.length
  let S := { S with logs := env.tamper.getD S.logs, links := Function.update S.links w.1 l }
  if before < l.session.committed.length then S.insert w else S

end PostStore

section Machine

variable {cfg : Config} (relation : Bytes → Bytes) (kind : Bytes → TextKind) (lib : Platform)

/-- An operation of a handler on the store. -/
def execPost (env : PostEnv cfg) (w : Sender cfg) :
    (op : Op) → PostStore cfg → Option (op.Res × PostStore cfg)
  | .tryAcquire, S => some (env.granted, S)
  | .checkout, S => some (env.granted,
      { S with links := Function.update S.links w.1 ⟨env.conn, { status := env.status }⟩ })
  | .execPrepared name sql _ params, S =>
    match logStatement w.2.resource name sql params with
    | some st => some (S.statement env (relation w.2.log) w st)
    | none => some (env.answer, S.otherStatement env w name)
  | .exec sql, S =>
    ((S.links w.1).exec kind sql env.reply env.choice).map fun x => (x.1, S.connect env w x.2)
  | .enqueue _ _ _, S => some ((), S.insert w)
  | .markDirty _, S | .invalidateTable _, S | .log _, S => some ((), S)
  -- the calls that no `POST` makes
  | .queryCached _ _ _ _, S => some (env.answer, S)
  | .getEntity _ _ _ _, S => some ((none : Option Bytes), S)
  | .walAppend _, S => some ((0 : ℕ), S)

abbrev PostStep (cfg : Config) := Sender cfg × Op

@[reducible] def PostStep.Res (x : PostStep cfg) : Type := x.2.Res

def signed (w : Sender cfg) : Handler → Prog (PostStep cfg) PostStep.Res (Option Response)
  | .pure res => .pure (some res)
  | .call op k => .call (w, op) fun r => signed w (k r)

def postMachine (Tid : Type) : Machine Tid (PostStore cfg) (PostEnv cfg)
    (fun x : PostStep cfg => PostStep.Res x) (fun _ : Post cfg => Response)
    (fun _ : Post cfg => Response) where
  exec _ env _ x S := execPost relation kind env x.1 x.2 S
  body b _ c := signed (b, c) (postHandler lib cfg.auth c.resource c.request)
  script _ c := .call c fun res => .pure (some res)
  runsOn _ _ := true

end Machine

variable {cfg : Config} {relation : Bytes → Bytes} {kind : Bytes → TextKind} {w w' : Sender cfg}
  {S S' : PostStore cfg} {env : PostEnv cfg}

lemma signed_call {p : Handler} {x : PostStep cfg}
    {k : x.Res → Prog (PostStep cfg) PostStep.Res (Option Response)} (h : .call x k = signed w p) :
    ∃ (op : Op) (k' : op.Res → Handler), p = .call op k' ∧
      Prog.call x k = .call (w, op) fun r => signed w (k' r) := by
  cases p with
  | pure => cases h
  | call op k' => exact ⟨op, k', rfl, h⟩

section

variable (relation)

structure Changes (w : Sender cfg) (S S' : PostStore cfg) : Prop where
  owner : ∀ log key, S'.owner log key = S.owner log key ∨
      (S.owner log key = none ∧ S'.owner log key = some w ∧ log = relation w.2.log ∧
        key = w.2.key ∧ key ≠ []) ∨
      (S.owner log key = some w ∧ S'.owner log key = none ∧ w ∉ S'.inserted) := by
    exact fun _ _ => .inl rfl
  links : ∀ n, n ≠ w.1 → S'.links n = S.links n := by exact fun _ _ => rfl
  inserted : S'.inserted = S.inserted ∨ S'.inserted = w :: S.inserted ∧ w ∉ S.inserted ∧
      (w.2.key ≠ [] → S'.owner (relation w.2.log) w.2.key = some w) := by exact .inl rfl
  refused : ∀ x ∈ S'.refused, x ∈ S.refused ∨ x.1 = w.2 ∧
      ∃ v, S.owner (relation w.2.log) w.2.key = some v ∧ x.2 = v.2 := by exact fun _ h => .inl h
  replayed : ∀ x ∈ S'.replayed, x ∈ S.replayed ∨ x.1 = w.2 ∧
      ∃ v, S.owner (relation w.2.log) w.2.key = some v ∧ x.2 = v.2 := by exact fun _ h => .inl h

def Owns (S : PostStore cfg) (w : Sender cfg) : Prop :=
  w.2.key ≠ [] → S.owner (relation w.2.log) w.2.key = some w

def At (S : PostStore cfg) (w : Sender cfg) : PostStage → Prop
  | .arrived | .taken => w ∉ S.inserted
  | .admitted => w ∉ S.inserted ∧ w.2.key ≠ []
  | .held | .undone => w ∉ S.inserted ∧ Owns relation S w
  | .linked => w ∉ S.inserted ∧ Owns relation S w ∧ w.2.resource.transactional = true ∧
      (S.links w.1).session.pending = [] ∧ (S.links w.1).session.committed = []
  | .opened => w ∉ S.inserted ∧ Owns relation S w ∧ w.2.resource.transactional = true ∧
      ∃ xs, (S.links w.1).Open xs
  | .failed => w ∉ S.inserted ∧ Owns relation S w ∧ w.2.resource.transactional = true ∧
      (S.links w.1).Undone
  | .created => Owns relation S w
  | .ended => True

end

lemma At.other {s : PostStage} (h : At relation S w s) (hc : Changes relation w' S S')
    (hne : w.1 ≠ w'.1) : At relation S' w s := by
  have hne' : w ≠ w' := fun heq => hne (congrArg Prod.fst heq)
  have hins : w ∉ S.inserted → w ∉ S'.inserted := by
    intro hnew
    rcases hc.inserted with heq | ⟨heq, -⟩
    · rwa [heq]
    · rw [heq, mem_cons]
      exact fun hw => hw.elim hne' hnew
  have howns : Owns relation S w → Owns relation S' w := by
    intro hown hkey
    rcases hc.owner (relation w.2.log) w.2.key with heq | ⟨hfree, -⟩ | ⟨hheld, -⟩
    · exact heq.trans (hown hkey)
    · cases hfree.symm.trans (hown hkey)
    · exact absurd (some.inj ((hown hkey).symm.trans hheld)) hne'
  have hlinks := hc.links w.1 hne
  cases s with
  | arrived | taken => exact hins h
  | admitted => exact ⟨hins h.1, h.2⟩
  | held | undone => exact ⟨hins h.1, howns h.2⟩
  | linked | opened | failed =>
    obtain ⟨hnew, hown, htx, hlink⟩ := h
    refine ⟨hins hnew, howns hown, htx, ?_⟩
    rwa [hlinks]
  | created => exact howns h
  | ended => trivial

lemma owner_update (S : PostStore cfg) (log key : Bytes) (x : Option (LogEntry (Sender cfg)))
    (log' key' : Bytes) : (S.setLog log (Function.update (S.logs log) key x)).owner log' key' =
      if log' = log ∧ key' = key then x.map LogEntry.holder else S.owner log' key' := by
  unfold PostStore.owner PostStore.setLog
  by_cases hlog : log' = log
  · subst hlog
    by_cases hkey : key' = key
    · subst hkey
      simp
    · simp [hkey]
  · simp [hlog]

lemma setLog_self (S : PostStore cfg) (log : Bytes) : S.setLog log (S.logs log) = S := by
  unfold PostStore.setLog
  rw [update_eq_self]

lemma changes_claimed (hkey : w.2.key ≠ []) (hfree : S.logs (relation w.2.log) w.2.key = none)
    (e : LogEntry (Sender cfg)) (he : e.holder = w) :
    Changes relation w S (S.setLog (relation w.2.log)
      (Function.update (S.logs (relation w.2.log)) w.2.key (some e))) where
  owner log key := by
    rw [owner_update]
    split_ifs with h
    · refine .inr (.inl ⟨?_, congrArg some he, h.1, h.2, h.2 ▸ hkey⟩)
      rw [h.1, h.2, PostStore.owner, hfree]
      rfl
    · exact .inl rfl

lemma changes_cleared (hkey : w.2.key ≠ []) (hown : Owns relation S w) (hnew : w ∉ S.inserted) :
    Changes relation w S (S.setLog (relation w.2.log)
      (Function.update (S.logs (relation w.2.log)) w.2.key none)) where
  owner log key := by
    rw [owner_update]
    split_ifs with h
    · refine .inr (.inr ⟨?_, rfl, hnew⟩)
      rw [h.1, h.2, hown hkey]
    · exact .inl rfl

lemma owner_stored {log key : Bytes} {e : LogEntry (Sender cfg)} (hheld : S.logs log key = some e)
    (e' : LogEntry (Sender cfg)) (he : e'.holder = e.holder) (log' key' : Bytes) :
    (S.setLog log (Function.update (S.logs log) key (some e'))).owner log' key' =
      S.owner log' key' := by
  rw [owner_update]
  split_ifs with h
  · rw [h.1, h.2, PostStore.owner, hheld]
    exact congrArg some he
  · rfl

lemma mem_found {T : LogTable (Sender cfg)} {key : Bytes} {c : Post cfg} {x : Post cfg × Post cfg}
    (h : x ∈ (T key).toList.map fun e => (c, e.holder.2)) :
    x.1 = c ∧ ∃ v, (T key).map LogEntry.holder = some v ∧ x.2 = v.2 := by
  obtain ⟨e, he, rfl⟩ := mem_map.1 h
  rw [mem_toList] at he
  exact ⟨rfl, e.holder, by rw [mem_def.1 he]; rfl, rfl⟩

lemma changes_claim (hkey : w.2.key ≠ []) {endpoint : Bytes} {x : PgResult}
    (h : S.statement env (relation w.2.log) w (.claim w.2.key endpoint) = (x, S')) :
    Changes relation w S S' ∧ S'.inserted = S.inserted ∧
      (x.hadError = false → x.rows ≠ [] → Owns relation S' w) := by
  unfold PostStore.statement LogStatement.perform at h
  cases hheld : S.logs (relation w.2.log) w.2.key with
  | none =>
    have hclaim := changes_claimed hkey hheld ⟨endpoint, [0, 0, 0, 0], [], w⟩ rfl
    simp only [hheld, PostStore.note, toList_none, map_nil, nil_append] at h
    split_ifs at h with herr htook
    · cases h
      exact ⟨hclaim, rfl, by simp [herr]⟩
    · cases h
      exact ⟨{}, rfl, by simp [herr]⟩
    · cases h
      refine ⟨hclaim, rfl, fun _ _ _ => ?_⟩
      rw [PostStore.owner]
      simp [PostStore.setLog]
  | some =>
    simp only [hheld, setLog_self, ite_self, PostStore.note] at h
    split_ifs at h with herr
    · cases h
      exact ⟨{}, rfl, by simp [herr]⟩
    · cases h
      refine ⟨{ refused := fun x hx => ?_ }, rfl, fun _ hrows => absurd rfl hrows⟩
      rcases mem_append.1 hx with hx | hx
      · rw [← hheld] at hx
        exact .inr (mem_found hx)
      · exact .inl hx

lemma changes_fetch {x : PgResult}
    (h : S.statement env (relation w.2.log) w (.fetch w.2.key) = (x, S')) :
    Changes relation w S S' := by
  have hlog : (LogStatement.perform w (S.logs (relation w.2.log)) (.fetch w.2.key)).2 =
      S.logs (relation w.2.log) := by
    unfold LogStatement.perform
    dsimp only
    split <;> rfl
  simp only [PostStore.statement, hlog, setLog_self, ite_self, PostStore.note] at h
  split_ifs at h
  · cases h
    exact {}
  · cases h
    refine { replayed := fun x hx => ?_ }
    rcases mem_append.1 hx with hx | hx
    · exact .inr (mem_found hx)
    · exact .inl hx
  · cases h
    exact {}

lemma changes_clear (hkey : w.2.key ≠ []) (hown : Owns relation S w) (hnew : w ∉ S.inserted)
    {x : PgResult} (h : S.statement env (relation w.2.log) w (.clear w.2.key) = (x, S')) :
    Changes relation w S S' := by
  simp only [PostStore.statement, LogStatement.perform, PostStore.note] at h
  split_ifs at h <;> cases h
  · exact changes_cleared hkey hown hnew
  · exact {}
  · exact changes_cleared hkey hown hnew

lemma changes_store {status body : Bytes} {x : PgResult}
    (h : S.statement env (relation w.2.log) w (.store w.2.key status body) = (x, S')) :
    Changes relation w S S' ∧ ∀ log key, S'.owner log key = S.owner log key := by
  unfold PostStore.statement LogStatement.perform at h
  cases hheld : S.logs (relation w.2.log) w.2.key with
  | none =>
    simp only [hheld, setLog_self, ite_self, PostStore.note] at h
    split_ifs at h <;> cases h <;> exact ⟨{}, fun _ _ => rfl⟩
  | some e =>
    have hown := owner_stored hheld { e with status, body } rfl
    simp only [hheld, PostStore.note] at h
    split_ifs at h <;> cases h
    · exact ⟨{ owner := fun log key => .inl (hown log key) }, hown⟩
    · exact ⟨{}, fun _ _ => rfl⟩
    · exact ⟨{ owner := fun log key => .inl (hown log key) }, hown⟩

structure PostEnv.Calm (env : PostEnv cfg) : Prop where
  tamper : env.tamper.isNone
  landed : env.landed = false

instance (env : PostEnv cfg) : Decidable env.Calm :=
  decidable_of_iff (env.tamper.isNone ∧ env.landed = false)
    ⟨fun h => ⟨h.1, h.2⟩, fun h => ⟨h.1, h.2⟩⟩

structure Understood (kind : Bytes → TextKind) (cfg : Config) : Prop where
  begin : kind (str "BEGIN") = .begin
  commit : kind (str "COMMIT") = .commit
  rollback : kind (str "ROLLBACK") = .rollback
  data : ∀ c : Post cfg, c.resource.transactional = true →
    DataOnly cfg.auth c.resource c.request kind

variable {r : Resource}

lemma DataOnly.inner {auth : AuthConfig} {req : Request} {sql : Bytes}
    (h : DataOnly auth r req kind) (hsql : IsInner r req auth sql) : kind sql = .data := by
  rcases hsql with hsql | ⟨row, rfl⟩ | ⟨pk, hsql⟩
  · exact h.before sql hsql
  · exact h.insert row
  · exact h.after pk sql hsql

lemma logStatement_fetch (key : Bytes) :
    logStatement r (str "idem_fetch_" ++ r.table) (idemFetchSql r) [.text key] = some
      (.fetch key) := by
  simp [logStatement, PgParam.text]

lemma logStatement_store (key body : Bytes) (status : ℤ) :
    logStatement r (str "idem_store_" ++ r.table) (idemStoreSql r)
      [.text key, .i4 status, .text body] = some (.store key (PgParam.i4 status).value body) := by
  simp [logStatement, PgParam.text]

lemma eq_of_exec_tryAcquire {b : Bool}
    (h : execPost relation kind env w .tryAcquire S = some (b, S')) :
    S' = S := (congrArg Prod.snd (some.inj h)).symm

lemma links_of_exec_checkout {b : Bool}
    (h : execPost relation kind env w .checkout S = some (b, S')) :
    S' = { S with links := Function.update S.links w.1 ⟨env.conn, { status := env.status }⟩ } :=
  (congrArg Prod.snd (some.inj h)).symm

section Calls

variable {name sql : Bytes} {types : List Oid} {params : List PgParam} {x : PgResult}

lemma statement_of_exec {st : LogStatement}
    (hst : logStatement w.2.resource name sql params = some st)
    (h : execPost relation kind env w (.execPrepared name sql types params) S = some (x, S')) :
    S.statement env (relation w.2.log) w st = (x, S') := by
  simp only [execPost, hst] at h
  exact some.inj h

lemma otherStatement_of_exec (hst : logStatement w.2.resource name sql params = none)
    (h : execPost relation kind env w (.execPrepared name sql types params) S = some (x, S')) :
    x = env.answer ∧ S' = S.otherStatement env w name := by
  simp only [execPost, hst] at h
  cases h
  exact ⟨rfl, rfl⟩

lemma eq_of_exec_hook (henv : env.Calm) {tag : Bytes} (hlen : 2 ≤ tag.length)
    (hid : tag.take 2 ≠ str "id") (hins : tag ≠ str "ins_")
    (h : execPost relation kind env w
      (.execPrepared (tag ++ w.2.resource.table) sql types params) S =
      some (x, S')) : S' = S := by
  obtain ⟨-, rfl⟩ := otherStatement_of_exec (unlogged_of_name hlen hid _ _ types _) h
  have hname : ¬ tag ++ w.2.resource.table = str "ins_" ++ w.2.resource.table := fun heq =>
    hins (append_cancel_right heq)
  simp [PostStore.otherStatement, isNone_iff_eq_none.1 henv.tamper, hname]

lemma eq_of_exec_insert (henv : env.Calm) {row : List PgParam}
    (h : execPost relation kind env w (insertOp w.2.resource row) S = some (x, S')) :
    S' = if x.hadError then S else S.insert w := by
  obtain ⟨rfl, rfl⟩ := otherStatement_of_exec
    (unlogged_of_name (by decide +kernel) (by decide +kernel) _ _ (unknownTypes row.length) _) h
  cases herr : env.answer.hadError <;>
    simp [PostStore.otherStatement, isNone_iff_eq_none.1 henv.tamper, henv.landed, herr]

lemma connect_of_exec (h : execPost relation kind env w (.exec sql) S = some (x, S')) :
    ∃ l, (S.links w.1).Answers kind sql x l ∧ S' = S.connect env w l := by
  obtain ⟨⟨x', l⟩, hexec, heq⟩ := map_eq_some_iff.1 h
  cases heq
  exact ⟨l, ⟨_, _, hexec⟩, rfl⟩

end Calls

lemma changes_insert (hnew : w ∉ S.inserted) (hown : Owns relation S w) :
    Changes relation w S (S.insert w) where
  inserted := .inr ⟨rfl, hnew, hown⟩

lemma changes_links (S : PostStore cfg) (w : Sender cfg) (l : Link) :
    Changes relation w S { S with links := Function.update S.links w.1 l } where
  links _ hn := update_of_ne hn ..

lemma links_self (S : PostStore cfg) (w : Sender cfg) (l : Link) :
    ({ S with links := Function.update S.links w.1 l } : PostStore cfg).links w.1 = l :=
  update_self ..

lemma connect_eq (henv : env.Calm) {l : Link} (hl : l.session.committed = []) :
    S.connect env w l = { S with links := Function.update S.links w.1 l } := by
  simp [PostStore.connect, isNone_iff_eq_none.1 henv.tamper, hl]

lemma changes_connect (henv : env.Calm) (hnew : w ∉ S.inserted) (hown : Owns relation S w)
    (l : Link) :
    Changes relation w S (S.connect env w l) ∧ Owns relation (S.connect env w l) w := by
  have hlinks : Changes relation w S _ := changes_links S w l
  simp only [PostStore.connect, isNone_iff_eq_none.1 henv.tamper, getD_none]
  split_ifs
  · exact ⟨{ links := hlinks.links, inserted := .inr ⟨rfl, hnew, hown⟩ }, hown⟩
  · exact ⟨hlinks, hown⟩

lemma At.next (hkind : Understood kind cfg) (henv : env.Calm) {s s' : PostStage} {op : Op}
    {x : op.Res}
    (h : At relation S w s) (hnext : PostNext cfg.auth w.2.resource w.2.request s op x s')
    (hexec : execPost relation kind env w op S = some (x, S')) :
    Changes relation w S S' ∧ At relation S' w s' := by
  cases hnext with
  | overloaded =>
    obtain rfl := eq_of_exec_tryAcquire hexec
    exact ⟨{}, trivial⟩
  | keyless hkey =>
    obtain rfl := eq_of_exec_tryAcquire hexec
    exact ⟨{}, h, fun hne => absurd hkey hne⟩
  | keyed hkey =>
    obtain rfl := eq_of_exec_tryAcquire hexec
    exact ⟨{}, h, hkey⟩
  | claimFails =>
    exact ⟨(changes_claim h.2 (statement_of_exec (logStatement_claim ..) hexec)).1, trivial⟩
  | conflict =>
    obtain ⟨hchange, hins, -⟩ :=
      changes_claim h.2 (statement_of_exec (logStatement_claim ..) hexec)
    exact ⟨hchange, fun hw => h.1 (hins ▸ hw)⟩
  | claims hx hrows =>
    obtain ⟨hchange, hins, hown⟩ :=
      changes_claim h.2 (statement_of_exec (logStatement_claim ..) hexec)
    exact ⟨hchange, hins ▸ h.1, hown hx hrows⟩
  | fetch => exact ⟨changes_fetch (statement_of_exec (logStatement_fetch _) hexec), trivial⟩
  | markDirty | log | invalidate =>
    cases hexec
    exact ⟨{}, h⟩
  | enqueue =>
    cases hexec
    exact ⟨changes_insert h.1 h.2, h.2⟩
  | hook | hookFails | afterHook =>
    obtain rfl := eq_of_exec_hook henv (by decide +kernel) (by decide +kernel)
      (by decide +kernel) hexec
    exact ⟨{}, h⟩
  | insert hx =>
    obtain rfl := (eq_of_exec_insert henv hexec).trans (if_neg (by simp [hx]))
    exact ⟨changes_insert h.1 h.2, h.2⟩
  | insertFails hx =>
    obtain rfl := (eq_of_exec_insert henv hexec).trans (if_pos hx)
    exact ⟨{}, h⟩
  | exhausted =>
    obtain rfl := links_of_exec_checkout hexec
    exact ⟨changes_links S w _, trivial⟩
  | checkout htx =>
    obtain rfl := links_of_exec_checkout hexec
    refine ⟨changes_links S w _, h.1, h.2, htx, ?_⟩
    simp
  | begin hx =>
    obtain ⟨hnew, hown, htx, hpen, hcom⟩ := h
    obtain ⟨l, hans, rfl⟩ := connect_of_exec hexec
    obtain ⟨hnone, hopen⟩ := hans.begin hkind.begin hpen hcom
    rw [connect_eq henv hnone]
    refine ⟨changes_links S w l, hnew, hown, htx, [], ?_⟩
    rw [links_self]
    exact hopen hx
  | beginFails | commitFails =>
    obtain ⟨hnew, hown, -⟩ := h
    obtain ⟨l, hans, rfl⟩ := connect_of_exec hexec
    exact ⟨(changes_connect henv hnew hown l).1, trivial⟩
  | inner hsql hx =>
    obtain ⟨hnew, hown, htx, xs, hopen⟩ := h
    obtain ⟨l, hans, rfl⟩ := connect_of_exec hexec
    have hopen := (hopen.data ((hkind.data _ htx).inner hsql) hans).1 hx
    rw [connect_eq henv (by rw [hopen.2])]
    refine ⟨changes_links S w l, hnew, hown, htx, ?_⟩
    rw [links_self]
    exact ⟨_, hopen⟩
  | innerFails hsql hx =>
    obtain ⟨hnew, hown, htx, xs, hopen⟩ := h
    obtain ⟨l, hans, rfl⟩ := connect_of_exec hexec
    have hund := (hopen.data ((hkind.data _ htx).inner hsql) hans).2 hx
    rw [connect_eq henv hund.2.1]
    refine ⟨changes_links S w l, hnew, hown, htx, ?_⟩
    rw [links_self]
    exact hund
  | commit =>
    obtain ⟨hnew, hown, -⟩ := h
    obtain ⟨l, hans, rfl⟩ := connect_of_exec hexec
    exact changes_connect henv hnew hown l
  | rollback =>
    obtain ⟨hnew, hown, -, hund⟩ := h
    obtain ⟨l, hans, rfl⟩ := connect_of_exec hexec
    rw [connect_eq henv (hund.rollback hkind.rollback hans).2.1]
    exact ⟨changes_links S w l, hnew, hown⟩
  | clear hkey =>
    exact ⟨changes_clear hkey h.2 h.1 (statement_of_exec (logStatement_clear _) hexec), trivial⟩
  | store hkey =>
    obtain ⟨hchange, howner⟩ := changes_store (statement_of_exec (logStatement_store ..) hexec)
    exact ⟨hchange, fun hkey => (howner _ _).trans (h hkey)⟩

end SpidoNG.Service
