import SpidoNG.Service.Server

/-!
# The calls of the handlers

`Incoming.Calls x op` says everything that the handler of a request `x` may call.
-/

namespace SpidoNG.Service

open Bytes Pg Prog List Always Incoming

inductive Statement
  | idemClaim
  | idemFetch
  | idemClear
  | idemStore
  | beforeInsert
  | afterInsert
  | beforeUpdate
  | afterUpdate
  | beforeDelete
  | afterDelete
  | insert
  | bulkInsert
  | update
  | delete
  deriving DecidableEq

namespace Statement

def tag : Statement → Bytes
  | .idemClaim => str "idem_claim_"
  | .idemFetch => str "idem_fetch_"
  | .idemClear => str "idem_clear_"
  | .idemStore => str "idem_store_"
  | .beforeInsert => str "hook_bi_"
  | .afterInsert => str "hook_ai_"
  | .beforeUpdate => str "hook_bu_"
  | .afterUpdate => str "hook_au_"
  | .beforeDelete => str "hook_bd_"
  | .afterDelete => str "hook_ad_"
  | .insert => str "ins_"
  | .bulkInsert => str "bulk_ins_"
  | .update => str "upd_"
  | .delete => str "del_"

def numbered : Statement → Bool
  | .bulkInsert | .update => true
  | _ => false

def name (s : Statement) (table : Bytes) (n : ℕ) : Bytes :=
  s.tag ++ table ++ (if s.numbered then str "_" ++ decimal n else [])

end Statement

def updateSql (r : Resource) (restricted : Bool) (columns : List Bytes) : Bytes :=
  str "UPDATE " ++ r.table ++ str " SET " ++ commaSeparated (assignments 1 columns) ++
    (str " WHERE " ++ r.primaryKey ++ str "=" ++ placeholder (columns.length + 1) ++
      ownClause r restricted (columns.length + 2) ++ r.notDeleted)
where
  ownClause (r : Resource) (restricted : Bool) (k : ℕ) : Bytes :=
    if restricted then
      r.ownership.elim [] fun own => str " AND " ++ r.qcol own.column ++ str " = " ++ placeholder k
    else []

def blankRow (r : Resource) : List PgParam := replicate r.columns.length .null

def Statement.sql (r : Resource) (restricted : Bool) (columns : List Bytes) (n : ℕ) :
    Statement → Bytes
  | .idemClaim => idemClaimSql r
  | .idemFetch => idemFetchSql r
  | .idemClear => idemClearSql r
  | .idemStore => idemStoreSql r
  | .beforeInsert => r.hooks.beforeInsert.getD []
  | .afterInsert => r.hooks.afterInsert.getD []
  | .beforeUpdate => r.hooks.beforeUpdate.getD []
  | .afterUpdate => r.hooks.afterUpdate.getD []
  | .beforeDelete => r.hooks.beforeDelete.getD []
  | .afterDelete => r.hooks.afterDelete.getD []
  | .insert => insertSql r r.columns.length
  | .bulkInsert => bulkSql r (replicate n (blankRow r))
  | .update => updateSql r restricted columns
  | .delete => deleteSql r ++ updateSql.ownClause r restricted 2

namespace Incoming

variable {cfg : Config} (x : Incoming cfg)

def setColumns : List Bytes :=
  (JsonBody.parse x.request.body).elim []
    (Service.setColumns x.resource.primaryKey x.resource.columns)

def Admitted : Prop :=
  x.permitted = true ∧ x.request.param (str "id") ≠ [] ∧
    ownerId cfg.auth x.resource x.request x.bypass ≠ none

def Updates : Prop :=
  x.endpoint = .update ∧ x.Admitted ∧ x.setColumns ≠ [] ∧
    ∀ body, JsonBody.parse x.request.body = some body → validationErrors x.resource body false = []

def Deletes : Prop := x.endpoint = .delete ∧ x.Admitted

def updateParams : ℕ := x.setColumns.length + 1 + (if x.restricted then 1 else 0)

def Runs (n : ℕ) : Statement → Prop
  | .update => x.Updates ∧ n = x.updateParams
  | .delete => x.Deletes
  | _ => True

def Calls : Op → Prop
  | .execPrepared name sql _ _ => ∃ s n, x.Runs n s ∧ name = s.name x.resource.table n ∧
      sql = s.sql x.resource x.restricted x.setColumns n
  | .walAppend _ => False
  | _ => True

end Incoming

section Helpers

variable {cfg : Config} {x : Incoming cfg}
  {sql pk user : Bytes} {params : List PgParam} {types : List Oid} {α : Type}
  {f : PgResult → Action α}

lemma calls_plain (s : Statement) (hs : s.numbered = false) (hr : x.Runs 0 s)
    (hsql : sql = s.sql x.resource x.restricted x.setColumns 0)
    (hf : ∀ res, (f res).Always x.Calls) :
    (execPrepared (s.tag ++ x.resource.table) sql types params >>= f).Always x.Calls :=
  perform_bind ⟨s, 0, hr, by simp [Statement.name, hs], hsql⟩ hf

lemma calls_numbered (s : Statement) (n : ℕ) (hs : s.numbered) (hr : x.Runs n s)
    (hsql : sql = s.sql x.resource x.restricted x.setColumns n)
    (hf : ∀ res, (f res).Always x.Calls) :
    (execPrepared (s.tag ++ x.resource.table ++ str "_" ++ decimal n) sql types params >>=
      f).Always x.Calls := perform_bind ⟨s, n, hr, by simp [Statement.name, hs], hsql⟩ hf

lemma calls_idemClear (key : Bytes) : (idemClear x.resource key).Always x.Calls := by
  unfold idemClear
  split_ifs
  · trivial
  · exact calls_plain .idemClear rfl trivial rfl fun _ => trivial

lemma calls_idemStore (key : Bytes) (status : ℤ) (body : Bytes) :
    (idemStore x.resource key status body).Always x.Calls := by
  unfold idemStore
  split_ifs
  · trivial
  · exact calls_plain .idemStore rfl trivial rfl fun _ => trivial

lemma calls_idemReplay (key : Bytes) : (idemReplay x.resource key).Always x.Calls :=
  calls_plain .idemFetch rfl trivial rfl fun _ => trivial

lemma calls_idemClaim (lib : Platform) (key : Bytes) {next : Handler} (hn : next.Always x.Calls) :
    (idemClaim lib x.resource key next).Always x.Calls := by
  unfold idemClaim
  split_ifs
  · exact hn
  · refine calls_plain .idemClaim rfl trivial rfl fun claim => ?_
    split_ifs
    · trivial
    · exact calls_idemReplay key
    · exact hn

variable {hook : Option Bytes}

lemma calls_runHook (s : Statement) (hs : s.numbered = false) (hr : x.Runs 0 s)
    (hsql : hook.getD [] = s.sql x.resource x.restricted x.setColumns 0) :
    (runHook (s.tag ++ x.resource.table) hook pk user).Always x.Calls := by
  unfold runHook Resource.truthy
  split
  · trivial
  · next sql h =>
    obtain ⟨rfl, -⟩ := Option.filter_eq_some_iff.1 h
    exact perform ⟨s, 0, hr, by simp [Statement.name, hs], hsql⟩

lemma calls_runHookIn (hook : Option Bytes) (pk user : Bytes) :
    (runHookIn hook pk user).Always x.Calls := by
  unfold runHookIn
  split
  · trivial
  · exact perform trivial

lemma calls_runAfterHook (s : Statement) {kind : Bytes} (hs : s.numbered = false) (hr : x.Runs 0 s)
    (hsql : hook.getD [] = s.sql x.resource x.restricted x.setColumns 0) :
    (runAfterHook x.resource.table (s.tag ++ x.resource.table) kind hook pk user).Always
      x.Calls := by
  refine (calls_runHook s hs hr hsql).bind fun res => ?_
  split_ifs
  · exact perform trivial
  · trivial

lemma calls_dbWrite (endpoint table : Bytes) (row : List PgParam) :
    (dbWrite endpoint table row).Always x.Calls := perform_bind trivial fun _ => perform trivial

lemma calls_respond (key : Bytes) (status : ℤ) (body : Bytes) :
    (respond x.resource key status body).Always x.Calls :=
  (calls_idemStore key status body).bind fun _ => trivial

lemma calls_fail (lib : Platform) (key : Bytes) (err : PgResult) :
    (fail lib x.resource key err).Always x.Calls := (calls_idemClear key).bind fun _ => trivial

lemma calls_rollback (lib : Platform) (key : Bytes) (err : PgResult) :
    (rollback lib x.resource key err).Always x.Calls :=
  perform_bind trivial fun _ => calls_fail lib key err

end Helpers

section Insert

variable {cfg : Config} {x : Incoming cfg} (lib : Platform)

lemma calls_insertTransactional (req : Request) (key : Bytes) (row : List PgParam) :
    (insertTransactional lib cfg.auth x.resource req key row).Always x.Calls := by
  -- the statements of a transaction go to the checked-out connection as text, without a name
  refine perform_bind trivial fun conn => ?_
  split_ifs
  · trivial
  refine perform_bind trivial fun b => ?_
  split_ifs
  · trivial
  refine (calls_runHookIn _ _ _).bind fun before => ?_
  split_ifs
  · exact calls_rollback lib key before
  refine perform_bind trivial fun res => ?_
  split_ifs
  · exact calls_rollback lib key res
  refine (calls_runHookIn _ _ _).bind fun after => ?_
  split_ifs
  · exact calls_rollback lib key after
  refine perform_bind trivial fun c => ?_
  split_ifs
  · trivial
  exact perform_bind trivial fun _ => calls_respond key 201 _

variable {row : List PgParam} {rows : List (List PgParam)}

lemma calls_insertDirect (req : Request) (key : Bytes)
    (hrow : row.length = x.resource.columns.length) :
    (insertDirect lib cfg.auth x.resource req key row).Always x.Calls := by
  refine (calls_runHook .beforeInsert rfl trivial rfl).bind fun before => ?_
  split_ifs
  · exact calls_fail lib key before
  refine calls_plain .insert rfl trivial (by rw [hrow]; rfl) fun res => ?_
  refine perform_bind trivial fun _ => ?_
  split_ifs
  · exact calls_fail lib key res
  exact (calls_runAfterHook .afterInsert rfl trivial rfl).bind fun _ => calls_respond key 201 _

lemma calls_insertRow (req : Request) (key : Bytes)
    (hrow : row.length = x.resource.columns.length) :
    (insertRow lib cfg.auth x.resource req key row).Always x.Calls := by
  unfold insertRow
  split_ifs
  · exact (calls_dbWrite _ _ _).bind fun _ => calls_respond key 202 _
  · exact calls_insertTransactional lib req key row
  · exact calls_insertDirect lib req key hrow

lemma length_ownedRow (r : Resource) (bypass : Bool) (owner : Bytes) (body : JsonBody) :
    (ownedRow r bypass owner body).length = r.columns.length := by
  unfold ownedRow jsonToRow
  cases r.ownership with
  | none => simp
  | some => cases bypass <;> simp

lemma calls_postHandler (req : Request) :
    (postHandler lib cfg.auth x.resource req).Always x.Calls := by
  unfold postHandler
  split_ifs
  · trivial
  refine perform_bind trivial fun acquired => ?_
  split_ifs
  · trivial
  refine calls_idemClaim lib _ ?_
  unfold postBody
  dsimp only
  split
  · trivial
  split_ifs
  · trivial
  split
  · trivial
  · exact calls_insertRow lib req _ (length_ownedRow _ _ _ _)

lemma tuples_congr {rows' : List (List PgParam)} (k : ℕ)
    (h : rows.map List.length = rows'.map List.length) : tuples k rows = tuples k rows' := by
  induction rows generalizing rows' k with
  | nil =>
    rw [map_eq_nil_iff.1 h.symm]
  | cons _ _ ih =>
    obtain ⟨row', rows'', rfl, hrow, hrows⟩ := map_eq_cons_iff.1 h.symm
    simp only [tuples]
    rw [hrow, ih _ hrows.symm]

lemma length_of_bulkRow {r : Resource} {bypass : Bool} {owner object : Bytes} {i : ℕ}
    (h : bulkRow r bypass owner i object = .ok row) : row.length = r.columns.length := by
  unfold bulkRow at h
  split at h
  · cases h
  · dsimp only at h
    split_ifs at h
    cases h
    exact length_ownedRow _ _ _ _

lemma length_of_mem_bulkRows {r : Resource} {bypass : Bool} {owner : Bytes} {objects : List Bytes}
    (h : bulkRows r bypass owner objects = .ok rows) :
    ∀ row ∈ rows, row.length = r.columns.length := by
  unfold bulkRows at h
  dsimp only at h
  split_ifs at h
  cases h
  intro row hrow
  obtain ⟨res, hres, hsome⟩ := mem_filterMap.1 hrow
  obtain ⟨i, hi, rfl⟩ := mem_mapIdx.1 hres
  split at hsome
  · cases hsome
  · next row' hrow' =>
    cases hsome
    exact length_of_bulkRow hrow'

lemma calls_bulkInsert (hrows : ∀ row ∈ rows, row.length = x.resource.columns.length) :
    (bulkInsert lib x.resource rows).Always x.Calls := by
  unfold bulkInsert
  split_ifs
  · refine bind ?_ fun _ => trivial
    exact always_forM _ fun row _ => calls_dbWrite _ _ row
  · refine calls_numbered .bulkInsert rows.length rfl trivial ?_ fun res => ?_
    · -- the text is that of as many blank rows
      have hlen : rows.map List.length =
          (replicate rows.length (blankRow x.resource)).map List.length := by
        rw [map_replicate, blankRow, length_replicate]
        exact eq_replicate_iff.2 ⟨by simp, by simpa using hrows⟩
      simp only [Statement.sql, bulkSql, tuples_congr 0 hlen]
    · exact perform_bind trivial fun _ => trivial

lemma calls_bulkHandler (req : Request) :
    (bulkHandler lib cfg.auth x.resource req).Always x.Calls := by
  unfold bulkHandler
  dsimp only
  split_ifs
  · trivial
  · trivial
  · trivial
  · trivial
  refine perform_bind trivial fun acquired => ?_
  split_ifs
  · trivial
  split
  · trivial
  split
  · trivial
  · next rows h => exact calls_bulkInsert lib (length_of_mem_bulkRows h)

end Insert

section Update

variable {cfg : Config} {x : Incoming cfg} (lib : Platform)

lemma ownClause_eq (r : Resource) (bypass : Bool) (k : ℕ) :
    updateSql.ownClause r (r.ownership.isSome && !bypass) k =
      r.ownership.elim [] fun own =>
        if bypass then [] else str " AND " ++ r.qcol own.column ++ str " = " ++ placeholder k := by
  unfold updateSql.ownClause
  cases r.ownership with
  | none => rfl
  | some => cases bypass <;> rfl

@[simp] lemma length_buildUpdate_params (table pk : Bytes) (columns : List Bytes) (body : JsonBody)
    (id : Bytes) : (buildUpdate table pk columns body id).params.length =
      (setColumns pk columns body).length + 1 := by
  simp [buildUpdate, jsonToRow]

lemma updatePlan_sql (r : Resource) (bypass : Bool) (owner : Bytes) (body : JsonBody) (id : Bytes) :
    (updatePlan r bypass owner body id).sql =
      updateSql r (r.ownership.isSome && !bypass) (setColumns r.primaryKey r.columns body) := by
  unfold updatePlan updateSql
  rw [ownClause_eq]
  cases r.ownership with
  | none => simp [buildUpdate]
  | some => cases bypass <;> simp [UpdatePlan.owned, buildUpdate, jsonToRow]

lemma length_updatePlan_params (r : Resource) (bypass : Bool) (owner : Bytes) (body : JsonBody)
    (id : Bytes) : (updatePlan r bypass owner body id).params.length =
      (setColumns r.primaryKey r.columns body).length + 1 +
        (if (r.ownership.isSome && !bypass) then 1 else 0) := by
  unfold updatePlan
  cases r.ownership with
  | none => simp
  | some => cases bypass <;> simp [UpdatePlan.owned]

lemma deletePlan_sql (r : Resource) (bypass : Bool) (owner id : Bytes) :
    (deletePlan r bypass owner id).sql =
      deleteSql r ++ updateSql.ownClause r (r.ownership.isSome && !bypass) 2 := by
  unfold deletePlan
  rw [ownClause_eq]
  cases r.ownership with
  | none => simp
  | some => cases bypass <;> simp [UpdatePlan.owned]

lemma calls_update (hx : x.Updates) (id owner : Bytes) {plan : UpdatePlan}
    (hsql : plan.sql = updateSql x.resource x.restricted x.setColumns)
    (hparams : plan.params.length = x.updateParams) :
    (update lib x.resource id owner plan).Always x.Calls := by
  refine (calls_runHook .beforeUpdate rfl trivial rfl).bind fun before => ?_
  split_ifs
  · trivial
  refine calls_numbered .update plan.params.length rfl ⟨hx, hparams⟩ hsql fun res => ?_
  refine perform_bind trivial fun _ => ?_
  split_ifs
  · trivial
  · trivial
  exact (calls_runAfterHook .afterUpdate rfl trivial rfl).bind fun _ => trivial

lemma calls_delete (hx : x.Deletes) (id owner : Bytes) {plan : UpdatePlan}
    (hsql : plan.sql = deleteSql x.resource ++ updateSql.ownClause x.resource x.restricted 2) :
    (delete lib x.resource id owner plan).Always x.Calls := by
  refine (calls_runHook .beforeDelete rfl trivial rfl).bind fun before => ?_
  split_ifs
  · trivial
  refine calls_plain .delete rfl hx hsql fun res => ?_
  refine perform_bind trivial fun _ => ?_
  split_ifs
  · trivial
  · trivial
  exact (calls_runAfterHook .afterDelete rfl trivial rfl).bind fun _ => trivial

lemma putHandler_cases (hep : x.endpoint = .update) :
    (¬ x.Updates ∧ ∃ res, x.handler lib = pure res) ∨
      (x.Updates ∧ ∃ id owner plan, x.handler lib = update lib x.resource id owner plan ∧
        plan.sql = updateSql x.resource x.restricted x.setColumns ∧
        plan.params.length = x.updateParams) := by
  have hhandler : x.handler lib = putHandler lib cfg.auth x.resource x.request := by
    rw [Incoming.handler, hep]; rfl
  have hperm : x.permitted = roleCheck cfg.auth x.resource.permissions.update
      x.resource.permissions.header x.request := by rw [permitted, hep]; rfl
  have hbypass : x.bypass = bypassOwn cfg.auth x.resource.permissions.update
      x.resource.permissions.header x.request := by rw [bypass, hep]; rfl
  rw [hhandler]
  unfold putHandler
  dsimp only
  rw [← hperm, ← hbypass]
  -- each early response is one of the conditions of `Updates` failing
  split_ifs with hp hid
  · exact .inl ⟨fun h => by simp [h.2.1.1] at hp, _, rfl⟩
  · exact .inl ⟨fun h => h.2.1.2.1 (by simpa using hid), _, rfl⟩
  split
  · next hown => exact .inl ⟨fun h => h.2.1.2.2 hown, _, rfl⟩
  next owner hown =>
  split
  · next hbody => exact .inl ⟨fun h => h.2.2.1 (by simp [Incoming.setColumns, hbody]), _, rfl⟩
  next body hbody =>
  have hcols : x.setColumns = setColumns x.resource.primaryKey x.resource.columns body := by
    rw [Incoming.setColumns, hbody]; rfl
  split_ifs with herrs hlen
  · exact .inl ⟨fun h => by simp [h.2.2.2 body hbody] at herrs, _, rfl⟩
  · exact .inl ⟨fun h => h.2.2.1 (by simpa [hcols] using hlen), _, rfl⟩
  refine .inr ⟨⟨hep, ⟨by simpa using hp, by simpa using hid, by simp [hown]⟩, ?_, ?_⟩,
    _, owner, _, rfl, ?_, ?_⟩
  · rw [hcols]
    rintro hnil
    simp [hnil] at hlen
  · intro body' hbody'
    obtain rfl : body = body' := by simpa [hbody] using hbody'
    simpa using herrs
  · rw [updatePlan_sql, hcols]; rfl
  · rw [length_updatePlan_params, updateParams, hcols]; rfl

lemma deleteHandler_cases (hep : x.endpoint = .delete) :
    (¬ x.Deletes ∧ ∃ res, x.handler lib = pure res) ∨
      (x.Deletes ∧ ∃ id owner plan, x.handler lib = delete lib x.resource id owner plan ∧
        plan.sql = deleteSql x.resource ++ updateSql.ownClause x.resource x.restricted 2) := by
  have hhandler : x.handler lib = deleteHandler lib cfg.auth x.resource x.request := by
    rw [Incoming.handler, hep]; rfl
  have hperm : x.permitted = roleCheck cfg.auth x.resource.permissions.delete
      x.resource.permissions.header x.request := by rw [permitted, hep]; rfl
  have hbypass : x.bypass = bypassOwn cfg.auth x.resource.permissions.delete
      x.resource.permissions.header x.request := by rw [bypass, hep]; rfl
  rw [hhandler]
  unfold deleteHandler
  dsimp only
  rw [← hperm, ← hbypass]
  -- each early response is one of the conditions of `Deletes` failing
  split_ifs with hp hid
  · exact .inl ⟨fun h => by simp [h.2.1] at hp, _, rfl⟩
  · exact .inl ⟨fun h => h.2.2.1 (by simpa using hid), _, rfl⟩
  split
  · next hown => exact .inl ⟨fun h => h.2.2.2 hown, _, rfl⟩
  next owner hown =>
  refine .inr ⟨⟨hep, by simpa using hp, by simpa using hid, by simp [hown]⟩,
    _, owner, _, rfl, ?_⟩
  rw [deletePlan_sql]; rfl

end Update

section Read

variable {cfg : Config} {x : Incoming cfg} (lib : Platform) (auth : AuthConfig) (r : Resource)
  (req : Request)

lemma calls_aggregate (perms : Option Perms) (projection : Bytes) (respond : PgResult → Response) :
    (aggregate lib auth r perms projection req respond).Always x.Calls := by
  unfold aggregate
  split_ifs
  · trivial
  split
  · trivial
  · exact perform_bind trivial fun _ => trivial

lemma calls_listHandler : (listHandler lib auth r req).Always x.Calls := by
  unfold listHandler
  split_ifs
  · trivial
  split
  · trivial
  split
  · trivial
  split
  · trivial
  · exact perform_bind trivial fun _ => trivial

lemma calls_getHandler (tableId : ℕ) : (getHandler lib auth r tableId req).Always x.Calls := by
  unfold getHandler
  dsimp only
  split
  · trivial
  split
  · trivial
  split
  · trivial
  split
  · exact perform_bind trivial fun _ => trivial
  · unfold getFromTable
    split
    · trivial
    · exact perform_bind trivial fun _ => trivial

end Read

lemma calls_handler {cfg : Config} (lib : Platform) (x : Incoming cfg) :
    (x.handler lib).Always x.Calls := by
  cases hep : x.endpoint with
  | update =>
    rcases putHandler_cases lib hep with ⟨-, res, h⟩ | ⟨hx, id, owner, plan, h, hsql, hparams⟩
    · rw [h]; trivial
    · rw [h]; exact calls_update lib hx id owner hsql hparams
  | delete =>
    rcases deleteHandler_cases lib hep with ⟨-, res, h⟩ | ⟨hx, id, owner, plan, h, hsql⟩
    · rw [h]; trivial
    · rw [h]; exact calls_delete lib hx id owner hsql
  | list => rw [Incoming.handler, hep]; exact calls_listHandler lib _ _ _
  | get => rw [Incoming.handler, hep]; exact calls_getHandler lib _ _ _ _
  | count => rw [Incoming.handler, hep]; exact calls_aggregate lib _ _ _ _ _ _
  | stats =>
    rw [Incoming.handler, hep]
    unfold handler
    dsimp only
    split
    · trivial
    · exact calls_aggregate lib _ _ _ _ _ _
  | create => rw [Incoming.handler, hep]; exact calls_postHandler lib _
  | bulk => rw [Incoming.handler, hep]; exact calls_bulkHandler lib _

end SpidoNG.Service
