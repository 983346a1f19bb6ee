import SpidoNG.Service.Reads

/-!
# The handlers that write

`POST` on a list and on `/bulk`, `PUT` and `DELETE` (`generator/templates/handler.cpp.j2`).
-/

namespace SpidoNG.Service

open Bytes Pg Response

def pgQuoteText (s : Bytes) : Bytes :=
  39 :: (s.flatMap fun c => if c = 39 then [39, 39] else [c]) ++ [39]

def placeholderIndex (digits : Bytes) : ℕ :=
  digits.foldl (fun n c => (n * 10 + (c.toNat - 48)) % 2 ^ 32) 0

def inlineFrom (params : List PgParam) : (skip : ℕ) → Bytes → Bytes
  | _, [] => []
  | n + 1, _ :: s => inlineFrom params n s
  | 0, c :: s =>
    let digits := s.takeWhile isDigit
    let idx := placeholderIndex digits
    if c = 36 ∧ digits ≠ [] ∧ digits.head? ≠ some 48 ∧ 1 ≤ idx ∧ idx ≤ params.length then
      (match params[idx - 1]? with
        | some p => if p.isNull then str "NULL" else pgQuoteText p.value
        | none => []) ++ inlineFrom params digits.length s
    else c :: inlineFrom params 0 s

def inlineParams (sql : Bytes) (params : List PgParam) : Bytes := inlineFrom params 0 sql

def scanObject : (depth : ℕ) → (inString escape : Bool) → Bytes → Bytes × Bytes × ℕ
  | depth, _, _, [] => ([], [], depth)
  | depth, inString, escape, c :: s =>
    let keep (p : Bytes × Bytes × ℕ) := (c :: p.1, p.2)
    if escape then keep (scanObject depth inString false s)
    else if inString then keep (scanObject depth (c != quote) (c == backslash) s)
    else if c = quote then keep (scanObject depth true false s)
    else if c = openBrace then keep (scanObject (depth + 1) false false s)
    else if c = closeBrace then
      if depth - 1 = 0 then ([c], s, 0) else keep (scanObject (depth - 1) false false s)
    else keep (scanObject depth false false s)

def splitItems : (rounds : ℕ) → Bytes → Option (List Bytes)
  | 0, _ | _, [] => some []
  | n + 1, s =>
    match skipWs s with
    | [] => none
    | c :: s =>
      if c = closeBracket then some []
      else if c ≠ openBrace then none
      else
        let (object, rest, depth) := scanObject 0 false false (c :: s)
        if depth ≠ 0 then none
        else
          let rest := skipWs rest
          let rest := if rest.head? = some comma then rest.tail else rest
          (splitItems n rest).map (object :: ·)

def splitJsonArray (body : Bytes) : List Bytes :=
  match skipWs body with
  | [] => []
  | c :: s => if c = openBracket then (splitItems s.length s).getD [] else []

def placeholders (k n : ℕ) : Bytes :=
  commaSeparated ((List.range n).map fun i => placeholder (k + i + 1))

def insertInto (r : Resource) : Bytes :=
  str "INSERT INTO " ++ r.table ++ str " (" ++ commaSeparated r.columns ++ str ") VALUES "

def insertSql (r : Resource) (n : ℕ) : Bytes :=
  insertInto r ++ str "(" ++ placeholders 0 n ++ str ") RETURNING " ++ r.primaryKey

def tuples (k : ℕ) : List (List PgParam) → List Bytes
  | [] => []
  | row :: rows => (str "(" ++ placeholders k row.length ++ str ")") :: tuples (k + row.length) rows

def bulkSql (r : Resource) (rows : List (List PgParam)) : Bytes :=
  insertInto r ++ commaSeparated (tuples 0 rows)

def unknownTypes (n : ℕ) : List Oid := List.replicate n Oid.unknown

structure UpdatePlan where
  sql : Bytes
  params : List PgParam
  types : List Oid

def setColumns (pk : Bytes) (columns : List Bytes) (body : JsonBody) : List Bytes :=
  columns.filter fun col => col ≠ pk ∧ ((body.get col).isSome ∨ body.isNull col)

def assignments (k : ℕ) (columns : List Bytes) : List Bytes :=
  columns.mapIdx fun i col => col ++ str "=" ++ placeholder (k + i)

def buildUpdate (table pk : Bytes) (columns : List Bytes) (body : JsonBody) (pkValue : Bytes) :
    UpdatePlan :=
  let present := setColumns pk columns body
  { sql := str "UPDATE " ++ table ++ str " SET " ++ commaSeparated (assignments 1 present) ++
      str " WHERE " ++ pk ++ str "=" ++ placeholder (present.length + 1)
    params := jsonToRow body present ++ [pkParam pkValue]
    types := unknownTypes (present.length + 1) }

def UpdatePlan.owned (plan : UpdatePlan) (col owner : Bytes) : UpdatePlan :=
  { sql := plan.sql ++ str " AND " ++ col ++ str " = " ++ placeholder (plan.params.length + 1)
    params := plan.params ++ [.fromText owner]
    types := plan.types ++ [Oid.unknown] }

def Resource.notDeleted (r : Resource) : Bytes :=
  r.softDeleteColumn.elim [] fun col => str " AND " ++ r.qcol col ++ str " IS NULL"

def runHook (name : Bytes) (hook : Option Bytes) (pk user : Bytes) : Action PgResult :=
  match Resource.truthy hook with
  | none => pure {}
  | some sql => execPrepared name sql (unknownTypes 2) [.text pk, .text user]

def runHookIn (hook : Option Bytes) (pk user : Bytes) : Action PgResult :=
  match Resource.truthy hook with
  | none => pure {}
  | some sql => exec (inlineParams sql [.text pk, .text user])

def runAfterHook (table name kind : Bytes) (hook : Option Bytes) (pk user : Bytes) :
    Action Unit := do
  let res ← runHook name hook pk user
  if res.hadError then
    log (kind ++ str " hook failed for " ++ table ++ str ": " ++ res.errorMessage ++ [10])

section

variable (lib : Platform) (auth : AuthConfig) (r : Resource)

def idempotencyKey (req : Request) : Bytes :=
  if r.idempotency.enabled then req.header r.idempotency.header else []

def idemClaimSql : Bytes :=
  str "INSERT INTO " ++ r.idempotency.table ++
    str " (key, endpoint) VALUES ($1, $2) ON CONFLICT (key) DO NOTHING RETURNING key"

def idemFetchSql : Bytes :=
  str "SELECT status, body FROM " ++ r.idempotency.table ++ str " WHERE key = $1"

def idemClearSql : Bytes := str "DELETE FROM " ++ r.idempotency.table ++ str " WHERE key = $1"

def idemStoreSql : Bytes :=
  str "UPDATE " ++ r.idempotency.table ++ str " SET status = $2, body = $3 WHERE key = $1"

def idemClear (key : Bytes) : Action Unit :=
  if key.isEmpty then pure ()
  else do
    let _ ← execPrepared (str "idem_clear_" ++ r.table) (idemClearSql r) (unknownTypes 1)
      [.text key]
    pure ()

def idemStore (key : Bytes) (status : ℤ) (body : Bytes) : Action Unit :=
  if key.isEmpty then pure ()
  else do
    let _ ← execPrepared (str "idem_store_" ++ r.table) (idemStoreSql r)
      [Oid.unknown, 23, Oid.unknown] [.text key, .i4 status, .text body]
    pure ()

def rawJson (status : ℤ) (body : Bytes) : Response :=
  ({ body := body : Response }.header (str "Content-Type")
    (str "application/json")).setStatus status

def idemReplay (key : Bytes) : Handler := do
  let fetch ← execPrepared (str "idem_fetch_" ++ r.table) (idemFetchSql r) (unknownTypes 1)
    [.text key]
  let status := if fetch.hadError then 0 else (fetch.i4 0 0).getD 0
  pure (if 0 < status then rawJson status ((fetch.cell 0 1).getD [])
    else .plain 409 (str "duplicate / in-progress"))

def idemClaim (key : Bytes) (next : Handler) : Handler :=
  if key.isEmpty then next
  else do
    let claim ← execPrepared (str "idem_claim_" ++ r.table) (idemClaimSql r) (unknownTypes 2)
      [.text key, .text (str "POST " ++ r.path)]
    if claim.hadError then pure (sendDbError lib claim)
    else if claim.rows.isEmpty then idemReplay r key
    else next

def overloaded : Response :=
  match r.overloadBehavior with
  | .return429 => .plain 429 (str "too many requests")
  | .return202 => (setStatus {} 202).json lib statusQueued
  | .dropBestEffort => .plain 202 (str "dropped")
  | _ => .plain 503 (str "over budget")

def validationErrors (body : JsonBody) (isCreate : Bool) : List FieldError :=
  r.validate.elim [] fun validate => validate body isCreate

def ownerId (req : Request) (bypass : Bool) : Option Bytes :=
  match r.ownership with
  | none => some []
  | some own =>
    if bypass then some []
    else
      let owner := userId auth own req
      if owner.isEmpty then none else some owner

def ownedRow (bypass : Bool) (owner : Bytes) (body : JsonBody) : List PgParam :=
  let row := jsonToRow body r.columns
  match r.ownership with
  | none => row
  | some own => if bypass then row else row.set (r.columns.idxOf own.column) (.fromText owner)

def hookUser (req : Request) : Bytes := r.ownership.elim [] fun own => userId auth own req

def insertedKey (res : PgResult) : Bytes :=
  match res.i8 0 0 with
  | some n => toString n
  | none => (res.cell 0 0).getD []

def insertedBody (res : PgResult) : Bytes :=
  let key : Option Json := (res.cell 0 0).map fun v => (res.i8 0 0).elim (.string v) .int
  (Json.object ((str "status", .string (str "ok")) ::
    key.toList.map fun v => (r.primaryKey, v))).dump lib

def respond (key : Bytes) (status : ℤ) (body : Bytes) : Handler := do
  idemStore r key status body
  pure (rawJson status body)

def fail (key : Bytes) (err : PgResult) : Handler := do
  idemClear r key
  pure (sendDbError lib err)

def rollback (key : Bytes) (err : PgResult) : Handler := do
  let _ ← exec (str "ROLLBACK")
  fail lib r key err

def insertTransactional (req : Request) (key : Bytes) (row : List PgParam) : Handler := do
  let conn ← checkout
  if !conn then pure (.plain 503 (str "pool exhausted"))
  else
    let b ← exec (str "BEGIN")
    if b.hadError then pure (sendDbError lib b)
    else
      let before ← runHookIn r.hooks.beforeInsert [] (hookUser auth r req)
      if before.hadError then rollback lib r key before
      else
        let res ← exec (inlineParams (insertSql r row.length) row)
        if res.hadError then rollback lib r key res
        else
          let after ← runHookIn r.hooks.afterInsert (insertedKey res) (hookUser auth r req)
          if after.hadError then rollback lib r key after
          else
            let c ← exec (str "COMMIT")
            if c.hadError then pure (sendDbError lib c)
            else
              invalidateTable r.table
              respond r key 201 (insertedBody lib r res)

def insertDirect (req : Request) (key : Bytes) (row : List PgParam) : Handler := do
  let before ← runHook (str "hook_bi_" ++ r.table) r.hooks.beforeInsert [] (hookUser auth r req)
  if before.hadError then fail lib r key before
  else
    let res ← execPrepared (str "ins_" ++ r.table) (insertSql r row.length)
      (unknownTypes row.length) row
    invalidateTable r.table
    if res.hadError then fail lib r key res
    else
      runAfterHook r.table (str "hook_ai_" ++ r.table) (str "after_insert") r.hooks.afterInsert
        (insertedKey res) (hookUser auth r req)
      respond r key 201 (insertedBody lib r res)

def Resource.transactional : Bool :=
  r.hooks.transactional && ((Resource.truthy r.hooks.beforeInsert).isSome ||
    (Resource.truthy r.hooks.afterInsert).isSome)

def insertRow (req : Request) (key : Bytes) (row : List PgParam) : Handler :=
  if r.batched then do
    dbWrite r.path r.table row
    respond r key 202 (str "\x7b\"status\":\"queued\"\x7d")
  else if r.transactional then insertTransactional lib auth r req key row
  else insertDirect lib auth r req key row

def postBody (req : Request) (key : Bytes) : Handler :=
  let bypass := bypassOwn auth r.permissions.create r.permissions.header req
  match JsonBody.parse req.body with
  | none => pure (.plain 400 (str "invalid json"))
  | some body =>
    let errs := validationErrors r body true
    if !errs.isEmpty then pure (sendErrors lib (errs.map FieldError.json))
    else
      match ownerId auth r req bypass with
      | none => pure authRequired
      | some owner => insertRow lib auth r req key (ownedRow r bypass owner body)

def postHandler (req : Request) : Handler :=
  if !roleCheck auth r.permissions.create r.permissions.header req then pure forbidden
  else do
    let acquired ← tryAcquire
    if !acquired then pure (overloaded lib r)
    else
      let key := idempotencyKey r req
      idemClaim lib r key (postBody lib auth r req key)

def bulkRow (bypass : Bool) (owner : Bytes) (i : ℕ) (object : Bytes) : Except Json (List PgParam) :=
  match JsonBody.parse object with
  | none => .error (.object [(str "index", .int i), (str "error", .string (str "invalid json"))])
  | some body =>
    let errs := validationErrors r body true
    if !errs.isEmpty then
      .error (.object [(str "index", .int i), (str "errors", .array (errs.map FieldError.json))])
    else .ok (ownedRow r bypass owner body)

def bulkRows (bypass : Bool) (owner : Bytes) (objects : List Bytes) :
    Except (List Json) (List (List PgParam)) :=
  let results := objects.mapIdx (bulkRow r bypass owner)
  let errs := results.filterMap fun | .error e => some e | .ok _ => none
  if errs.isEmpty then .ok (results.filterMap fun | .error _ => none | .ok row => some row)
  else .error errs

def bulkInsert (rows : List (List PgParam)) : Handler :=
  if r.batched then do
    rows.forM (dbWrite r.path r.table)
    pure ((setStatus {} 202).json lib
      (.object [(str "status", .string (str "queued")), (str "count", .int rows.length)]))
  else do
    let params := rows.flatten
    let res ← execPrepared (str "bulk_ins_" ++ r.table ++ str "_" ++ decimal rows.length)
      (bulkSql r rows) (unknownTypes params.length) params
    invalidateTable r.table
    pure (if res.hadError then sendDbError lib res
      else (setStatus {} 201).json lib
        (.object [(str "status", .string (str "ok")), (str "inserted", .int rows.length)]))

def bulkHandler (req : Request) : Handler :=
  let bypass := bypassOwn auth r.permissions.bulk r.permissions.header req
  let objects := splitJsonArray req.body
  if !roleCheck auth r.permissions.bulk r.permissions.header req then pure forbidden
  else if objects.isEmpty ∧ !req.body.isEmpty then
    pure (.plain 400 (str "expected non-empty JSON array"))
  else if objects.isEmpty then pure (setStatus {} 204)
  else if r.bulk.maxSize < objects.length then pure (.plain 413 (str "too many items"))
  else do
    let acquired ← tryAcquire
    if !acquired then pure (.plain 503 (str "over budget"))
    else
      match ownerId auth r req bypass with
      | none => pure authRequired
      | some owner =>
        match bulkRows r bypass owner objects with
        | .error errs => pure (sendErrors lib errs)
        | .ok rows => bulkInsert lib r rows

def noRows (res : PgResult) : Bool := 7 < res.tag.length && res.tag[7]? == some 48

def updatePlan (bypass : Bool) (owner : Bytes) (body : JsonBody) (id : Bytes) : UpdatePlan :=
  let plan := buildUpdate r.table r.primaryKey r.columns body id
  let plan := match r.ownership with
    | none => plan
    | some own => if bypass then plan else plan.owned (r.qcol own.column) owner
  { plan with sql := plan.sql ++ r.notDeleted }

def update (id owner : Bytes) (plan : UpdatePlan) : Handler := do
  let before ← runHook (str "hook_bu_" ++ r.table) r.hooks.beforeUpdate id owner
  if before.hadError then pure (sendDbError lib before)
  else
    let res ← execPrepared (str "upd_" ++ r.table ++ str "_" ++ decimal plan.params.length)
      plan.sql plan.types plan.params
    invalidateTable r.table
    if res.hadError then pure (sendDbError lib res)
    else if noRows res then pure (.plain 404 (str "not found"))
    else
      runAfterHook r.table (str "hook_au_" ++ r.table) (str "after_update") r.hooks.afterUpdate id
        owner
      pure (json lib {} statusOk)

def putHandler (req : Request) : Handler :=
  let bypass := bypassOwn auth r.permissions.update r.permissions.header req
  let id := req.param (str "id")
  if !roleCheck auth r.permissions.update r.permissions.header req then pure forbidden
  else if id.isEmpty then pure (.plain 400 (str "missing id"))
  else
    match ownerId auth r req bypass with
    | none => pure authRequired
    | some owner =>
      match JsonBody.parse req.body with
      | none => pure (.plain 400 (str "invalid json"))
      | some body =>
        let errs := validationErrors r body false
        if !errs.isEmpty then pure (sendErrors lib (errs.map FieldError.json))
        else if (buildUpdate r.table r.primaryKey r.columns body id).params.length = 1 then
          pure (.plain 400 (str "empty update"))
        else update lib r id owner (updatePlan r bypass owner body id)

def deleteSql : Bytes :=
  match r.softDeleteColumn with
  | some col => str "UPDATE " ++ r.table ++ str " SET " ++ col ++ str " = now() WHERE " ++
      r.qcol r.primaryKey ++ str " = $1 AND " ++ r.qcol col ++ str " IS NULL"
  | none => str "DELETE FROM " ++ r.table ++ str " WHERE " ++ r.qcol r.primaryKey ++ str " = $1"

def deletePlan (bypass : Bool) (owner id : Bytes) : UpdatePlan :=
  let plan : UpdatePlan := ⟨deleteSql r, [pkParam id], unknownTypes 1⟩
  match r.ownership with
  | none => plan
  | some own => if bypass then plan else plan.owned (r.qcol own.column) owner

def delete (id owner : Bytes) (plan : UpdatePlan) : Handler := do
  let before ← runHook (str "hook_bd_" ++ r.table) r.hooks.beforeDelete id owner
  if before.hadError then pure (sendDbError lib before)
  else
    let res ← execPrepared (str "del_" ++ r.table) plan.sql plan.types plan.params
    invalidateTable r.table
    if res.hadError then pure (sendDbError lib res)
    else if noRows res then pure (.plain 404 (str "not found"))
    else
      runAfterHook r.table (str "hook_ad_" ++ r.table) (str "after_delete") r.hooks.afterDelete id
        owner
      pure (setStatus {} 204)

def deleteHandler (req : Request) : Handler :=
  let bypass := bypassOwn auth r.permissions.delete r.permissions.header req
  let id := req.param (str "id")
  if !roleCheck auth r.permissions.delete r.permissions.header req then pure forbidden
  else if id.isEmpty then pure (.plain 400 (str "missing id"))
  else
    match ownerId auth r req bypass with
    | none => pure authRequired
    | some owner => delete lib r id owner (deletePlan r bypass owner id)

end

end SpidoNG.Service
