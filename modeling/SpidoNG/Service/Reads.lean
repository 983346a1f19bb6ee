import SpidoNG.Service.Effects

/-!
# The handlers that read

The handlers of `generator/templates/handler.cpp.j2` for `GET` on a list, on a row, on `/count` and
on `/stats`.
-/

namespace SpidoNG.Service

open Bytes Pg

structure Where where
  conds : List Cond := []
  params : List PgParam := []

namespace Where

def add (w : Where) (c : Cond) : Where := { w with conds := w.conds ++ [c] }

def push (w : Where) (c : ℕ → Cond) (p : PgParam) : Where :=
  ⟨w.conds ++ [c (w.params.length + 1)], w.params ++ [p]⟩

end Where

def filterValue (op : FilterOp) (qv : Bytes) : Bytes :=
  let v := Request.decode true qv
  match op with
  | .contains => str "%" ++ v ++ str "%"
  | .startsWith => v ++ str "%"
  | .endsWith => str "%" ++ v
  | .in | .notIn => openBrace :: (v ++ [closeBrace])
  | _ => v

def applyFilter (query : Bytes) (w : Where) (f : Filter) : Where :=
  if f.op.takesParam then
    let qv := qparam query f.param
    if qv.isEmpty then w else w.push (.compare f.column f.op) (.fromText (filterValue f.op qv))
  else if qparamHas query f.param then w.add (.test f.column f.op)
  else w

def ownWhere (auth : AuthConfig) (r : Resource) (req : Request) (bypass : Bool) (w : Where) :
    Option Where :=
  match r.ownership with
  | none => some w
  | some own =>
    if bypass then some w
    else
      let owner := userId auth own req
      if owner.isEmpty then none else some (w.push (.eq own.column) (.fromText owner))

def softDeleteWhere (r : Resource) (w : Where) : Where :=
  r.softDeleteColumn.elim w fun col => w.add (.isNull col)

def applyWhere (auth : AuthConfig) (r : Resource) (req : Request) (bypass : Bool) : Option Where :=
  (ownWhere auth r req bypass {}).map fun w =>
    r.filters.foldl (applyFilter req.query) (softDeleteWhere r w)

def authRequired : Response := .plain 401 (str "auth required")
def forbidden : Response := .plain 403 (str "forbidden")

section

variable (lib : Platform) (auth : AuthConfig) (r : Resource)

def aggregateSelect (projection : Bytes) (w : Where) : Select :=
  { projection, table := r.table, conds := w.conds }

def aggregate (perms : Option Perms) (projection : Bytes) (req : Request)
    (respond : PgResult → Response) : Handler :=
  if !roleCheck auth perms r.permissions.header req then pure forbidden
  else
    match applyWhere auth r req (bypassOwn auth perms r.permissions.header req) with
    | none => pure authRequired
    | some w => do
      let res ← queryCached (aggregateSelect r projection w) w.params r.cacheTtlS r.table
      pure (if res.hadError then sendDbError lib res else respond res)

def countHandler (req : Request) : Handler :=
  aggregate lib auth r r.permissions.count (str "COUNT(*)") req fun res =>
    Response.json lib {} (.object [(str "count", .int ((res.i8 0 0).getD 0))])

def statsMembers (res : PgResult) (ops : List StatsOp) (j : ℕ) : List (Bytes × Json) :=
  ops.mapIdx fun i op => (op.name, extractValue res 0 (j * ops.length + i))

def statsHandler (stats : Stats) (req : Request) : Handler :=
  aggregate lib auth r r.permissions.stats (r.statsSelect stats) req fun res =>
    Response.json lib {} (.object (stats.columns.mapIdx fun j col =>
      (col, .object (statsMembers res stats.ops j))))

def project (fields : Bytes) : Option Bytes :=
  if fields.isEmpty then some r.selectListBase
  else
    let names := pieces comma fields
    if !names.isEmpty && names.all r.columns.contains then some (Resource.listed (names.map r.qcol))
    else none

def projection (req : Request) : Option Bytes :=
  let base := if r.fieldMasking then project r (qparam req.query (str "fields"))
    else some r.selectListBase
  base.map fun p => p ++ clause (str ", ") r.relationAggs

def joins : List Join := r.autoRelations.map fun rel => ⟨rel.table, rel.fk, r.primaryKey⟩

def orderBy (req : Request) : Option Bytes :=
  if r.pagination.mode = .cursor then some (r.qcol r.primaryKey ++ str " ASC")
  else if r.sort.allowed.isEmpty then some r.sortDefaultSql
  else
    let sv := qparam req.query (str "sort")
    if sv.isEmpty then some r.sortDefaultSql
    else
      let field := bareSort sv
      if (r.sort.allowed.map bareSort).contains field then
        some (r.qcol field ++ (if sv.head? = some 45 then str " DESC" else str " ASC"))
      else none

def int32 (n : ℤ) : ℤ := Int.bmod n (2 ^ 32)

def pageNumber (v : Bytes) : ℤ :=
  if v.all fun c => 48 ≤ c && c ≤ 57 then
    v.foldl (fun n c => int32 (n * 10 + (c.toNat - 48 : ℤ))) 0
  else 0

def pageSize (req : Request) : ℤ :=
  let max := if r.pagination.mode = .cursor then r.pagination.max else int32 r.pagination.max
  let n := pageNumber (qparam req.query (str "page_size"))
  if 0 < n then int32 (if max < n then max else n) else int32 r.pagination.default

def page (req : Request) : ℤ :=
  let n := pageNumber (qparam req.query (str "page"))
  if 0 < n then n else 1

def cursorWhere (req : Request) (w : Where) : Where :=
  let cursor := qparam req.query (str "cursor")
  if r.pagination.mode = .cursor ∧ !cursor.isEmpty then
    w.push (.after r.primaryKey) (.fromText (Request.decode true cursor))
  else w

def totalColumn : Bytes :=
  if r.pagination.includeTotal then str ", COUNT(*) OVER () AS _spido_total" else []

def listSelect (req : Request) (proj order : Bytes) (w : Where) : Select × List PgParam :=
  let w := cursorWhere r req w
  let q : Select :=
    { projection := proj ++ totalColumn r
      table := r.table
      joins := joins r
      conds := w.conds
      groupBy := r.groupByClause
      orderBy := order
      limit := some (w.params.length + 1) }
  let limit := PgParam.fromText (toString (pageSize r req))
  if r.pagination.mode = .cursor then (q, w.params ++ [limit])
  else
    ({ q with offset := some (w.params.length + 2) },
      w.params ++ [limit, .fromText (toString (int32 ((page req - 1) * pageSize r req)))])

def splitTotal (res : PgResult) : ℕ × ℤ :=
  if r.pagination.includeTotal then
    (res.fields.length - 1,
      if res.fields.isEmpty then 0 else (res.i8 0 (res.fields.length - 1)).getD 0)
  else (res.fields.length, 0)

def nextCursor (res : PgResult) (ncols : ℕ) : Bytes :=
  match ((List.range ncols).find? fun c => nameOf res c == r.primaryKey) with
  | none => []
  | some c =>
    match res.i8 (res.rows.length - 1) c with
    | some v => toString v
    | none => (res.cell (res.rows.length - 1) c).getD []

def listBody (req : Request) (res : PgResult) : Bytes :=
  let (ncols, total) := splitTotal r res
  let size := pageSize r req
  if r.pagination.mode = .cursor then
    let next := nextCursor r res ncols
    str "\x7b\"data\":" ++ resultToJsonString lib res ncols ++
      str ",\"meta\":\x7b\"next_cursor\":" ++
      (if next.isEmpty ∨ res.rows.length < (size % 2 ^ 64).toNat then str "null"
        else str "\"" ++ next ++ str "\"") ++
      str ",\"page_size\":" ++ toString size ++
      (if r.pagination.includeTotal then str ",\"total\":" ++ toString total else []) ++
      str "\x7d\x7d"
  else if r.pagination.includeTotal then
    str "\x7b\"data\":" ++ resultToJsonString lib res ncols ++ str ",\"meta\":\x7b\"total\":" ++
      toString total ++ str ",\"page\":" ++ toString (page req) ++ str ",\"page_size\":" ++
      toString size ++ str ",\"has_next\":" ++
      (if page req * size < total then str "true" else str "false") ++ str "\x7d\x7d"
  else if r.relations.isEmpty then (resultToJson res).dump lib
  else resultToJsonString lib res res.fields.length

def listHandler (req : Request) : Handler :=
  if !roleCheck auth r.permissions.list r.permissions.header req then pure forbidden
  else
    match projection r req with
    | none => pure (.plain 400 (str "invalid fields"))
    | some proj =>
      match applyWhere auth r req
        (bypassOwn auth r.permissions.list r.permissions.header req) with
      | none => pure authRequired
      | some w =>
        match orderBy r req with
        | none => pure (.plain 400 (str "invalid sort field"))
        | some order => do
          let (q, params) := listSelect r req proj order w
          let res ← queryCached q params r.cacheTtlS r.table
          pure (if res.hadError then sendDbError lib res
            else sendWithEtag req (listBody lib r req res) r.etag)

def entitySelect : Select :=
  { projection := commaSeparated r.columns, table := r.table, conds := [.key r.primaryKey 1] }

def rowProjection (req : Request) : Option Bytes :=
  if r.fieldMasking then projection r req else some r.selectList

def rowSelect (proj : Bytes) (w : Where) : Select :=
  { projection := proj, table := r.table, joins := joins r, conds := w.conds
    groupBy := r.groupByClause }

def rowBody (res : PgResult) : Bytes :=
  if r.relations.isEmpty then (resultToJsonObject res).dump lib else singleRowToJsonString lib res 0

def entityResponse : Option Bytes → Response
  | none => .plain 404 (str "not found")
  | some data => Response.text {} data

def getFromRam (tableId : ℕ) (id : Bytes) : Handler := do
  let row ← getEntity tableId id (entitySelect r) [pkParam id]
  pure (entityResponse row)

def getFromTable (req : Request) (w : Where) : Handler :=
  match rowProjection r req with
  | none => pure (.plain 400 (str "invalid fields"))
  | some proj => do
    let w := softDeleteWhere r w
    let res ← queryCached (rowSelect r proj w) w.params r.cacheTtlS r.table
    pure (if res.hadError then sendDbError lib res
      else if res.rows.isEmpty then .plain 404 (str "not found")
      else sendWithEtag req (rowBody lib r res) r.etag)

def getHandler (tableId : ℕ) (req : Request) : Handler :=
  let bypass := bypassOwn auth r.permissions.get r.permissions.header req
  let id := req.param (str "id")
  if !roleCheck auth r.permissions.get r.permissions.header req then pure forbidden
  else if id.isEmpty then pure (.plain 400 (str "missing id"))
  else
    match ownWhere auth r req bypass ({ : Where }.push (.eq r.primaryKey) (pkParam id)) with
    | none => pure authRequired
    | some w =>
      if r.readMode = .ramEntityFirst then getFromRam r tableId id else getFromTable lib r req w

end

end SpidoNG.Service
