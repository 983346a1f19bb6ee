import SpidoNG.Batch.System
import SpidoNG.Cache.Reach
import SpidoNG.Lib.Jobs
import SpidoNG.Service.Store

/-!
# The database layer and its threads

`Db` (`spido-pg/src/db.cpp`) puts the query cache and the batch writer before a pool of connections
to PostgreSQL.
-/

namespace SpidoNG.Db

open Bytes Pg Cache Batch Threads

/-- PostgreSQL: the answers and effects of statements. -/
structure Server (G : Type) where
  answer : G → Bytes → List PgParam → PgResult
  apply : G → Bytes → List PgParam → G

structure Answer where
  asOf : ℕ
  result : PgResult

structure Digest where
  hex : Bytes → Bytes
  length_hex : ∀ bs, (hex bs).length = 64

structure DbConfig where
  cache : CacheConfig Answer
  defaultTtl : ℕ
  tables : List (Bytes × BatchTableConfig)
  dlqSuffix : Bytes
  digest : Digest

def DbConfig.cacheKey (cfg : DbConfig) (sql : Bytes) (params : List PgParam) : Bytes :=
  cfg.digest.hex (Service.cacheKeyText sql params)

def DbConfig.ttlOf (cfg : DbConfig) (ttl : ℕ) : ℕ := if ttl = 0 then cfg.defaultTtl else ttl

structure Item where
  ticket : ℕ
  row : Row
  deriving DecidableEq

structure TableState where
  queue : List Item
  dynBatchSize : ℕ
  flushRequest : Bool
  stop : Bool

structure Settlement where
  ticket : ℕ
  table : Bytes
  time : ℕ
  deriving DecidableEq

/-- The batch of drained rows, the rows that coalescing keeps of it, and their statement. -/
structure Sending where
  tickets : List ℕ
  kept : List ℕ
  insert : Insert

/-- `inFlight` has the rows of the batches that are drained and still to be sent. A row is settled
when its batch has been executed or has gone to the dead letters, and sent if it was in the
statement then. -/
structure DbState (G : Type) where
  pg : G
  tables : Bytes → Option TableState
  inFlight : Bytes → List ℕ
  settled : List Settlement
  sent : List (Bytes × ℕ)

variable {G : Type}

def DbConfig.initial (cfg : DbConfig) (pg : G) : DbState G where
  pg := pg
  tables table := (cfg.tables.lookup table).map fun c => ⟨[], c.batchSize, false, false⟩
  inFlight _ := []
  settled := []
  sent := []

namespace DbState

def setTable (y : DbState G) (table : Bytes) (ts : TableState) : DbState G :=
  { y with tables := Function.update y.tables table (some ts) }

def settle (y : DbState G) (time : ℕ) (table : Bytes) (b : Sending) : DbState G :=
  { y with
    inFlight := Function.update y.inFlight table ((y.inFlight table).filter (· ∉ b.tickets))
    settled :=
      ((y.inFlight table).filter (· ∈ b.tickets)).map (fun n => ⟨n, table, time⟩) ++ y.settled
    sent := b.kept.map (fun n => (table, n)) ++ y.sent }

def stopAll (y : DbState G) : DbState G :=
  { y with tables := fun table => (y.tables table).map (fun ts => { ts with stop := true }) }

end DbState

inductive DbOp
  | query (sql : Bytes) (params : List PgParam)
  | commit (sql : Bytes) (params : List PgParam)
  | enqueue (table : Bytes) (row : Row)
  | requestFlush (table : Bytes)
  | awaitDrained (table : Bytes)
  | drain (table : Bytes)
  | execBatch (table : Bytes) (b : Sending)
  | deadLetter (table : Bytes) (b : Sending) (error : PgResult)
  | retune (table : Bytes) (size : ℕ)
  | stop

@[reducible] def DbOp.Res : DbOp → Type
  | query _ _ => Answer
  | commit _ _ => Option ℕ
  | enqueue _ _ => Option ℕ
  | drain _ => List Item
  | execBatch _ _ => PgResult
  | _ => Unit

def Server.reply (S : Server G) (ok : Bool) (pg : G) (sql : Bytes) (params : List PgParam) :
    PgResult :=
  if ok then S.answer pg sql params else .error []

def dlqSql (table dlqSuffix : Bytes) : Bytes :=
  str "INSERT INTO " ++ table ++ dlqSuffix ++ str " (payload) VALUES ($1)"

def exec (S : Server G) (cfg : DbConfig) (time : ℕ) (ok : Bool) :
    (x : DbOp) → DbState G → Option (x.Res × DbState G)
  | .query sql params, y => some (⟨time, S.reply ok y.pg sql params⟩, y)
  | .commit sql params, y =>
    if (S.reply ok y.pg sql params).ok then
      some (some time, { y with pg := S.apply y.pg sql params })
    else some (none, y)
  | .enqueue table row, y =>
    match y.tables table with
    | none => some (none, y)
    | some ts =>
      let queue := ts.queue ++ [⟨time, row⟩]
      some (some time, y.setTable table
        { ts with queue, flushRequest := ts.flushRequest || ts.dynBatchSize ≤ queue.length })
  | .requestFlush table, y =>
    match y.tables table with
    | none => some ((), y)
    | some ts => some ((), y.setTable table { ts with flushRequest := true })
  | .awaitDrained table, y =>
    match y.tables table with
    | none => some ((), y)
    | some ts => if ts.queue.isEmpty || ts.stop then some ((), y) else none
  | .drain table, y =>
    match y.tables table with
    | none => some ([], y)
    | some ts =>
      let drained := Batch.drain ts.dynBatchSize ts.queue
      some (drained,
        { y.setTable table { ts with
            queue := ts.queue.drop drained.length, flushRequest := false } with
          inFlight := Function.update y.inFlight table
            (y.inFlight table ++ drained.map Item.ticket) })
  | .execBatch table b, y =>
    let r := S.reply ok y.pg b.insert.render b.insert.params
    if r.ok then
      some (r, { y.settle time table b with pg := S.apply y.pg b.insert.render b.insert.params })
    else some (r, y)
  | .deadLetter table b error, y =>
    let params := [PgParam.text (b.insert.render ++ str " [" ++ error.errorMessage ++ str "]")]
    let sql := dlqSql table cfg.dlqSuffix
    some ((), { y.settle time table b with
      pg := if (S.reply ok y.pg sql params).ok then S.apply y.pg sql params else y.pg })
  | .retune table size, y =>
    match y.tables table with
    | none => some ((), y)
    | some ts => some ((), y.setTable table { ts with dynBatchSize := size })
  | .stop, y => some ((), y.stopAll)

inductive DbJob
  | queryCached (sql : Bytes) (params : List PgParam) (ttl : ℕ) (tableTag : Bytes)
  | update (sql : Bytes) (params : List PgParam) (table : Bytes)
  | write (table : Bytes) (row : Row)
  | writeSync (table : Bytes) (row : Row)
  | flushNow (table : Bytes)
  | flush (table : Bytes)
  | rebalance (combined : ℚ)
  | sweep
  | resetThreadL1
  | notified (payload : Bytes)
  | stop

@[reducible] def DbJob.Out : DbJob → Type
  | queryCached _ _ _ _ => Answer
  | update _ _ _ => Option ℕ
  | write _ _ => Option ℕ
  | writeSync _ _ => Option ℕ
  | _ => Unit

abbrev Script (α : Type) := Prog (CacheCall Answer ⊕ DbOp) (CallRet DbOp.Res) α

def cached (c : CacheCall Answer) : Script c.Ret := Prog.perform (Sum.inl c)

def outside (x : DbOp) : Script x.Res := Prog.perform (Sum.inr x)

def queryCached (cfg : DbConfig) (sql : Bytes) (params : List PgParam) (ttl : ℕ)
    (tableTag : Bytes) :
    Script Answer := do
  let hit : Option (ValuePtr Answer) ← cached (.get (cfg.cacheKey sql params))
  match hit with
  | some v => return v.value
  | none => do
    let r : Answer ← outside (.query sql params)
    if r.result.ok then do
      let _ : ValuePtr Answer ← cached (.put (cfg.cacheKey sql params) r (cfg.ttlOf ttl) tableTag)
      return r
    else return r

/-- What the write handlers do; they invalidate the table whether the statement succeeded or not. -/
def update (sql : Bytes) (params : List PgParam) (table : Bytes) : Script (Option ℕ) := do
  let committed : Option ℕ ← outside (.commit sql params)
  cached (.invalidateTable table)
  return committed

def write (table : Bytes) (row : Row) : Script (Option ℕ) := do
  cached (.markDirty table)
  outside (.enqueue table row)

def waitOne (table : Bytes) : Script Unit := do
  outside (.requestFlush table)
  outside (.awaitDrained table)

def flushNow (cfg : DbConfig) (table : Bytes) : Script Unit :=
  if table = [] then (cfg.tables.map Prod.fst).forM waitOne else waitOne table

def writeSync (cfg : DbConfig) (table : Bytes) (row : Row) : Script (Option ℕ) := do
  cached (.markDirty table)
  let ticket : Option ℕ ← outside (.enqueue table row)
  flushNow cfg table
  return ticket

def markClean (table : Bytes) : ℕ → Script Unit
  | 0 => pure ()
  | rows + 1 => do
    cached (.markClean table)
    markClean table rows

def attempts (table : Bytes) (b : Sending) : ℕ → PgResult → Script Unit
  | 0, error => do
    outside (.deadLetter table b error)
    markClean table b.insert.rows.length
  | left + 1, _ => do
    let r : PgResult ← outside (.execBatch table b)
    if r.ok then markClean table b.insert.rows.length else attempts table b left r

/-- The drained rows that `coalesceBy` keeps. -/
def keptBy (i : ℕ) : List Item → List Item
  | [] => []
  | item :: items =>
    if items.any fun x => keyBytes i x.row = keyBytes i item.row then keptBy i items
    else item :: keptBy i items

def kept (c : BatchTableConfig) (items : List Item) : List Item :=
  match c.dataModel, c.pkIndex with
  | .State, some i => keptBy i items
  | _, _ => items

lemma map_row_keptBy (i : ℕ) (items : List Item) :
    (keptBy i items).map Item.row = coalesceBy i (items.map Item.row) := by
  induction items with
  | nil => rfl
  | cons item items ih =>
    rw [List.map_cons, keptBy, coalesceBy, List.any_map, ← ih]
    exact apply_ite (List.map Item.row) _ _ _

/-- The statement of a batch has the rows that are kept. -/
lemma map_row_kept (c : BatchTableConfig) (items : List Item) :
    (kept c items).map Item.row = c.coalesce (items.map Item.row) := by
  cases hmodel : c.dataModel <;> cases hpk : c.pkIndex <;>
    simp [kept, BatchTableConfig.coalesce, hmodel, hpk, map_row_keptBy]

def sending (c : BatchTableConfig) (table : Bytes) (items : List Item) : Sending where
  tickets := items.map Item.ticket
  kept := (kept c items).map Item.ticket
  insert := c.sendBatch table (items.map Item.row)

/-- One round of the flusher of a table, from the drain to the end of `send_batch`. -/
def flush (cfg : DbConfig) (table : Bytes) : Script Unit :=
  match cfg.tables.lookup table with
  | none => return ()
  | some c => do
    let items : List Item ← outside (.drain table)
    if items = [] then return ()
    else attempts table (sending c.prepared table items) (max 1 c.maxRetry) (.error [])

def rebalance (cfg : DbConfig) (combined : ℚ) : Script Unit :=
  cfg.tables.forM fun c => outside (.retune c.1 (c.2.scaledBatchSize combined))

def notified (cfg : DbConfig) (payload : Bytes) : Script Unit :=
  let table := payload.takeWhile (· ≠ '|'.toUInt8)
  if table = [] then (cfg.tables.map Prod.fst).forM fun table => cached (.invalidateTable table)
  else cached (.invalidateTable table)

/-- The calls of a job, in order. -/
def script (cfg : DbConfig) : (j : DbJob) → Script j.Out
  | .queryCached sql params ttl tableTag => queryCached cfg sql params ttl tableTag
  | .update sql params table => update sql params table
  | .write table row => write table row
  | .writeSync table row => writeSync cfg table row
  | .flushNow table => flushNow cfg table
  | .flush table => flush cfg table
  | .rebalance combined => rebalance cfg combined
  | .sweep => cached .sweep
  | .resetThreadL1 => cached .resetThreadL1
  | .notified payload => notified cfg payload
  | .stop => outside .stop

inductive DbThread
  | worker (n : ℕ)
  | flusher (table : Bytes)
  | controller
  | sweeper
  | listener
  deriving DecidableEq

def DbThread.runs : DbThread → DbJob → Bool
  | .flusher table, .flush table' => table = table'
  | .controller, .rebalance _ => true
  | .sweeper, .sweep => true
  | .listener, .notified _ => true
  | .worker _, .flush _ => false
  | .worker _, .rebalance _ => false
  | .worker _, .sweep => false
  | .worker _, .notified _ => false
  | .worker _, _ => true
  | _, _ => false

def client (S : Server G) (cfg : DbConfig) :
    Client DbThread Answer Bool (DbState G) DbOp.Res DbJob.Out where
  exec time ok _ x y := exec S cfg time ok x y
  script _ j := some <$> script cfg j
  runsOn := DbThread.runs

abbrev DbSys (G : Type) := CacheSys DbThread Answer (DbState G) DbOp.Res DbJob.Out

abbrev dbMachine (S : Server G) (cfg : DbConfig) := machine cfg.cache (client S cfg)

abbrev DbConfig.start (cfg : DbConfig) (pg : G) : DbSys G := Sys.init (State.empty, cfg.initial pg)

abbrev DbEvent := Event DbThread (ℕ × Bool) DbJob

def DbConfig.small : DbConfig where
  cache := ⟨4, 6400, fun _ => 1⟩
  defaultTtl := 60
  tables := [(str "t", { columns := [str "a"], primaryKey := str "a" })]
  dlqSuffix := str "_dlq"
  digest := ⟨fun _ => List.replicate 64 97, fun _ => List.length_replicate⟩

def Server.content : Server Unit := ⟨fun _ _ _ => {}, fun pg _ _ => pg⟩

def callEvents (t : DbThread) (steps : ℕ) : List DbEvent :=
  .enter t 1 :: (List.replicate steps (.step t (0, true)) ++ [.leave t])

def jobEvents (t : DbThread) (job : DbJob) (calls : List ℕ) : List DbEvent :=
  .start t job 1 :: (calls.flatMap (callEvents t) ++ [.finish t])

/-- What the batch writer alone is about: the rows without their tickets. -/
structure TableState.Shows (ts : TableState) (s : BatchWriter.TableState) : Prop where
  queue : ts.queue.map Item.row = s.queue
  dynBatchSize : ts.dynBatchSize = s.dynBatchSize
  flushRequest : ts.flushRequest = s.flushRequest
  stop : ts.stop = s.stop

inductive DbOp.Does (table : Bytes) (c : BatchTableConfig) : DbOp → TableEvent → Prop
  | enqueue (row : Row) : Does table c (.enqueue table row) (.enqueue row)
  | requestFlush : Does table c (.requestFlush table) .requestFlush
  | drain : Does table c (.drain table) .wake
  | retune (combined : ℚ) :
      Does table c (.retune table (c.scaledBatchSize combined)) (.retune combined)
  | stop : Does table c .stop .stop

/-- The queue of a table goes on as that of `Batch.BatchWriter`, up to the exit of the flusher. -/
lemma shows_exec {S : Server G} {cfg : DbConfig} {time : ℕ} {ok : Bool} {x : DbOp} {r : x.Res}
    {y y' : DbState G} {table : Bytes} {ts : TableState} {s s' : BatchWriter.TableState}
    {e : TableEvent} (hexec : exec S cfg time ok x y = some (r, y'))
    (hts : y.tables table = some ts) (h : ts.Shows s) (hx : x.Does table s.cfg e)
    (hstep : s.step e = some s') (hexit : s'.flusher ≠ .exited) :
    ∃ ts', y'.tables table = some ts' ∧ ts'.Shows s' := by
  obtain ⟨hqueue, hsize, hrequest, hstop⟩ := h
  have hlen : ts.queue.length = s.queue.length := by rw [← hqueue, List.length_map]
  cases hx with
  | enqueue | requestFlush | retune =>
    simp only [exec, hts] at hexec
    cases hexec
    cases hstep
    refine ⟨_, Function.update_self .., ?_⟩
    constructor <;> simp [BatchWriter.TableState.enqueue, hqueue, hsize, hrequest, hstop, hlen]
  | drain =>
    simp only [exec, hts] at hexec
    cases hexec
    refine ⟨_, Function.update_self .., ?_⟩
    obtain ⟨-, hw, rfl⟩ : TableEvent.wake = .wake ∧ s.flusher = .waiting ∧ s' = s.wake := by
      simpa using BatchWriter.TableState.step_cases hstep
    rw [BatchWriter.TableState.wake] at hexit ⊢
    split_ifs at hexit ⊢ with hend
    · exact absurd rfl hexit
    · refine ⟨?_, hsize, rfl, hstop⟩
      simp [BatchWriter.TableState.taken, drain, ← hqueue, hsize, Batch.taken]
  | stop =>
    cases hexec
    cases hstep
    exact ⟨{ ts with stop := true }, by simp [DbState.stopAll, hts], hqueue, hsize, hrequest, rfl⟩

end SpidoNG.Db
