import SpidoNG.Pg.Connection

/-!
# The connection pool

`PgPool` of `spido-pg/src/pool.cpp`, with the threads that use it.
-/

namespace SpidoNG.Pg

open Bytes

structure PoolConfig where
  minConns : ℕ := 0
  maxConns : ℕ := 0
  deriving DecidableEq

def PoolConfig.normalize (cfg : PoolConfig) (nproc : ℕ) : PoolConfig :=
  let minConns := if cfg.minConns = 0 then max 1 nproc else cfg.minConns
  let maxConns := if cfg.maxConns = 0 then minConns * 4 % 2 ^ 32 else cfg.maxConns
  ⟨minConns, max maxConns minConns⟩

structure PrepInfo where
  paramTypes : List Oid := []
  lastEpoch : ℤ → Option UInt64 := fun _ => none

abbrev PrepCache := Bytes → Option PrepInfo

def PrepCache.needPrepare (cache : PrepCache) (sql : Bytes) (types : List Oid) (c : PgConnection) :
    Bool × PrepCache :=
  let info := (cache sql).getD {}
  let info := if info.paramTypes.isEmpty && !types.isEmpty then { info with paramTypes := types }
    else info
  if info.lastEpoch c.fd = some c.epoch then (false, Function.update cache sql (some info))
  else
    (true, Function.update cache sql
      (some { info with lastEpoch := Function.update info.lastEpoch c.fd (some c.epoch) }))

structure Call where
  name : Bytes
  sql : Bytes
  types : List Oid := []
  params : List PgParam := []
  deriving DecidableEq

inductive Task
  | borrowed (c : PgConnection)
  | checkedOut (call : Call) (c : PgConnection)
  | decided (call : Call) (c : PgConnection) (needPrepare : Bool)
  | prepared (call : Call) (c : PgConnection)
  | finished (r : PgResult) (c : PgConnection)

def Task.conn : Task → PgConnection
  | .borrowed c | .checkedOut _ c | .decided _ c _ | .prepared _ c | .finished _ c => c

structure Sent where
  sql : Bytes
  msg : Message

def Sent.log (sql : Bytes) (msgs : List Message) : List Sent := msgs.reverse.map (Sent.mk sql)

structure Pool where
  cfg : PoolConfig
  idle : List PgConnection
  live : ℕ
  prepCache : PrepCache
  tasks : List Task
  drained : List PgConnection
  survivors : List PgConnection
  sessions : ℕ
  wire : List Sent

namespace Pool

def init (cfg : PoolConfig) (nproc : ℕ) : Pool :=
  ⟨cfg.normalize nproc, [], 0, fun _ => none, [], [], [], 0, []⟩

def openFds (p : Pool) : List ℤ :=
  p.idle.map (·.fd) ++ (p.drained.map (·.fd) ++ (p.survivors.map (·.fd) ++
    p.tasks.map fun t => t.conn.fd))

def createOne (p : Pool) (sock : Option ℤ) : Option PgConnection :=
  match sock with
  | none => none
  | some fd =>
    if fd < 0 ∨ fd ∈ p.openFds then none else some (PgConnection.connect {} fd p.sessions)

inductive Event
  | checkout (call : Option Call) (sock : Option ℤ)
  | query (i : ℕ) (sql : Bytes) (reply : Reply)
  | decide (i : ℕ)
  | prepare (i : ℕ) (reply : Reply)
  | bind (i : ℕ) (reply : Reply)
  | checkin (i : ℕ)
  | drain
  | ping (reply : Reply)
  | resume
  | topUp (sock : Option ℤ)

def taskFor (call : Option Call) (c : PgConnection) : Task :=
  match call with
  | none => .borrowed c
  | some call => .checkedOut call c

def checkout (p : Pool) (call : Option Call) (sock : Option ℤ) : Pool :=
  match p.idle with
  | c :: cs =>
    if c.isReady then { p with idle := cs, tasks := taskFor call c :: p.tasks }
    else { p with idle := cs, live := p.live - 1 }
  | [] =>
    if p.live < p.cfg.maxConns then
      match p.createOne sock with
      | some c =>
        { p with live := p.live + 1, tasks := taskFor call c ::
          p.tasks, sessions := p.sessions + 1 }
      | none => p
    else p

def checkin (p : Pool) (i : ℕ) (c : PgConnection) : Pool :=
  if c.isReady then { p with idle := p.idle ++ [c], tasks := p.tasks.eraseIdx i }
  else { p with live := p.live - 1, tasks := p.tasks.eraseIdx i }

def send (p : Pool) (sql : Bytes) (msgs : List Message) : Pool :=
  { p with wire := Sent.log sql msgs ++ p.wire }

def advance (p : Pool) (i : ℕ) (t : Task) : Event → Pool
  | .query _ sql reply =>
    match t with
    | .borrowed c =>
      let (_, c', msgs) := c.exec sql reply
      { p with tasks := p.tasks.set i (.borrowed c') }.send sql msgs
    | _ => p
  | .decide _ =>
    match t with
    | .checkedOut call c =>
      let (need, cache) := p.prepCache.needPrepare call.sql call.types c
      { p with prepCache := cache, tasks := p.tasks.set i (.decided call c need) }
    | _ => p
  | .prepare _ reply =>
    match t with
    | .decided call c true =>
      let (_, c', msgs) := c.prepare call.name call.sql call.types reply
      { p with tasks := p.tasks.set i (.prepared call c') }.send call.sql msgs
    | .decided call c false => { p with tasks := p.tasks.set i (.prepared call c) }
    | _ => p
  | .bind _ reply =>
    match t with
    | .prepared call c =>
      let (r, c', msgs) := c.execPrepared ⟨call.name, call.types, c.epoch⟩ call.params reply
      { p with tasks := p.tasks.set i (.finished r c') }.send call.sql msgs
    | _ => p
  | .checkin _ =>
    match t with
    | .borrowed c | .finished _ c => p.checkin i c
    | _ => p
  | _ => p

def ping (p : Pool) (reply : Reply) : Pool :=
  match p.drained with
  | [] => p
  | c :: cs =>
    let sql := str "SELECT 1"
    let (r, c', msgs) := c.exec sql reply
    (if r.ok && c'.isReady then { p with drained := cs, survivors := p.survivors ++ [c'] }
      else { p with drained := cs, live := p.live - 1 }).send sql msgs

def step (p : Pool) (ev : Event) : Pool :=
  match ev with
  | .checkout call sock => p.checkout call sock
  | .query i _ _ | .decide i | .prepare i _ | .bind i _ | .checkin i =>
    match p.tasks[i]? with
    | some t => p.advance i t ev
    | none => p
  | .drain =>
    if p.drained = [] ∧ p.survivors = [] then { p with idle := [], drained := p.idle } else p
  | .ping reply => p.ping reply
  | .resume => if p.drained = []
    then { p with idle := p.idle ++ p.survivors, survivors := [] } else p
  | .topUp sock =>
    if p.live < p.cfg.minConns then
      match p.createOne sock with
      | some c =>
        { p with idle := p.idle ++ [c], live := p.live + 1, sessions := p.sessions + 1 }
      | none => p
    else p

def run (p : Pool) (evs : List Event) : Pool := evs.foldl step p

end Pool

end SpidoNG.Pg
