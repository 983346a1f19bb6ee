import SpidoNG.Wal.Crash
import SpidoNG.Service.Writes

/-!
# A running service

The endpoints that the generator makes for the resources of a configuration, and a server that has
any number of requests in work at a time.
-/

namespace SpidoNG.Service

open Bytes Pg

inductive Endpoint
  | list
  | get
  | count
  | stats
  | create
  | bulk
  | update
  | delete
  deriving DecidableEq

def Resource.serves (r : Resource) : Endpoint → Bool
  | .list | .get => r.methods.contains .GET
  | .count => r.aggregations.count
  | .stats => r.aggregations.stats.isSome
  | .create => r.methods.contains .POST
  | .bulk => r.bulk.enabled
  | .update => r.methods.contains .PUT
  | .delete => r.methods.contains .DELETE

def Resource.perms (r : Resource) : Endpoint → Option Perms
  | .list => r.permissions.list
  | .get => r.permissions.get
  | .count => r.permissions.count
  | .stats => r.permissions.stats
  | .create => r.permissions.create
  | .bulk => r.permissions.bulk
  | .update => r.permissions.update
  | .delete => r.permissions.delete

def handler (lib : Platform) (cfg : Config) (r : Resource) (req : Request) : Endpoint → Handler
  | .list => listHandler lib cfg.auth r req
  | .get => getHandler lib cfg.auth r (r.tableId cfg) req
  | .count => countHandler lib cfg.auth r req
  | .stats =>
    match r.aggregations.stats with
    | none => pure {}
    | some stats => statsHandler lib cfg.auth r stats req
  | .create => postHandler lib cfg.auth r req
  | .bulk => bulkHandler lib cfg.auth r req
  | .update => putHandler lib cfg.auth r req
  | .delete => deleteHandler lib cfg.auth r req

structure Incoming (cfg : Config) where
  resource : Resource
  generated : resource ∈ cfg.generated
  endpoint : Endpoint
  served : resource.serves endpoint = true
  request : Request

namespace Incoming

variable {cfg : Config} (x : Incoming cfg)

def handler (lib : Platform) : Handler :=
  Service.handler lib cfg x.resource x.request x.endpoint

def permitted : Bool :=
  roleCheck cfg.auth (x.resource.perms x.endpoint) x.resource.permissions.header x.request

def bypass : Bool :=
  bypassOwn cfg.auth (x.resource.perms x.endpoint) x.resource.permissions.header x.request

def restricted : Bool := x.resource.ownership.isSome && !x.bypass

end Incoming

/-- A request in work. It is no thread of `Threads`: there is any number of them, and a crash ends
all. -/
structure Active (cfg : Config) where
  incoming : Incoming cfg
  rest : Handler

structure Answer (cfg : Config) where
  incoming : Incoming cfg
  response : Response
  log : List Wal.Entry

structure Server (cfg : Config) where
  wal : Wal.History := Wal.History.init
  active : List (Active cfg) := []
  answered : List (Answer cfg) := []

inductive Upkeep
  | openLog (cfg : Wal.WalConfig)
  | groupCommit (syncOk : Bool)
  | close (syncOk : Bool)
  | crash (k : ℕ)

def Upkeep.op : Upkeep → Wal.Op
  | .openLog cfg => .openLog cfg
  | .groupCommit syncOk => .call (.groupCommit syncOk)
  | .close syncOk => .close syncOk
  | .crash k => .crash k

def Upkeep.ends : Upkeep → Bool
  | .close _ | .crash _ => true
  | _ => false

inductive Event (cfg : Config)
  | arrive (x : Incoming cfg)
  /-- The request number `i` goes on: its handler makes a call, which is answered by `answer`, or
  produces its response. A record appended to the log is written and synced as `written` and
  `syncOk` say. -/
  | advance (i : ℕ) (answer : (op : Op) → op.Res) (written : ℕ) (syncOk : Bool)
  | upkeep (u : Upkeep)

def walAfter (h : Wal.History) (written : ℕ) (syncOk : Bool) : Op → Wal.History
  | .walAppend rec => h.step (.call (.append rec written syncOk))
  | _ => h

namespace Server

variable {cfg : Config}

def step (lib : Platform) (s : Server cfg) : Event cfg → Server cfg
  | .arrive x =>
    -- there is a service only where the log could be opened
    if s.wal.proc.isSome then { s with active := s.active ++ [⟨x, x.handler lib⟩] } else s
  | .advance i answer written syncOk =>
    match s.active[i]? with
    | none => s
    | some a =>
      match a.rest with
      | .pure res =>
        { s with
          active := s.active.eraseIdx i
          answered := s.answered ++ [⟨a.incoming, res, s.wal.log⟩] }
      | .call op k =>
        { s with
          wal := walAfter s.wal written syncOk op
          active := s.active.set i ⟨a.incoming, k (answer op)⟩ }
  | .upkeep u =>
    { s with wal := s.wal.step u.op, active := if u.ends then [] else s.active }

def run (lib : Platform) (s : Server cfg) (evs : List (Event cfg)) : Server cfg :=
  evs.foldl (step lib) s

end Server

end SpidoNG.Service
