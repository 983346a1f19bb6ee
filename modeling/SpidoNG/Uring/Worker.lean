import SpidoNG.Uring.Connection

/-!
# A worker of the server

`IoUringWorker` of `spido/src/server/io_uring_server.cpp`.
-/

namespace SpidoNG.Uring

open Function

structure Accepted where
  serial : ℕ
  number : ℕ
  deriving DecidableEq

structure Registry where
  table : ℕ → Option ℕ := fun _ => none
  tableSize : ℕ := 0
  storage : ℕ → Conn := fun _ => {}
  storageSize : ℕ := 0
  freeList : List ℕ := []
  liveConns : ℕ := 0
  inflight : List Submission := []
  accepts : ℕ := 0
  accepted : List Accepted := []

namespace Registry

def getConn (r : Registry) (n : ℕ) : Option ℕ := if n < r.tableSize then r.table n else none

def put (p : ℕ) (t : Talk) (r : Registry) : Registry :=
  { r with
    storage := update r.storage p t.conn
    inflight := r.inflight ++ t.submitted }

def takeConn (r : Registry) : ℕ × Registry :=
  match r.freeList with
  | p :: rest => (p, { r with freeList := rest })
  | [] => (r.storageSize, { r with storageSize := r.storageSize + 1 })

def attachConn (n : ℕ) (r : Registry) : ℕ × Registry :=
  let (p, r) := r.takeConn
  (p, { r with
    tableSize := if n < r.tableSize then r.tableSize else n * 2 + 16
    table := update r.table n (some p)
    storage := update r.storage p ((r.storage p).reset n r.accepts)
    liveConns := r.liveConns + 1
    accepts := r.accepts + 1
    accepted := ⟨r.accepts, n⟩ :: r.accepted })

def releaseConn (n : ℕ) (r : Registry) : Registry :=
  match r.getConn n with
  | none => r
  | some p => { r with
      storage := update r.storage p { r.storage p with ssl := false }
      table := update r.table n none
      freeList := p :: r.freeList
      liveConns := r.liveConns - 1 }

def settle (serial : ℕ) (r : Registry) : Registry :=
  { r with accepted := r.accepted.filter (·.serial ≠ serial) }

end Registry

structure Worker extends Registry where
  stop : Bool := false
  openSlots : List ℕ := []
  openFds : List ℕ := []

namespace Worker

def visit (p : ℕ) (f : Talk → Talk) (w : Worker) : Worker :=
  { w with toRegistry := w.put p (f ⟨w.storage p, []⟩) }

def attach (n : ℕ) (f : Talk → Talk) (w : Worker) : Worker :=
  let (p, r) := w.attachConn n
  { w with toRegistry := r }.visit p f

def handleAccept (cfg : ServerConfig) (env : Env) (n : ℕ) : Worker → Worker :=
  attach n fun t => t.modify (fun c =>
    Conn.setDeadline cfg env.now .headers { c with fixedFile := cfg.filesRegistered })
      |>.submitRecv cfg

def handleTlsAccept (cfg : ServerConfig) (env : Env) (session : Bool) (n : ℕ)
    (w : Worker) : Worker :=
  if session = false then
    { w with
      toRegistry := ((w.attachConn n).2.releaseConn n).settle w.accepts
      openFds := w.openFds.erase n }
  else
    w.attach n fun t => t.modify (fun c =>
      Conn.setDeadline cfg env.now .headers { c with ssl := true, tlsPending := true })
        |>.driveTlsHandshake cfg w.stop env

def visitEntry (f : Talk → Talk) (w : Worker) (n : ℕ) : Worker :=
  match w.table n with
  | none => w
  | some p => w.visit p f

def overTable (f : Talk → Talk) (w : Worker) : Worker :=
  (List.range w.tableSize).foldl (visitEntry f) w

def sweepDeadlines (now : ℕ) (w : Worker) : Worker := w.overTable (Talk.sweepDeadline w.stop now)

def abortAll (w : Worker) : Worker := w.overTable (Talk.abort w.stop)

def handler (cfg : ServerConfig) (stop : Bool) (env : Env) (sub : Submission) : Talk → Talk :=
  match sub.op with
  | .recv => Talk.handleRecv cfg stop env
  | .send => Talk.handleSend cfg stop sub.range env
  | _ => Talk.handleTlsPoll cfg stop env

def dispatch (cfg : ServerConfig) (env : Env) (sub : Submission) (w : Worker) : Worker :=
  match sub.op with
  | .close => { w with toRegistry := (w.toRegistry.releaseConn sub.number).settle sub.owner }
  | _ =>
    match w.getConn sub.number with
    | none => w
    | some p => w.visit p (handler cfg w.stop env sub)

end Worker

inductive Event
  | accept (n : ℕ) (env : Env)
  | tlsAccept (n : ℕ) (session : Bool) (env : Env)
  | closes (i : ℕ)
  | complete (i : ℕ) (env : Env)
  | timer (now : ℕ)
  | stop
  | eventfd

def Worker.inUse (cfg : ServerConfig) (w : Worker) : List ℕ :=
  if cfg.filesRegistered then w.openSlots else w.openFds

def step (cfg : ServerConfig) (w : Worker) : Event → Option Worker
  | .accept n env =>
    if n ∈ w.inUse cfg then none
    else some <| Worker.handleAccept cfg env n <|
      if cfg.filesRegistered then { w with openSlots := n :: w.openSlots }
      else { w with openFds := n :: w.openFds }
  | .tlsAccept n session env =>
    if n ∈ w.openFds then none
    else some (Worker.handleTlsAccept cfg env session n { w with openFds := n :: w.openFds })
  | .closes i =>
    match w.inflight[i]? with
    | none => none
    | some sub =>
      if sub.op ≠ .close ∨ sub.executed then none
      else
        let w := { w with inflight := w.inflight.set i { sub with executed := true } }
        if sub.direct then some { w with openSlots := w.openSlots.erase sub.number }
        else some { w with openFds := w.openFds.erase sub.number }
  | .complete i env =>
    match w.inflight[i]? with
    | none => none
    | some sub =>
      if sub.op = .send ∧ (sub.range.length : ℤ) < env.res then none
      else some <| Worker.dispatch cfg env sub <|
        if sub.op = .recv ∧ env.more = true then w
        else { w with inflight := w.inflight.eraseIdx i }
  | .timer now => some (if w.stop then w else w.sweepDeadlines now)
  | .stop => some { w with stop := true }
  | .eventfd => some (if w.stop then w.abortAll else w)

end SpidoNG.Uring
