import SpidoNG.Http.Connection

/-!
# A connection of the server

`IoUringWorker::Conn` of `spido/src/server/io_uring_server.cpp` and its completions.
-/

namespace SpidoNG.Uring

open Bytes

inductive Op
  | recv
  | send
  | close
  | tlsHandshakePoll
  deriving DecidableEq

inductive Phase
  | headers
  | body
  | idle
  | writing
  deriving DecidableEq

structure ServerConfig where
  maxRequestBytes : UInt64
  headerTimeoutS : ℕ
  bodyTimeoutS : ℕ
  idleTimeoutS : ℕ
  writeTimeoutS : ℕ
  filesRegistered : Bool

inductive Note
  | request (req : Http.Request)
  | answer (bytes : Bytes)
  | closing
  | sent (bytes : Bytes)
  | shutdown
  | cancel (op : Op)
  | close
  deriving DecidableEq

def answered (journal : List Note) : Bytes :=
  journal.flatMap fun
    | .answer bytes => bytes
    | _ => []

def transmitted (journal : List Note) : Bytes :=
  journal.flatMap fun
    | .sent bytes => bytes
    | _ => []

structure Conn where
  fd : ℤ := -1
  inp : Bytes := []
  out : Bytes := []
  outOff : ℕ := 0
  recvInflight : Bool := false
  sendInflight : Bool := false
  wantClose : Bool := false
  fixedFile : Bool := false
  phase : Phase := .headers
  deadlineNs : ℕ := 0
  ssl : Bool := false
  tlsPending : Bool := false
  tlsPollInflight : Bool := false
  /-- The capacity of `out`, and how often its bytes have moved to another buffer. -/
  capacity : ℕ := 15
  block : ℕ := 0
  serial : ℕ := 0
  journal : List Note := []
  deriving DecidableEq

/-- What a send is given: a pointer into the buffer of `out`, and a length. -/
structure Span where
  block : ℕ := 0
  offset : ℕ := 0
  length : ℕ := 0
  deriving DecidableEq

structure Submission where
  op : Op
  number : ℕ
  owner : ℕ
  range : Span := {}
  direct : Bool := false
  executed : Bool := false
  deriving DecidableEq

structure Talk where
  conn : Conn
  submitted : List Submission := []

inductive Handshake
  | done
  | wantRead
  | wantWrite
  | failed
  deriving DecidableEq

structure Env where
  res : ℤ := 0
  more : Bool := false
  hasBuf : Bool := true
  data : Bytes := []
  respond : ℕ → Http.Request → Bytes := fun _ _ => []
  handshake : Handshake := .wantRead
  now : ℕ := 0

namespace Conn

def note (x : Note) (c : Conn) : Conn := { c with journal := c.journal ++ [x] }

/-- A `std::string` for which the bytes are too many takes another buffer, twice as large at
least. -/
def queue (bytes : Bytes) (c : Conn) : Conn :=
  let n := (c.out ++ bytes).length
  { c.note (.answer bytes) with
    out := c.out ++ bytes
    capacity := if n ≤ c.capacity then c.capacity else max n (2 * c.capacity)
    block := if n ≤ c.capacity then c.block else c.block + 1 }

def decideClose (c : Conn) : Conn := { c.note .closing with wantClose := true }

def setDeadline (cfg : ServerConfig) (now : ℕ) (ph : Phase) (c : Conn) : Conn :=
  let secs := match ph with
    | .headers => cfg.headerTimeoutS
    | .body => cfg.bodyTimeoutS
    | .idle => cfg.idleTimeoutS
    | .writing => cfg.writeTimeoutS
  { c with phase := ph, deadlineNs := if secs = 0 then 0 else now + secs * 1000000000 }

def serve (cfg : ServerConfig) (env : Env) (c : Conn) (q : Http.Request × ℕ) : Conn :=
  ((c.setDeadline cfg env.now .writing).note (.request q.1)).queue (env.respond q.2 q.1)

def text400 : Bytes :=
  str "HTTP/1.1 400 Bad Request\r\nContent-Length: 0\r\nConnection: close\r\n\r\n"

def text413 : Bytes :=
  str "HTTP/1.1 413 Payload Too Large\r\nContent-Length: 0\r\nConnection: close\r\n\r\n"

def finish (stop : Http.Stop) (c : Conn) : Conn :=
  match stop with
  | .needMore => c
  | .badRequest => (c.queue text400).decideClose
  | .tooLarge => (c.queue text413).decideClose
  | _ => c.decideClose

def processInput (cfg : ServerConfig) (env : Env) (c : Conn) : Conn :=
  let r := Http.processInput cfg.maxRequestBytes c.inp
  { r.requests.zipIdx.foldl (serve cfg env) c with inp := r.input }.finish r.stop

/-- What the kernel reads at the pointer: bytes of `out`, but anything in a buffer given up. -/
def fetch (range : Span) (env : Env) (c : Conn) : Bytes :=
  if range.block = c.block then (c.out.drop range.offset).take range.length
  else env.data.takeD range.length 0

def acknowledge (range : Span) (env : Env) (c : Conn) : Conn :=
  { c.note (.sent ((c.fetch range env).take env.res.toNat)) with
    sendInflight := false, outOff := c.outOff + env.res.toNat }

def waiting (c : Conn) : Span := ⟨c.block, c.outOff, c.out.length - c.outOff⟩

def severance (c : Conn) : List Note :=
  (if c.recvInflight then [.cancel .recv] else []) ++
    (if c.sendInflight then [.cancel .send] else []) ++ [.close]

lemma mem_severance {c : Conn} {x : Note} (hx : x ∈ c.severance) :
    x = .cancel .recv ∨ x = .cancel .send ∨ x = .close := by
  unfold severance at hx
  split_ifs at hx <;> simp at hx <;> tauto

def drain (c : Conn) : Conn := { c with out := [], outOff := 0 }

/-- `reset_for_reuse` clears `out`, and leaves it its buffer. -/
def reset (n serial : ℕ) (c : Conn) : Conn :=
  { fd := n, serial, capacity := c.capacity, block := c.block }

end Conn

namespace Talk

def modify (f : Conn → Conn) (t : Talk) : Talk := { t with conn := f t.conn }

def onlyIf (q : Conn → Bool) (f : Talk → Talk) (t : Talk) : Talk := if q t.conn then f t else t

def submit (op : Op) (range : Span) (t : Talk) : Talk :=
  { t with submitted := t.submitted ++
    [⟨op, t.conn.fd.toNat, t.conn.serial, range, t.conn.fixedFile, false⟩] }

def submitSend (t : Talk) : Talk :=
  if t.conn.sendInflight ∨ t.conn.fd < 0 then t
  else if t.conn.out.length ≤ t.conn.outOff then t
  else (t.submit .send t.conn.waiting).modify fun c => { c with sendInflight := true }

def submitRecv (cfg : ServerConfig) (t : Talk) : Talk :=
  if t.conn.recvInflight ∨ t.conn.wantClose ∨ t.conn.fd < 0 then t
  else if cfg.maxRequestBytes.toNat ≤ t.conn.inp.length then
    (t.modify fun c => (c.queue Conn.text413).decideClose).submitSend
  else (t.submit .recv {}).modify fun c => { c with recvInflight := true }

def startClose (t : Talk) : Talk :=
  (t.submit .close {}).modify fun c => { c with fd := -1, journal := c.journal ++ c.severance }

def closeConn (stop : Bool) (t : Talk) : Talk :=
  if t.conn.wantClose = false ∨ t.conn.fd < 0 then t
  else if stop = false then
    if t.conn.recvInflight ∨ t.conn.sendInflight then
      -- A descriptor is only shut down, and closed when its operations have come back.
      if t.conn.fixedFile = false then t.modify (Conn.note .shutdown) else t.startClose
    else if t.conn.outOff < t.conn.out.length then t
    else t.startClose
  else t.startClose

def handleRecv (cfg : ServerConfig) (stop : Bool) (env : Env) (t : Talk) : Talk :=
  let t := t.modify fun c => { c with recvInflight := c.recvInflight && env.more }
  if env.res ≤ 0 then (t.modify Conn.decideClose).closeConn stop
  else if env.hasBuf = false then
    t.modify (fun c => { c with wantClose := false })
      |> onlyIf (!·.recvInflight) (submitRecv cfg)
      |> onlyIf (·.wantClose) (closeConn stop)
  else
    t.modify (fun c => { c with inp := c.inp ++ env.data.take env.res.toNat })
      |> onlyIf (·.phase == .idle) (modify (Conn.setDeadline cfg env.now .headers))
      |> modify (Conn.processInput cfg env)
      |> onlyIf (fun c => c.outOff < c.out.length) submitSend
      |> onlyIf (fun c => !c.recvInflight && !c.wantClose) (submitRecv cfg)
      |> closeConn stop

def handleSend (cfg : ServerConfig) (stop : Bool) (range : Span) (env : Env) (t : Talk) : Talk :=
  let t := t.modify (Conn.acknowledge range env)
  if env.res ≤ 0 then (t.modify Conn.decideClose).closeConn stop
  else if t.conn.out.length ≤ t.conn.outOff then
    t.modify Conn.drain
      |> onlyIf (!·.wantClose) (modify (Conn.setDeadline cfg env.now .idle))
      |> closeConn stop
  else t.submitSend.closeConn stop

def submitTlsHandshakePoll (t : Talk) : Talk :=
  if t.conn.fd < 0 ∨ t.conn.tlsPollInflight then t
  else (t.submit .tlsHandshakePoll {}).modify fun c => { c with tlsPollInflight := true }

def driveTlsHandshake (cfg : ServerConfig) (stop : Bool) (env : Env) (t : Talk) : Talk :=
  if t.conn.ssl = false then t
  else match env.handshake with
    | .done => (t.modify fun c => { c with tlsPending := false, ssl := false }).submitRecv cfg
    | .wantRead => t.submitTlsHandshakePoll
    | .wantWrite => t.submitTlsHandshakePoll
    | .failed => (t.modify fun c =>
        { c.decideClose with ssl := false, tlsPending := false }).closeConn stop

def handleTlsPoll (cfg : ServerConfig) (stop : Bool) (env : Env) (t : Talk) : Talk :=
  let t := t.modify fun c => { c with tlsPollInflight := false }
  if env.res < 0 then (t.modify fun c => { c.decideClose with ssl := false }).closeConn stop
  else t.driveTlsHandshake cfg stop env

def sweepDeadline (stop : Bool) (now : ℕ) (t : Talk) : Talk :=
  if t.conn.fd < 0 ∨ t.conn.deadlineNs = 0 ∨ now < t.conn.deadlineNs then t
  else (t.modify Conn.decideClose).closeConn stop

def abort (stop : Bool) (t : Talk) : Talk :=
  if t.conn.fd < 0 then t
  else (t.modify fun c => { c.decideClose with ssl := false }).closeConn stop

end Talk

end SpidoNG.Uring
