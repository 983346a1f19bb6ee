import SpidoNG.Lib.Runs
import SpidoNG.Pg.Bind
import SpidoNG.Pg.Pool

/-!
# The messages of the backend

How `PgConnection` reads the answer to a request (`spido-pg/src/connection.cpp`).
-/

namespace SpidoNG.Pg

open Bytes

def kReadyForQuery : UInt8 := 90
def kRowDescription : UInt8 := 84
def kDataRow : UInt8 := 68
def kCommandComplete : UInt8 := 67
def kErrorResponse : UInt8 := 69

structure WireField where
  name : Bytes
  typeOid : ℕ
  typeLen : ℤ
  format : ℤ
  deriving DecidableEq

structure WireResult where
  fields : List WireField := []
  rows : List (List (Option Bytes)) := []
  tag : Bytes := []
  txStatus : UInt8 := 73
  hadError : Bool := false
  errorSeverity : Bytes := []
  errorCode : Bytes := []
  errorMessage : Bytes := []
  deriving DecidableEq

inductive Received
  | message (type : UInt8) (payload rest : Bytes)
  | failed (error rest : Bytes)

def maxMessage : ℤ := 64 * 1024 * 1024

def recvMsg (inbox cause : Bytes) : Received :=
  match inbox with
  | [] => .failed (str "recv header failed: " ++ cause) []
  | type :: rest =>
    match Reader.int 4 rest with
    | none => .failed (str "recv header failed: " ++ cause) []
    | some (total, rest) =>
      if total < 4 ∨ maxMessage < total then .failed (str "protocol error: bad message length") rest
      else if rest.length < (total - 4).toNat then .failed (str "recv body failed: " ++ cause) []
      else .message type (rest.take (total - 4).toNat) (rest.drop (total - 4).toNat)

def readField (bs : Bytes) : Option (WireField × Bytes) :=
  let name := bs.takeWhile (· ≠ 0)
  let rest := bs.drop (name.length + 1)
  if rest.length < 18 then none
  else
    some ({ name
            typeOid := LittleEndian.getLE ((rest.drop 6).take 4).reverse
            typeLen := getBE ((rest.drop 10).take 2)
            format := getBE ((rest.drop 16).take 2) }, rest.drop 18)

def readFields : ℕ → Bytes → List WireField → List WireField × Bool
  | 0, _, fields => (fields, true)
  | n + 1, bs, fields =>
    match readField bs with
    | none => (fields, false)
    | some (f, rest) => readFields n rest (fields ++ [f])

def readCells : ℕ → Bytes → Option (List (Option Bytes))
  | 0, _ => some []
  | n + 1, bs =>
    match Reader.int 4 bs with
    | none => none
    | some (len, rest) =>
      if len < 0 then (readCells n rest).map (none :: ·)
      else if rest.length < len.toNat then none
      else (readCells n (rest.drop len.toNat)).map (some (rest.take len.toNat) :: ·)

def readErrorFields : ℕ → Bytes → WireResult → WireResult
  | 0, _, out => out
  | fuel + 1, bs, out =>
    match bs with
    | [] => out
    | tag :: rest =>
      if tag = 0 then out
      else
        let val := rest.takeWhile (· ≠ 0)
        let out :=
          if tag = 83 then { out with errorSeverity := val }
          else if tag = 67 then { out with errorCode := val }
          else if tag = 77 then { out with errorMessage := val }
          else out
        readErrorFields fuel (rest.drop (val.length + 1)) out

inductive Outcome
  | next (out : WireResult) (lastError : Bytes)
  | ready (out : WireResult)
  | malformed (out : WireResult)
  | threw

def onRowDescription (payload : Bytes) (out : WireResult) (lastError : Bytes) : Outcome :=
  if payload.length < 2 then .malformed { out with fields := [] }
  else
    match readFields (getBE (payload.take 2)).toNat (payload.drop 2) [] with
    | (fields, true) => .next { out with fields } lastError
    | (fields, false) => .malformed { out with fields }

def onDataRow (payload : Bytes) (out : WireResult) (lastError : Bytes) : Outcome :=
  if payload.length < 2 then .malformed out
  else if getBE (payload.take 2) < 0 then .threw
  else
    match readCells (getBE (payload.take 2)).toNat (payload.drop 2) with
    | none => .malformed out
    | some row => .next { out with rows := out.rows ++ [row] } lastError

def onErrorResponse (payload : Bytes) (out : WireResult) : Outcome :=
  let out := readErrorFields payload.length payload { out with hadError := true }
  let out := if out.errorMessage = []
    then { out with errorMessage := str "PG error (no message)" } else out
  .next out out.errorMessage

def onMessage (type : UInt8) (payload : Bytes) (out : WireResult) (lastError : Bytes) : Outcome :=
  if type = kRowDescription then onRowDescription payload out lastError
  else if type = kDataRow then onDataRow payload out lastError
  else if type = kCommandComplete then
    .next { out with tag := payload.takeWhile (· ≠ 0) } lastError
  else if type = kErrorResponse then onErrorResponse payload out
  else if type = kReadyForQuery then
    .ready { out with txStatus := payload.head?.getD out.txStatus }
  else .next out lastError

inductive Drained
  | ready (out : WireResult) (lastError rest : Bytes)
  | stopped (out : WireResult) (lastError rest : Bytes)
  | threw (lastError rest : Bytes)

def drainUntilReady (cause : Bytes) : ℕ → Bytes → WireResult → Bytes → Drained
  | 0, inbox, out, lastError => .stopped out lastError inbox
  | turns + 1, inbox, out, lastError =>
    match recvMsg inbox cause with
    | .failed error rest => .stopped out error rest
    | .message type payload rest =>
      match onMessage type payload out lastError with
      | .next out lastError => drainUntilReady cause turns rest out lastError
      | .ready out => .ready out lastError rest
      | .malformed out => .stopped out lastError rest
      | .threw => .threw lastError rest

structure Frame where
  type : UInt8
  body : Bytes
  deriving DecidableEq

def Frame.bytes (f : Frame) : Bytes := frame f.type f.body

inductive Ending
  | ready (body : Bytes)
  | broken (junk : Bytes)
  deriving DecidableEq

def Ending.bytes : Ending → Bytes
  | .ready body => frame kReadyForQuery body
  | .broken junk => junk

structure Delivery where
  unsent : Option Bytes := none
  frames : List Frame := []
  ending : Ending
  cause : Bytes := []
  deriving DecidableEq

def Delivery.bytes (a : Delivery) : Bytes := a.frames.flatMap Frame.bytes ++ a.ending.bytes

/-- The backend answers with messages up to one ReadyForQuery, or the answer breaks off. -/
structure Delivery.Conforms (a : Delivery) : Prop where
  frames : ∀ f ∈ a.frames, f.type ≠ kReadyForQuery ∧ f.body.length + 4 < 2 ^ 31
  ready : ∀ body, a.ending = .ready body → body.length + 4 < 2 ^ 31
  broken : ∀ junk, a.ending = .broken junk → ∃ error rest, recvMsg junk a.cause = .failed error rest

inductive CallKind
  | exec
  | prepare
  | execPrepared (unnamed : Bool)
  deriving DecidableEq

structure Request where
  kind : CallKind
  delivery : Delivery

inductive Returned
  | result (r : WireResult)
  | handle (cleared : Bool)
  | threw
  deriving DecidableEq

structure Channel where
  state : ConnState
  lastError : Bytes
  inbox : Bytes

def Channel.fresh : Channel := { state := .Ready, lastError := [], inbox := [] }

def WireResult.failure (msg : Bytes) : WireResult := { hadError := true, errorMessage := msg }

def WireResult.cutShort (r : WireResult) (error : Bytes) : WireResult :=
  if r.hadError then r else { r with hadError := true, errorMessage := error }

namespace CallKind

def refusal : CallKind → Returned
  | .exec => .result (.failure (str "connection not ready"))
  | .prepare => .handle false
  | .execPrepared _ => .result (.failure (str "not ready or unprepared"))

def refuses (kind : CallKind) (state : ConnState) : Bool :=
  state != .Ready || kind == .execPrepared true

def unsent (kind : CallKind) (error : Bytes) : Returned :=
  match kind with
  | .prepare => .handle false
  | _ => .result (.failure error)

def completed (kind : CallKind) (out : WireResult) : Returned :=
  match kind with
  | .prepare => .handle out.hadError
  | _ => .result out

def stopped (kind : CallKind) (out : WireResult) (lastError : Bytes) : Returned :=
  match kind with
  | .prepare => .handle false
  | .exec => .result (out.cutShort (if lastError = [] then str "drain failed" else lastError))
  | .execPrepared _ => .result (out.cutShort lastError)

end CallKind

inductive Ended
  | refused
  | completed
  | stopped

namespace Channel

def drain (c : Channel) (a : Delivery) : Drained :=
  drainUntilReady a.cause ((c.inbox ++ a.bytes).length + 1) (c.inbox ++ a.bytes) {} c.lastError

def call (c : Channel) (q : Request) : Returned × Ended × Channel :=
  if q.kind.refuses c.state then (q.kind.refusal, .refused, c)
  else
    match q.delivery.unsent with
    | some text =>
      (q.kind.unsent (str "send failed: " ++ text), .stopped,
        { state := .Error, lastError := str "send failed: " ++ text
          inbox := c.inbox ++ q.delivery.bytes })
    | none =>
      match c.drain q.delivery with
      | .ready out lastError rest =>
        (q.kind.completed out, .completed, { state := .Ready, lastError, inbox := rest })
      | .stopped out lastError rest =>
        (q.kind.stopped out lastError, .stopped, { state := .Error, lastError, inbox := rest })
      | .threw lastError rest => (.threw, .stopped, { state := .Busy, lastError, inbox := rest })

end Channel

end SpidoNG.Pg
