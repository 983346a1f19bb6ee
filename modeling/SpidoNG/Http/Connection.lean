import SpidoNG.Http.Parser

/-!
# The input side of a connection

`IoUringWorker::process_input`: the parser is run on the connection buffer again and again.
-/

namespace SpidoNG.Http

inductive Stop
  | needMore
  | badRequest
  | tooLarge
  | closed
  | outOfBounds
  deriving DecidableEq

structure Processed where
  requests : List Request
  stop : Stop
  input : Bytes

def processFor (maxBody : UInt64) : ℕ → Bytes → Processed
  | 0, input => ⟨[], .needMore, input⟩
  | n + 1, input =>
    match parse input maxBody with
    | (.needMore, input') => ⟨[], .needMore, input'⟩
    | (.badRequest, input') => ⟨[], .badRequest, input'⟩
    | (.tooLarge, input') => ⟨[], .tooLarge, input'⟩
    | (.outOfBounds, input') => ⟨[], .outOfBounds, input'⟩
    | (.done req used, input') =>
      if req.keepAlive then
        let p := processFor maxBody n (input'.drop used)
        ⟨req :: p.requests, p.stop, p.input⟩
      else ⟨[req], .closed, input'.drop used⟩

def processInput (maxBody : UInt64) (input : Bytes) : Processed :=
  processFor maxBody (input.length + 1) input

/-- `handle_recv`, up to the request that ends the connection. -/
def handleRecv (maxBody : UInt64) (c : Processed) (piece : Bytes) : Processed :=
  match c.stop with
  | .needMore =>
    let p := processInput maxBody (c.input ++ piece)
    ⟨c.requests ++ p.requests, p.stop, p.input⟩
  | _ => c

def receiveAll (maxBody : UInt64) (pieces : List Bytes) : Processed :=
  pieces.foldl (handleRecv maxBody) ⟨[], .needMore, []⟩

end SpidoNG.Http
