import Mathlib.Data.List.DropRight
import SpidoNG.Lib.Bytes
import SpidoNG.Lib.Incremental

/-!
# The HTTP/1.1 request parser

`HttpParser::parse` of `spido/src/server/http_parser.cpp`.
-/

namespace SpidoNG.Http

open Bytes Incremental Incremental.Reader

def SP : UInt8 := 32
def HT : UInt8 := 9
def CR : UInt8 := 13
def LF : UInt8 := 10
def colon : UInt8 := 58
def question : UInt8 := 63

def isToken (c : UInt8) : Bool :=
  (97 ≤ c && c ≤ 122) || (65 ≤ c && c ≤ 90) || (48 ≤ c && c ≤ 57) ||
    (str "!#$%&'*+-.^_`|~").contains c

def toLower (c : UInt8) : UInt8 := if 65 ≤ c && c ≤ 90 then c ||| 0x20 else c

def eqLit (a lit : Bytes) : Bool := a == lit

def ieqLit (a litLower : Bytes) : Bool := a.map toLower == litLower

def isBlank (c : UInt8) : Bool := c == SP || c == HT

inductive Method
  | Unknown
  | GET
  | POST
  | PUT
  | DELETE
  | HEAD
  | OPTIONS
  | PATCH
  deriving DecidableEq

def methodFrom (s : Bytes) : Method :=
  if s = str "GET" then .GET
  else if s = str "PUT" then .PUT
  else if s = str "POST" then .POST
  else if s = str "HEAD" then .HEAD
  else if s = str "PATCH" then .PATCH
  else if s = str "DELETE" then .DELETE
  else if s = str "OPTIONS" then .OPTIONS
  else .Unknown

inductive HeaderKind
  | Other
  | ContentLength
  | Connection
  | TransferEncoding
  deriving DecidableEq

def headerKind (name : Bytes) : HeaderKind :=
  if eqLit name (str "Connection") || ieqLit name (str "connection") then .Connection
  else if eqLit name (str "Content-Length") || ieqLit name (str "content-length") then
    .ContentLength
  else if eqLit name (str "Transfer-Encoding") || ieqLit name (str "transfer-encoding") then
    .TransferEncoding
  else .Other

structure Header where
  name : Bytes
  value : Bytes
  deriving DecidableEq

structure Request where
  method : Method
  path : Bytes
  query : Bytes
  version : Bytes
  headers : List Header
  body : Bytes
  keepAlive : Bool
  deriving DecidableEq

inductive Reject
  | badRequest
  | tooLarge
  deriving DecidableEq

def readMethod : Reader Reject UInt8 Method := do
  let m ← scanTo (· == SP) (fun c => !isToken c) .badRequest
  if methodFrom m = .Unknown then reject .badRequest
  else do
    let _ ← symbol
    pure (methodFrom m)

def readTarget : Reader Reject UInt8 Bytes := do
  let t ← scanTo (· == SP) (· == CR) .badRequest
  let _ ← symbol
  pure t

def splitTarget (target : Bytes) : Bytes × Bytes :=
  (target.takeWhile (· != question), (target.dropWhile (· != question)).tail)

def readVersion : Reader Reject UInt8 Bytes := fun xs =>
  if xs.length < 8 then (if CR ∈ xs then .fail .badRequest else .more)
  else if xs.take 8 ≠ str "HTTP/1.1" ∧ xs.take 8 ≠ str "HTTP/1.0" then
    (if CR ∈ xs then .fail .badRequest else .more)
  else if xs.length < 10 then .more
  else if (xs.drop 8).take 2 ≠ [CR, LF] then .fail .badRequest
  else .ok (xs.take 8) (xs.drop 10)

def parseContentLengthFrom (maxBody : ℕ) : ℕ → Bytes → Option ℕ
  | v, [] => some v
  | v, c :: cs =>
    if c < 48 || 57 < c then none
    else
      let digit := c.toNat - 48
      if v > (sizeMax - digit) / 10 then some (wrap (maxBody + 1))
      else if v * 10 + digit > maxBody then some (v * 10 + digit)
      else parseContentLengthFrom maxBody (v * 10 + digit) cs

def parseContentLength (value : Bytes) (maxBody : ℕ) : Option ℕ :=
  parseContentLengthFrom maxBody 0 value

structure Head where
  method : Method
  path : Bytes
  query : Bytes
  version : Bytes
  keepAlive : Bool
  headers : List Header
  contentLength : ℕ
  hasCl : Bool
  hasTeChunked : Bool

def readValue : Reader Reject UInt8 Bytes := fun xs =>
  match scanTo (· == CR) (fun _ => false) .badRequest (xs.dropWhile isBlank) with
  | .more => .more
  | .fail e => .fail e
  | .ok v rest => .ok (v.rdropWhile isBlank) rest

def readLF : Reader Reject UInt8 Unit := do
  let c ← symbol
  if c = LF then pure () else reject .badRequest

def readHeaderLine : Reader Reject UInt8 Header := do
  let name ← scanTo (· == colon) (fun c => !isToken c) .badRequest
  let _ ← symbol
  let value ← readValue
  let _ ← symbol
  readLF
  pure ⟨name, value⟩

def addHeader (maxBody : ℕ) (s : Head) (h : Header) : Except Reject Head :=
  let s' := { s with headers := s.headers ++ [h] }
  match headerKind h.name with
  | .ContentLength =>
    match parseContentLength h.value maxBody with
    | none => .error .badRequest
    | some v =>
      if v > maxBody then .error .tooLarge
      else .ok { s' with contentLength := v, hasCl := true }
  | .Connection =>
    if eqLit h.value (str "close") || ieqLit h.value (str "close") then
      .ok { s' with keepAlive := false }
    else if eqLit h.value (str "keep-alive") || ieqLit h.value (str "keep-alive") then
      .ok { s' with keepAlive := true }
    else .ok s'
  | .TransferEncoding =>
    if eqLit h.value (str "chunked") || ieqLit h.value (str "chunked") then
      .ok { s' with hasTeChunked := true }
    else .error .badRequest
  | .Other => .ok s'

def headerStep (maxBody : ℕ) (s : Head) : Reader Reject UInt8 (Head ⊕ Head) := do
  let c ← peek
  if c = CR then do
    let _ ← symbol
    readLF
    pure (.inr s)
  else do
    let h ← readHeaderLine
    match addHeader maxBody s h with
    | .error e => reject e
    | .ok s' => pure (.inl s')

def readHead (maxBody : ℕ) : Reader Reject UInt8 Head := do
  let method ← readMethod
  let target ← readTarget
  let version ← readVersion
  iterate (headerStep maxBody)
    { method := method
      path := (splitTarget target).1
      query := (splitTarget target).2
      version := version
      keepAlive := version == str "HTTP/1.1"
      headers := []
      contentLength := 0
      hasCl := false
      hasTeChunked := false }

def memmove (buf : Bytes) (dst src n : ℕ) : Bytes :=
  buf.take dst ++ (buf.drop src).take n ++ buf.drop (dst + n)

/-- The body region: bytes already written, stale bytes, and unread bytes. -/
structure Cursor where
  body : Bytes
  gap : Bytes
  rest : Bytes
  deriving DecidableEq

def Cursor.bytes (c : Cursor) : Bytes := c.body ++ c.gap ++ c.rest

def Cursor.skip (c : Cursor) (n : ℕ) : Cursor :=
  { c with gap := c.gap ++ c.rest.take n, rest := c.rest.drop n }

def Cursor.move (c : Cursor) (n : ℕ) : Cursor where
  body := c.body ++ c.rest.take n
  gap := (c.gap ++ c.rest.take n).drop n
  rest := c.rest.drop n

def hexVal (c : UInt8) : Option ℕ :=
  if 48 ≤ c && c ≤ 57 then some (c.toNat - 48)
  else if 97 ≤ c && c ≤ 102 then some (c.toNat - 97 + 10)
  else if 65 ≤ c && c ≤ 70 then some (c.toNat - 65 + 10)
  else none

def hexDigits : ℕ → Bytes → Except Reject (ℕ × Bytes)
  | size, [] => .ok (size, [])
  | size, c :: cs =>
    match hexVal c with
    | none => .ok (size, c :: cs)
    | some hv =>
      if size > (sizeMax - hv) / 16 then .error .tooLarge
      else hexDigits (size * 16 + hv) cs

def readChunkSize : Reader Reject UInt8 ℕ := fun xs =>
  match hexDigits 0 xs with
  | .error e => .fail e
  | .ok (size, rest) =>
    if rest.length = xs.length then .fail .badRequest
    else
      match rest.dropWhile (fun c => c != CR && c != LF) with
      | a :: b :: tl => if a = CR ∧ b = LF then .ok size tl else .fail .badRequest
      | _ => .more

def trailerStep (_ : Unit) : Reader Reject UInt8 (Unit ⊕ Unit)
  | a :: b :: tl =>
    if a = CR ∧ b = LF then .ok (.inr ()) tl
    else
      match scanTo (· == CR) (fun _ => false) .badRequest (a :: b :: tl) with
      | .ok _ (_ :: c :: tl') => if c = LF then .ok (.inl ()) tl' else .fail .badRequest
      | .ok _ _ => .fail .badRequest
      | .fail e => .fail e
      | .more => .more
  | _ => .more

def readTrailers : Reader Reject UInt8 Unit := iterate trailerStep ()

/-- How decoding stops, and the body region it leaves. `outOfBounds` is no status of the source:
the bound check has wrapped around and `memmove` runs past the end of the buffer. -/
inductive ChunkEnd
  | needMore (c : Cursor)
  | reject (e : Reject) (c : Cursor)
  | done (c : Cursor)
  | outOfBounds

def decodeChunks (maxBody : ℕ) : ℕ → Cursor → ChunkEnd
  | 0, c => .needMore c
  | n + 1, c =>
    match readChunkSize c.rest with
    | .more => .needMore c
    | .fail e => .reject e c
    | .ok size rest =>
      let c1 := c.skip (c.rest.length - rest.length)
      if size = 0 then
        match readTrailers rest with
        | .more => .needMore c1
        | .fail e => .reject e c1
        | .ok _ rest' => .done (c1.skip (rest.length - rest'.length))
      else if size > maxBody then .reject .tooLarge c1
      else if wrap (c.body.length + size) > maxBody then .reject .tooLarge c1
      else if rest.length < wrap (size + 2) then .needMore c1
      else if rest.length < size + 2 then .outOfBounds
      else
        let c2 := c1.move size
        if c2.rest.take 2 = [CR, LF] then decodeChunks maxBody n (c2.skip 2)
        else .reject .badRequest c2

inductive Result
  | needMore
  | done (req : Request) (consumed : ℕ)
  | badRequest
  | tooLarge
  | outOfBounds
  deriving DecidableEq

def Reject.result : Reject → Result
  | .badRequest => .badRequest
  | .tooLarge => .tooLarge

@[simp] lemma Reject.result_ne_done (e : Reject) (req : Request) (used : ℕ) :
    e.result ≠ .done req used := by
  cases e <;> simp [Reject.result]

def Head.request (h : Head) (body : Bytes) : Request where
  method := h.method
  path := h.path
  query := h.query
  version := h.version
  headers := h.headers
  body := body
  keepAlive := h.keepAlive

def parseBody (data : Bytes) (maxBody headerBytes : ℕ) (h : Head) (rest : Bytes) : Result × Bytes :=
  if h.hasTeChunked && h.hasCl then (.badRequest, data)
  else if h.hasTeChunked then
    let region := fun c : Cursor => data.take headerBytes ++ c.bytes
    match decodeChunks maxBody (rest.length + 1) ⟨[], [], rest⟩ with
    | .needMore c => (.needMore, region c)
    | .reject e c => (e.result, region c)
    | .done c => (.done (h.request c.body) (headerBytes + (rest.length - c.rest.length)), region c)
    | .outOfBounds => (.outOfBounds, data)
  else if h.hasCl then
    if h.contentLength > maxBody then (.tooLarge, data)
    else if h.contentLength > rest.length then (.needMore, data)
    else (.done (h.request (rest.take h.contentLength)) (headerBytes + h.contentLength), data)
  else (.done (h.request []) headerBytes, data)

def parse (data : Bytes) (maxBody : UInt64) : Result × Bytes :=
  match readHead maxBody.toNat data with
  | .more => (.needMore, data)
  | .fail e => (e.result, data)
  | .ok h rest => parseBody data maxBody.toNat (data.length - rest.length) h rest

end SpidoNG.Http
