import SpidoNG.Pg.Connection
import SpidoNG.Service.Config

/-!
# Requests and responses

`Request` and `Response` of `spido/include/spido`, and what the handlers read from a request.
-/

namespace SpidoNG.Service

open Bytes Pg

structure Request extends Http.Request where
  params : List (Bytes × Bytes)

namespace Request

def header (req : Request) (name : Bytes) : Bytes :=
  match req.headers.find? fun h => h.name.map Http.toLower == name.map Http.toLower with
  | some h => h.value
  | none => []

def param (req : Request) (name : Bytes) : Bytes :=
  match req.params.find? fun p => p.1 == name with
  | some p => p.2
  | none => []

def decodeChar (plusToSpace : Bool) (c : UInt8) : UInt8 := if plusToSpace && c == 43 then 32 else c

def decode (plusToSpace : Bool) : Bytes → Bytes
  | c :: h :: l :: s =>
    if c == 37 then
      match hexDigit h, hexDigit l with
      | some a, some b => UInt8.ofNat (a * 16 + b) :: decode plusToSpace s
      | _, _ => c :: decode plusToSpace (h :: l :: s)
    else decodeChar plusToSpace c :: decode plusToSpace (h :: l :: s)
  | s => s.map (decodeChar plusToSpace)

end Request

def pieces (sep : UInt8) (s : Bytes) : List Bytes :=
  let l := s.splitOn sep
  if l.getLast? = some [] then l.dropLast else l

def qparam (query key : Bytes) : Bytes :=
  match (pieces 38 query).find? fun p => p.takeWhile (· != 61) == key with
  | some p => (p.dropWhile (· != 61)).tail
  | none => []

def qparamHas (query key : Bytes) : Bool :=
  (pieces 38 query).any fun p => p.takeWhile (· != 61) == key

structure Response where
  status : ℤ := 200
  headers : List (Bytes × Bytes) := []
  body : Bytes := []

namespace Response

def setStatus (res : Response) (s : ℤ) : Response := { res with status := s }

def header (res : Response) (k v : Bytes) : Response :=
  { res with headers := res.headers ++ [(k, v)] }

def setContentType (res : Response) (ct : Bytes) : Response :=
  if res.headers.any fun h => h.1.map Http.toLower == str "content-type" then res
  else res.header (str "Content-Type") ct

def text (res : Response) (s : Bytes) : Response :=
  { res with body := s }.setContentType (str "text/plain; charset=utf-8")

def json (lib : Platform) (res : Response) (j : Json) : Response :=
  { res with body := j.dump lib }.setContentType (str "application/json")

def plain (s : ℤ) (t : Bytes) : Response := (setStatus {} s).text t

end Response

def sendDbError (lib : Platform) (r : PgResult) : Response :=
  (Response.setStatus {} 500).json lib
    (.object [(str "error", .string r.errorMessage), (str "sqlstate", .string r.errorCode)])

def sendErrors (lib : Platform) (errs : List Json) : Response :=
  (Response.setStatus {} 400).json lib (.object [(str "errors", .array errs)])

@[simp] lemma status_plain (k : ℤ) (t : Bytes) : (Response.plain k t).status = k := rfl

@[simp] lemma status_json (lib : Platform) (res : Response) (j : Json) :
    (res.json lib j).status = res.status := by
  unfold Response.json Response.setContentType
  split_ifs <;> rfl

@[simp] lemma status_sendDbError (lib : Platform) (r : PgResult) :
    (sendDbError lib r).status = 500 := rfl

@[simp] lemma status_sendErrors (lib : Platform) (errs : List Json) :
    (sendErrors lib errs).status = 400 := rfl

def FieldError.json (e : FieldError) : Json :=
  .object [(str "field", .string e.field), (str "message", .string e.message)]

def statusOk : Json := .object [(str "status", .string (str "ok"))]
def statusQueued : Json := .object [(str "status", .string (str "queued"))]

def base64urlVal (c : UInt8) : Option ℕ :=
  if 65 ≤ c && c ≤ 90 then some (c.toNat - 65)
  else if 97 ≤ c && c ≤ 122 then some (c.toNat - 71)
  else if 48 ≤ c && c ≤ 57 then some (c.toNat + 4)
  else if c == 45 then some 62
  else if c == 95 then some 63
  else none

def base64urlDecodeFrom (acc bits : ℕ) : Bytes → Option Bytes
  | [] => some []
  | c :: s =>
    match base64urlVal c with
    | none => if c == 61 then base64urlDecodeFrom acc bits s else none
    | some v =>
      let acc := (acc * 64 + v) % 2 ^ 32
      if 8 ≤ bits + 6 then
        (base64urlDecodeFrom acc (bits - 2) s).map (UInt8.ofNat (acc / 2 ^ (bits - 2) % 256) :: ·)
      else base64urlDecodeFrom acc (bits + 6) s

def base64urlDecode (s : Bytes) : Bytes := (base64urlDecodeFrom 0 0 s).getD []

def jwtPayload (req : Request) : Bytes :=
  let auth := req.header (str "Authorization")
  if auth.take 7 ≠ str "Bearer " ∧ auth.take 7 ≠ str "bearer " then []
  else
    let token := auth.drop 7
    let rest := token.dropWhile (· != 46)
    if rest = [] then []
    else
      let rest := rest.tail
      if rest.contains 46 then base64urlDecode (rest.takeWhile (· != 46)) else []

def jwtClaim (payload name : Bytes) : Bytes :=
  match JsonBody.parse payload with
  | none => []
  | some body => (body.get name).getD []

def userId (auth : AuthConfig) (own : Ownership) (req : Request) : Bytes :=
  match auth.type with
  | .jwt => jwtClaim (jwtPayload req) auth.userClaim
  | .header => req.header own.header

def rolesCsv (auth : AuthConfig) (header : Bytes) (req : Request) : Bytes :=
  match auth.type with
  | .jwt =>
    let csv := jwtClaim (jwtPayload req) auth.rolesClaim
    if csv.head? = some openBracket then
      ((csv.drop 1).take (csv.length - 2)).filter fun c => c != quote && c != 32
    else csv
  | .header => req.header header

def trim (s : Bytes) : Bytes := (s.dropWhile Http.isBlank).rdropWhile Http.isBlank

def anyRoleMatches (header : Bytes) (required : List Bytes) : Bool :=
  (pieces comma header).any fun role => required.contains (trim role)

def roleCheck (auth : AuthConfig) (perms : Option Perms) (header : Bytes) (req : Request) : Bool :=
  match perms with
  | none => true
  | some perms =>
    perms.roles.isEmpty || anyRoleMatches (rolesCsv auth header req) perms.roles

def bypassOwn (auth : AuthConfig) (perms : Option Perms) (header : Bytes) (req : Request) : Bool :=
  match perms with
  | none => false
  | some perms =>
    !perms.bypassOwnership.isEmpty &&
      anyRoleMatches (rolesCsv auth header req) perms.bypassOwnership

def isNumeric (raw : Bytes) : Bool :=
  let digits := if raw.head? = some 45 ∨ raw.head? = some 43 then raw.tail else raw
  !digits.isEmpty && digits.all fun c => 48 ≤ c && c ≤ 57

def signedNumber (raw : Bytes) : ℤ :=
  let digits := if raw.head? = some 45 ∨ raw.head? = some 43 then raw.tail else raw
  let n : ℤ := digits.foldl (fun n c => n * 10 + (c.toNat - 48 : ℤ)) 0
  if raw.head? = some 45 then -n else n

def pkParam (raw : Bytes) : PgParam :=
  if raw = [] then .null
  else if isNumeric raw ∧ -2 ^ 63 ≤ signedNumber raw ∧ signedNumber raw < 2 ^ 63 then
    .i8 (signedNumber raw)
  else .text raw

def jsonToRow (body : JsonBody) (columns : List Bytes) : List PgParam :=
  columns.map fun col =>
    if body.isNull col then .null
    else
      match body.get col with
      | none => .null
      | some v => .fromText v

end SpidoNG.Service
