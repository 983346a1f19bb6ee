import SpidoNG.Service.Message

/-!
# From results to responses

The functions of `service_helpers.h` that write a result as JSON.
-/

namespace SpidoNG.Service

open Bytes Pg

inductive CellKind
  | int4
  | int8
  | float
  | bool
  | json
  | text

def cellKind (oid : Oid) : CellKind :=
  if oid = 21 ∨ oid = 23 then .int4
  else if oid = 20 then .int8
  else if oid = 700 ∨ oid = 701 then .float
  else if oid = 16 then .bool
  else if oid = 114 then .json
  else .text

def kindOf (r : PgResult) (c : ℕ) : CellKind :=
  cellKind ((r.fields[c]?).elim Oid.unknown (·.typeOid))

def nameOf (r : PgResult) (c : ℕ) : Bytes := (r.fields[c]?).elim [] (·.name)

def decodeCell (r : PgResult) (i c : ℕ) : Option Json :=
  match kindOf r c with
  | .int4 => (r.i4 i c).map .int
  | .int8 => (r.i8 i c).map .int
  | .float => (r.f8 i c).map .double
  | .bool => (r.b i c).map .bool
  | .json | .text => (r.cell i c).map .string

def extractValue (r : PgResult) (i c : ℕ) : Json := (decodeCell r i c).getD .null

def rowToJson (r : PgResult) (i : ℕ) : Json :=
  .object ((List.range r.fields.length).filterMap fun c =>
    match r.cell i c with
    | none => some (nameOf r c, .null)
    | some _ => (decodeCell r i c).map fun v => (nameOf r c, v))

def resultToJson (r : PgResult) : Json := .array ((List.range r.rows.length).map (rowToJson r))

def resultToJsonObject (r : PgResult) : Json := if r.rows.isEmpty then .null else rowToJson r 0

def cellText (lib : Platform) (r : PgResult) (i c : ℕ) : Bytes :=
  match kindOf r c with
  | .json => (r.cell i c).getD (str "null")
  | _ => (extractValue r i c).dump lib

def rowToJsonString (lib : Platform) (r : PgResult) (n i : ℕ) : Bytes :=
  openBrace :: (commaSeparated ((List.range n).map fun c =>
    emitJsonStr (nameOf r c) ++ 58 :: cellText lib r i c) ++ [closeBrace])

def resultToJsonString (lib : Platform) (r : PgResult) (nCols : ℕ) : Bytes :=
  openBracket :: (commaSeparated ((List.range r.rows.length).map (rowToJsonString lib r nCols)) ++
    [closeBracket])

def singleRowToJsonString (lib : Platform) (r : PgResult) (i : ℕ) : Bytes :=
  rowToJsonString lib r r.fields.length i

def fnv1a64 (s : Bytes) : UInt64 :=
  s.foldl (fun h c => (h ^^^ UInt64.ofNat c.toNat) * 0x100000001b3) 0xcbf29ce484222325

def hex16 (n : UInt64) : Bytes :=
  (List.range 16).map fun i => hexChar (n.toNat / 16 ^ (15 - i) % 16)

def sendWithEtag (req : Request) (body : Bytes) (etagEnabled : Bool) : Response :=
  let etag := quote :: (hex16 (fnv1a64 body) ++ [quote])
  let res : Response := if etagEnabled then Response.header {} (str "ETag") etag else {}
  if etagEnabled ∧ req.header (str "If-None-Match") = etag then res.setStatus 304
  else ({ res with body := body }.header (str "Content-Type")
    (str "application/json")).setStatus 200

end SpidoNG.Service
