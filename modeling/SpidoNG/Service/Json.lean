import SpidoNG.Lib.Bytes

/-!
# JSON in the handlers

`JsonBody` of `spido_pg/json.h` reads request bodies; `Json` of `spido/json.h` makes responses.
-/

namespace SpidoNG.Service

open Bytes

def quote : UInt8 := 34
def backslash : UInt8 := 92
def comma : UInt8 := 44
def openBrace : UInt8 := 123
def closeBrace : UInt8 := 125
def openBracket : UInt8 := 91
def closeBracket : UInt8 := 93

def isWs (c : UInt8) : Bool := c == 32 || c == 9 || c == 10 || c == 13

def skipWs (s : Bytes) : Bytes := s.dropWhile isWs

def utf8 (cp : ℕ) : Bytes :=
  if cp < 0x80 then [UInt8.ofNat cp]
  else if cp < 0x800 then [UInt8.ofNat (0xC0 ||| cp >>> 6), UInt8.ofNat (0x80 ||| (cp &&& 0x3F))]
  else [UInt8.ofNat (0xE0 ||| cp >>> 12), UInt8.ofNat (0x80 ||| (cp >>> 6 &&& 0x3F)),
    UInt8.ofNat (0x80 ||| (cp &&& 0x3F))]

def unescape (e : UInt8) : Option UInt8 :=
  if e == quote || e == backslash || e == 47 then some e
  else if e == 110 then some 10
  else if e == 116 then some 9
  else if e == 114 then some 13
  else if e == 98 then some 8
  else if e == 102 then some 12
  else none

def parseStringRest : Bytes → Option (Bytes × Bytes)
  | [] => none
  | c :: s =>
    if c == quote then some ([], s)
    else if c == backslash then
      match s with
      | [] => none
      | e :: s =>
        if e == 117 then
          match s with
          | h1 :: h2 :: h3 :: h4 :: s =>
            match hexDigit h1, hexDigit h2, hexDigit h3, hexDigit h4 with
            | some a, some b, some c, some d =>
              (parseStringRest s).map fun p => (utf8 (((a * 16 + b) * 16 + c) * 16 + d) ++ p.1, p.2)
            | _, _, _, _ => none
          | _ => none
        else
          match unescape e with
          | some x => (parseStringRest s).map fun p => (x :: p.1, p.2)
          | none => none
    else (parseStringRest s).map fun p => (c :: p.1, p.2)

def parseString : Bytes → Option (Bytes × Bytes)
  | [] => none
  | c :: s => if c == quote then parseStringRest s else none

def skipNested (o c : UInt8) : Bytes → (depth : ℕ) → (inString skip : Bool) → Option Bytes
  | [], _, _, _ => none
  | d :: s, depth, true, skip =>
    if skip then skipNested o c s depth true false
    else if d == backslash then skipNested o c s depth true true
    else if d == quote then skipNested o c s depth false false
    else skipNested o c s depth true false
  | d :: s, depth, false, _ =>
    if d == quote then skipNested o c s depth true false
    else if d == o then skipNested o c s (depth + 1) false false
    else if d == c then (if depth ≤ 1 then some s else skipNested o c s (depth - 1) false false)
    else skipNested o c s depth false false

def isDelimiter (c : UInt8) : Bool := c == comma || c == closeBrace || c == closeBracket || isWs c

def parseValueRaw (s : Bytes) : Option (Bytes × Bytes) :=
  let s := skipWs s
  match s with
  | [] => none
  | c :: _ =>
    if c == openBrace || c == openBracket then
      (skipNested c (if c == openBrace then closeBrace else closeBracket) s 0 false false).map
        fun rest => (s.take (s.length - rest.length), rest)
    else
      let v := s.takeWhile fun c => !isDelimiter c
      if v = [] then none else some (v, s.drop v.length)

structure JsonBody where
  fields : List (Bytes × Bytes) := []
  nulls : List Bytes := []
  deriving DecidableEq

namespace JsonBody

def get (b : JsonBody) (key : Bytes) : Option Bytes :=
  (b.fields.find? fun p => p.1 == key).map (·.2)

def isNull (b : JsonBody) (key : Bytes) : Bool := b.nulls.contains key

def parseMembers : ℕ → JsonBody → Bytes → Option JsonBody
  | 0, _, _ => none
  | n + 1, b, s =>
    match parseString (skipWs s) with
    | none => none
    | some (key, s) =>
      match skipWs s with
      | [] => none
      | c :: s =>
        if c != 58 then none
        else
          let s := skipWs s
          let member : Option (JsonBody × Bytes) :=
            match s with
            | [] => none
            | c :: _ =>
              if c == quote then
                (parseString s).map fun p => ({ b with fields := b.fields ++ [(key, p.1)] }, p.2)
              else
                (parseValueRaw s).map fun p =>
                  (if p.1 = str "null" then { b with nulls := b.nulls ++ [key] }
                    else { b with fields := b.fields ++ [(key, p.1)] }, p.2)
          match member with
          | none => none
          | some (b, s) =>
            match skipWs s with
            | [] => none
            | c :: s =>
              if c == comma then parseMembers n b s
              else if c == closeBrace then some b
              else none

def parse (body : Bytes) : Option JsonBody :=
  match skipWs body with
  | [] => none
  | c :: s =>
    if c != openBrace then none
    else
      match skipWs s with
      | [] => none
      | c :: s' => if c == closeBrace then some {} else parseMembers (body.length + 1) {} (c :: s')

end JsonBody

structure Platform where
  formatDouble : UInt64 → Bytes

inductive Json
  | null
  | bool (b : Bool)
  | int (n : ℤ)
  | double (bits : UInt64)
  | string (s : Bytes)
  | array (elems : List Json)
  | object (members : List (Bytes × Json))

def toString (n : ℤ) : Bytes := if n < 0 then 45 :: decimal n.natAbs else decimal n.natAbs

def hexChar (n : ℕ) : UInt8 := UInt8.ofNat (if n < 10 then 48 + n else 87 + n)

def escapeChar (c : UInt8) : Bytes :=
  if c == quote then str "\\\""
  else if c == backslash then str "\\\\"
  else if c == 10 then str "\\n"
  else if c == 13 then str "\\r"
  else if c == 9 then str "\\t"
  else if c == 8 then str "\\b"
  else if c == 12 then str "\\f"
  else if c < 0x20 then str "\\u00" ++ [hexChar (c.toNat / 16), hexChar (c.toNat % 16)]
  else [c]

def emitJsonStr (s : Bytes) : Bytes := quote :: (s.flatMap escapeChar ++ [quote])

def commaSeparated (xs : List Bytes) : Bytes := List.intercalate [comma] xs

namespace Json

mutual

def dump (lib : Platform) : Json → Bytes
  | .null => str "null"
  | .bool b => if b then str "true" else str "false"
  | .int n => toString n
  | .double d => lib.formatDouble d
  | .string s => emitJsonStr s
  | .array elems => openBracket :: (commaSeparated (dumpElems lib elems) ++ [closeBracket])
  | .object members => openBrace :: (commaSeparated (dumpMembers lib members) ++ [closeBrace])

def dumpElems (lib : Platform) : List Json → List Bytes
  | [] => []
  | e :: es => dump lib e :: dumpElems lib es

def dumpMembers (lib : Platform) : List (Bytes × Json) → List Bytes
  | [] => []
  | (k, v) :: ms => (emitJsonStr k ++ 58 :: dump lib v) :: dumpMembers lib ms

end

end Json

end SpidoNG.Service
