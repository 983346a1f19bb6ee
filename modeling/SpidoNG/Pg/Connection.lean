import SpidoNG.Lib.LittleEndian

/-!
# Connections to PostgreSQL

`PgConnection` of `spido-pg/src/connection.cpp`.
-/

namespace SpidoNG.Pg

open Bytes

abbrev Oid := UInt32

def Oid.unknown : Oid := 0

def Oid.text : Oid := 25

structure PgParam where
  type : Oid := Oid.unknown
  isNull : Bool := false
  textFormat : Bool := false
  value : Bytes := []
  deriving DecidableEq

def PgParam.null : PgParam := { isNull := true }

def PgParam.text (v : Bytes) : PgParam := { type := Oid.text, value := v }

def PgParam.fromText (v : Bytes) : PgParam := { textFormat := true, value := v }

def PgParam.i8 (n : ℤ) : PgParam :=
  { type := 20, value := (LittleEndian.putLE 8 (n % 2 ^ 64).toNat).reverse }

def PgParam.i4 (n : ℤ) : PgParam :=
  { type := 23, value := (LittleEndian.putLE 4 (n % 2 ^ 32).toNat).reverse }

structure PgField where
  name : Bytes
  typeOid : Oid := Oid.unknown
  deriving DecidableEq

structure PgResult where
  fields : List PgField := []
  rows : List (List (Option Bytes)) := []
  tag : Bytes := []
  hadError : Bool := false
  errorCode : Bytes := []
  errorMessage : Bytes := []
  deriving DecidableEq

def PgResult.ok (r : PgResult) : Bool := !r.hadError

def PgResult.error (msg : Bytes) : PgResult := { hadError := true, errorMessage := msg }

def PgResult.cutShort (r : PgResult) (lastError : Bytes) : PgResult :=
  if r.hadError then r else { r with hadError := true, errorMessage := lastError }

def getBE (bs : Bytes) : ℤ := Int.bmod (LittleEndian.getLE bs.reverse) (256 ^ bs.length)

namespace PgResult

def cell (r : PgResult) (i c : ℕ) : Option Bytes := ((r.rows[i]?).bind fun row => row[c]?).join

def i4 (r : PgResult) (i c : ℕ) : Option ℤ :=
  (r.cell i c).bind fun b => if b.length < 4 then none else some (getBE (b.take 4))

def i8 (r : PgResult) (i c : ℕ) : Option ℤ :=
  (r.cell i c).bind fun b => if b.length < 8 then none else some (getBE (b.take 8))

def f8 (r : PgResult) (i c : ℕ) : Option UInt64 :=
  (r.cell i c).bind fun b =>
    if b.length < 8 then none else some (UInt64.ofNat (LittleEndian.getLE (b.take 8).reverse))

def b (r : PgResult) (i c : ℕ) : Option Bool := (r.cell i c).bind fun b => b.head?.map (· != 0)

end PgResult

inductive ConnState
  | Disconnected
  | Connecting
  | Authenticating
  | Ready
  | Busy
  | Error
  deriving DecidableEq

inductive Reply
  | ready (r : PgResult)
  | failed (r : PgResult) (lastError : Bytes)

inductive Message
  | query (session : ℕ) (sql : Bytes)
  | parse (session : ℕ) (name sql : Bytes) (ok : Bool)
  | bind (session : ℕ) (name : Bytes) (params : List PgParam)
  deriving DecidableEq

structure StmtHandle where
  name : Bytes
  paramTypes : List Oid
  epoch : UInt64

structure PgConnection where
  fd : ℤ := -1
  state : ConnState := .Disconnected
  epoch : UInt64 := 1
  session : ℕ := 0
  deriving DecidableEq

namespace PgConnection

def isReady (c : PgConnection) : Bool := c.state == .Ready

def close (c : PgConnection) : PgConnection :=
  { c with fd := -1, state := .Disconnected, epoch := c.epoch + 1 }

def connect (c : PgConnection) (fd : ℤ) (session : ℕ) : PgConnection :=
  { c.close with fd := fd, state := .Ready, session := session }

def exec (c : PgConnection) (sql : Bytes) (reply : Reply) :
    PgResult × PgConnection × List Message :=
  if c.state ≠ .Ready then (.error (str "connection not ready"), c, [])
  else
    match reply with
    | .ready r => (r, c, [.query c.session sql])
    | .failed r e =>
      (r.cutShort (if e = [] then str "drain failed" else e), { c with state := .Error },
        [.query c.session sql])

def prepare (c : PgConnection) (name sql : Bytes) (types : List Oid) (reply : Reply) :
    StmtHandle × PgConnection × List Message :=
  let h : StmtHandle := ⟨name, types, c.epoch⟩
  if c.state ≠ .Ready then (h, c, [])
  else
    match reply with
    | .ready r =>
      (if r.hadError then { h with name := [] } else h, c, [.parse c.session name sql r.ok])
    | .failed _ _ => (h, { c with state := .Error }, [.parse c.session name sql false])

def execPrepared (c : PgConnection) (h : StmtHandle) (params : List PgParam) (reply : Reply) :
    PgResult × PgConnection × List Message :=
  if c.state ≠ .Ready ∨ h.name = [] then (.error (str "not ready or unprepared"), c, [])
  else
    match reply with
    | .ready r => (r, c, [.bind c.session h.name params])
    | .failed r e => (r.cutShort e, { c with state := .Error }, [.bind c.session h.name params])

structure Follows (c' c : PgConnection) : Prop where
  fd : c'.fd = c.fd
  epoch : c'.epoch = c.epoch
  session : c'.session = c.session
  ready : c'.state = .Ready → c.state = .Ready

variable (c : PgConnection)
include c

lemma Follows.refl : Follows c c := ⟨rfl, rfl, rfl, id⟩

lemma follows_error : Follows { c with state := .Error } c :=
  ⟨rfl, rfl, rfl, nofun⟩

lemma follows_exec (sql : Bytes) (reply : Reply) : Follows (c.exec sql reply).2.1 c := by
  unfold exec
  split_ifs
  · exact .refl c
  · cases reply with
    | ready => exact .refl c
    | failed => exact follows_error c

lemma follows_prepare (name sql : Bytes) (types : List Oid) (reply : Reply) :
    Follows (c.prepare name sql types reply).2.1 c := by
  unfold prepare
  split_ifs
  · exact .refl c
  · cases reply with
    | ready => exact .refl c
    | failed => exact follows_error c

lemma follows_execPrepared (h : StmtHandle) (params : List PgParam)
    (reply : Reply) : Follows (c.execPrepared h params reply).2.1 c := by
  unfold execPrepared
  split_ifs
  · exact .refl c
  · cases reply with
    | ready => exact .refl c
    | failed => exact follows_error c

lemma exec_msgs (sql : Bytes) (reply : Reply) :
    (c.exec sql reply).2.2 = [] ∨ (c.exec sql reply).2.2 = [.query c.session sql] := by
  unfold exec
  split_ifs
  · exact .inl rfl
  · cases reply with
    | ready | failed => exact .inr rfl

lemma prepare_msgs (name sql : Bytes) (types : List Oid) (reply : Reply) :
    ((c.prepare name sql types reply).2.1.state ≠ .Ready ∧
        (c.prepare name sql types reply).2.2 = []) ∨
      ∃ ok, (c.prepare name sql types reply).2.2 = [.parse c.session name sql ok] ∧
        ((c.prepare name sql types reply).2.1.state = .Ready →
          (∀ r, reply = .ready r → r.hadError = false) → ok) := by
  unfold prepare
  split_ifs with hready
  · exact .inl ⟨hready, rfl⟩
  · cases reply with
    | ready r => exact .inr ⟨r.ok, rfl, fun _ h => by simp [PgResult.ok, h r rfl]⟩
    | failed => exact .inr ⟨false, rfl, nofun⟩

lemma execPrepared_msgs (h : StmtHandle) (params : List PgParam)
    (reply : Reply) : (c.execPrepared h params reply).2.2 = [] ∨
      (c.state = .Ready ∧ (c.execPrepared h params reply).2.2
        = [.bind c.session h.name params]) := by
  unfold execPrepared
  split_ifs with hready
  · exact .inl rfl
  · push Not at hready
    cases reply with
    | ready | failed => exact .inr ⟨hready.1, rfl⟩

end PgConnection

end SpidoNG.Pg
