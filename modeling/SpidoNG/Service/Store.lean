import SpidoNG.Lib.Separated
import SpidoNG.Service.Effects

/-!
# What the database layer answers

`Db::query_cached` and `Db::get_entity` (`spido-pg/src/db.cpp`) over a database and the contents of
the two caches.
-/

namespace SpidoNG.Service

open Bytes Pg List LittleEndian

structure Caches where
  digest : Bytes → Bytes
  result : Bytes → Option PgResult
  entity : (table : ℕ) → (pk : Bytes) → Option Bytes
  stored : (table : ℕ) → (pk row : Bytes) → Option Bytes

/-- The bytes of one parameter: type, NULL flag and value. -/
def paramText (p : PgParam) : Bytes :=
  LittleEndian.putLE 4 p.type.toNat ++ (if p.isNull then 1 else 0) :: (p.value ++ [0xfe])

/-- What `make_cache_key` hashes. -/
def cacheKeyText (sql : Bytes) (params : List PgParam) : Bytes :=
  sql ++ 0xff :: params.flatMap paramText

/-- The part `a` ends at its separator `s` in front of `r` where `a'` goes on: `a'` has `s` and the
beginning of `r` in it. -/
def Swallowed (s : UInt8) (a r a' r' : Bytes) : Prop := ∃ x, a' = a ++ s :: x ∧ r = x ++ s :: r'

/-- Parameters that agree in type, NULL flag and value, whatever their formats, up to the end or to
a value in which the separator and what follows it elsewhere occur. -/
inductive Alike : List PgParam → List PgParam → Prop
  | nil : Alike [] []
  | same {p p' : PgParam} {ps ps' : List PgParam} (htype : p.type = p'.type)
      (hnull : p.isNull = p'.isNull) (hvalue : p.value = p'.value) (h : Alike ps ps') :
      Alike (p :: ps) (p' :: ps')
  | swallowed {p p' : PgParam} {ps ps' : List PgParam} (htype : p.type = p'.type)
      (hnull : p.isNull = p'.isNull)
      (h : Swallowed 0xfe p.value (ps.flatMap paramText) p'.value (ps'.flatMap paramText) ∨
        Swallowed 0xfe p'.value (ps'.flatMap paramText) p.value (ps.flatMap paramText)) :
      Alike (p :: ps) (p' :: ps')

/-- Two queries that `make_cache_key` does not tell apart. -/
def Confused (sql : Bytes) (params : List PgParam) (sql' : Bytes) (params' : List PgParam) : Prop :=
  sql = sql' ∧ Alike params params' ∨
    Swallowed 0xff sql (params.flatMap paramText) sql' (params'.flatMap paramText) ∨
    Swallowed 0xff sql' (params'.flatMap paramText) sql (params.flatMap paramText)

lemma append_cons_eq_iff {s : UInt8} {a r a' r' : Bytes} : a ++ s :: r = a' ++ s :: r' ↔
    a = a' ∧ r = r' ∨ Swallowed s a r a' r' ∨ Swallowed s a' r' a r := by
  constructor
  · intro h
    rcases append_eq_append_iff.1 h with ⟨b, rfl, hb⟩ | ⟨b, rfl, hb⟩
    all_goals
      cases b with
      | nil => simp_all
      | cons c x =>
        obtain ⟨rfl, hr⟩ := List.cons.inj hb
        simp [Swallowed, hr]
  · rintro (⟨rfl, rfl⟩ | ⟨x, rfl, rfl⟩ | ⟨x, rfl, rfl⟩) <;> simp

lemma paramText_append_eq_iff {p p' : PgParam} {rest rest' : Bytes} :
    paramText p ++ rest = paramText p' ++ rest' ↔ p.type = p'.type ∧ p.isNull = p'.isNull ∧
      p.value ++ 0xfe :: rest = p'.value ++ 0xfe :: rest' := by
  simp only [paramText, append_assoc, cons_append, nil_append]
  constructor
  · intro h
    obtain ⟨htype, h⟩ := append_inj h (by simp)
    obtain ⟨hnull, h⟩ := List.cons.inj h
    have hword := congrArg getLE htype
    rw [getLE_putLE_of_lt p.type.toNat_lt, getLE_putLE_of_lt p'.type.toNat_lt] at hword
    refine ⟨UInt32.toNat_inj.1 hword, ?_, h⟩
    cases hn : p.isNull <;> cases hn' : p'.isNull <;> simp_all
  · rintro ⟨htype, hnull, hrest⟩
    rw [htype, hnull, hrest]

lemma params_eq_iff_alike {params params' : List PgParam} :
    params.flatMap paramText = params'.flatMap paramText ↔ Alike params params' := by
  induction params generalizing params' with
  | nil =>
    cases params' with
    | nil => exact ⟨fun _ => .nil, fun _ => rfl⟩
    | cons => exact ⟨fun h => by simp [paramText] at h, fun h => by cases h⟩
  | cons p params ih =>
    cases params' with
    | nil => exact ⟨fun h => by simp [paramText] at h, fun h => by cases h⟩
    | cons p' params' =>
      rw [flatMap_cons, flatMap_cons, paramText_append_eq_iff, append_cons_eq_iff]
      constructor
      · rintro ⟨htype, hnull, ⟨hvalue, hrest⟩ | hswallowed⟩
        · exact .same htype hnull hvalue (ih.1 hrest)
        · exact .swallowed htype hnull hswallowed
      · rintro (_ | ⟨htype, hnull, hvalue, h⟩ | ⟨htype, hnull, h⟩)
        · exact ⟨htype, hnull, .inl ⟨hvalue, ih.2 h⟩⟩
        · exact ⟨htype, hnull, .inr h⟩

def Caches.key (c : Caches) (sql : Bytes) (params : List PgParam) : Bytes :=
  c.digest (cacheKeyText sql params)

def entityData (r : PgResult) : Bytes :=
  (List.range r.fields.length).flatMap fun i => (r.cell 0 i).getD [] ++ [0]

section

variable (B : Backend) (c : Caches) (db : Database)

def dbQueryCached (q : Select) (params : List PgParam) : PgResult :=
  (c.result (c.key q.render params)).getD (B.query db q params)

def dbGetEntity (table : ℕ) (pk : Bytes) (q : Select) (params : List PgParam) : Option Bytes :=
  match c.entity table pk with
  | some row => some row
  | none =>
    let r := B.query db q params
    if r.hadError ∨ r.rows.isEmpty then none else c.stored table pk (entityData r)

def answers : (op : Op) → op.Res
  | .queryCached q params _ _ => dbQueryCached B c db q params
  | .getEntity table pk q params => dbGetEntity B c db table pk q params
  | .tryAcquire | .checkout => true
  | .execPrepared _ _ _ _ | .exec _ => PgResult.error []
  | .walAppend _ => (0 : ℕ)
  | .markDirty _ | .enqueue _ _ _ | .invalidateTable _ | .log _ => ()

end

end SpidoNG.Service
