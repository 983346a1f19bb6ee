import SpidoNG.Cache.L1
import SpidoNG.Lib.Interaction

/-!
# The query cache

`QueryCache` of `spido-pg/src/cache.cpp`.
-/

namespace SpidoNG.Cache

open Bytes Function

structure CacheConfig (V : Type) where
  l1Capacity : ℕ
  l2MaxBytes : ℕ
  resultSizeBytes : V → ℕ

def kShards : ℕ := 64

def kSlotsPerShard : ℕ := 1024

def kProbeRange : ℕ := 16

def keyHash (key : Bytes) : UInt64 :=
  nonzero (if 16 ≤ key.length then loadWord key ^^^ (loadWord (key.drop 8) * 0x9e3779b97f4a7c15)
    else fnv1a key)

def shardFor (h : UInt64) : ℕ := h.toNat / 2 ^ 32 % kShards

def slotFor (h : UInt64) : ℕ := h.toNat % kSlotsPerShard

structure Loc where
  shard : ℕ
  slot : ℕ
  deriving DecidableEq

def probes (key : Bytes) : List Loc :=
  (List.range kProbeRange).map fun i =>
    ⟨shardFor (keyHash key), (slotFor (keyHash key) + i) % kSlotsPerShard⟩

@[irreducible] def shardSlots (shard : ℕ) : List Loc :=
  (List.range kSlotsPerShard).map fun i => ⟨shard, i⟩

structure Entry (V : Type) where
  key : Bytes
  tableTag : Bytes
  value : ValuePtr V
  expiresAt : ℕ
  sizeBytes : ℕ

structure Slot (Tid V : Type) where
  entry : Option (Entry V)
  owner : Option Tid
  lastUsed : ℕ

def Slot.hash {Tid V : Type} (s : Slot Tid V) : UInt64 :=
  (s.entry.map fun e => keyHash e.key).getD 0

def Slot.lookup {Tid V : Type} (s : Slot Tid V) (key : Bytes) : Option (Entry V) :=
  s.entry.filter fun e => e.key = key

structure State (Tid V : Type) where
  slots : Loc → Slot Tid V
  bytes : ℕ → ℕ
  counter : ℕ → ℕ
  tags : Bytes → List Bytes
  dirty : Bytes → ℕ
  l1 : Tid → L1 V

namespace State

variable {Tid V : Type}

def empty : State Tid V :=
  ⟨fun _ => ⟨none, none, 0⟩, fun _ => 0, fun _ => 0, fun _ => [], fun _ => 0, fun _ => L1.empty⟩

def vacate (σ : State Tid V) (l : Loc) (owner : Option Tid) : State Tid V :=
  { σ with
    slots := update σ.slots l ⟨none, owner, (σ.slots l).lastUsed⟩
    bytes := update σ.bytes l.shard
      (σ.bytes l.shard - ((σ.slots l).entry.map Entry.sizeBytes).getD 0) }

def touch (σ : State Tid V) (l : Loc) : State Tid V :=
  { σ with
    slots := update σ.slots l { σ.slots l with lastUsed := σ.counter l.shard + 1 }
    counter := update σ.counter l.shard (σ.counter l.shard + 1) }

def fill (σ : State Tid V) (l : Loc) (e : Entry V) : State Tid V :=
  { σ with
    slots := update σ.slots l ⟨some e, none, σ.counter l.shard + 1⟩
    counter := update σ.counter l.shard (σ.counter l.shard + 1)
    bytes := update σ.bytes l.shard (σ.bytes l.shard + e.sizeBytes) }

def setOwner (σ : State Tid V) (l : Loc) (owner : Option Tid) : State Tid V :=
  { σ with slots := update σ.slots l { σ.slots l with owner := owner } }

def isDirty (σ : State Tid V) (table : Bytes) : Bool := 0 < σ.dirty table

def slotDirty (σ : State Tid V) (l : Loc) : Bool :=
  match (σ.slots l).entry with
  | none => false
  | some e => e.tableTag ≠ [] && σ.isDirty e.tableTag

variable [DecidableEq Tid]

def setL1 (σ : State Tid V) (t : Tid) (l1 : L1 V) : State Tid V :=
  { σ with l1 := update σ.l1 t l1 }

end State

inductive CacheOp (V : Type)
  | now
  | l1Init
  | l1Find (key : Bytes)
  | l1Put (key : Bytes) (v : ValuePtr V) (expires : ℕ)
  | l1Clear
  | loadHash (l : Loc)
  | loadLastUsed (l : Loc)
  | readSlot (l : Loc) (key : Bytes)
  | confirm (l : Loc) (key : Bytes)
  | pinned (l : Loc) (locked : Bool)
  | claim (l : Loc)
  | publish (l : Loc) (e : Entry V)
  | eraseKey (l : Loc) (key : Bytes)
  | evict (l : Loc)
  | shardBytes (shard : ℕ)
  | addTag (tag key : Bytes)
  | popTag (tag : Bytes)
  | markDirty (table : Bytes)
  | markClean (table : Bytes)
  | isDirty (table : Bytes)
  | sweepLock (l : Loc) (now : ℕ)
  | sweepErase (l : Loc)

@[reducible] def CacheOp.Res {V : Type} : CacheOp V → Type
  | now => ℕ
  | l1Find _ => Option (ValuePtr V)
  | loadHash _ => UInt64
  | loadLastUsed _ => ℕ
  | readSlot _ _ => Option (ValuePtr V × ℕ)
  | confirm _ _ => Bool
  | pinned _ _ => Bool
  | eraseKey _ _ => Bool
  | shardBytes _ => ℕ
  | popTag _ => List Bytes
  | isDirty _ => Bool
  | sweepLock _ _ => Bool
  | _ => Unit

variable {Tid V : Type} [DecidableEq Tid]

/-- An atomic step of a thread on the shared cache. -/
def exec (cfg : CacheConfig V) (clock : ℕ) (t : Tid) :
    (op : CacheOp V) → State Tid V → Option (op.Res × State Tid V)
  | .now, σ => some (clock, σ)
  | .l1Init, σ => some ((), σ.setL1 t ((σ.l1 t).init cfg.l1Capacity))
  | .l1Find key, σ => some (((σ.l1 t).findRaw key).1, σ.setL1 t ((σ.l1 t).findRaw key).2)
  | .l1Put key v expires, σ => some ((), σ.setL1 t ((σ.l1 t).put key v expires))
  | .l1Clear, σ => some ((), σ.setL1 t (σ.l1 t).clear)
  | .loadHash l, σ => some ((σ.slots l).hash, σ)
  | .loadLastUsed l, σ => some ((σ.slots l).lastUsed, σ)
  | .readSlot l key, σ =>
    if (σ.slots l).owner.isSome then none
    else
      match (σ.slots l).lookup key with
      | none => some (none, σ)
      | some e => some (some (e.value, e.expiresAt), σ.touch l)
  | .confirm l key, σ =>
    if (σ.slots l).owner.isSome then none else some (((σ.slots l).lookup key).isSome, σ)
  | .pinned l locked, σ =>
    if locked && (σ.slots l).owner.isSome then none else some (σ.slotDirty l, σ)
  | .claim l, σ => if (σ.slots l).owner.isSome then none else some ((), σ.vacate l (some t))
  | .publish l e, σ => some ((), σ.fill l e)
  | .eraseKey l key, σ =>
    if (σ.slots l).owner.isSome then none
    else if ((σ.slots l).lookup key).isSome then some (true, σ.vacate l none)
    else some (false, σ)
  | .evict l, σ => if (σ.slots l).owner.isSome then none else some ((), σ.vacate l none)
  | .shardBytes shard, σ => some (σ.bytes shard, σ)
  | .addTag tag key, σ =>
    some ((), { σ with tags := update σ.tags tag (σ.tags tag ++ [key]) })
  | .popTag tag, σ => some (σ.tags tag, { σ with tags := update σ.tags tag [] })
  | .markDirty table, σ =>
    some ((), { σ with dirty := update σ.dirty table (σ.dirty table + 1) })
  | .markClean table, σ =>
    some ((), { σ with dirty := update σ.dirty table (σ.dirty table - 1) })
  | .isDirty table, σ => some (σ.isDirty table, σ)
  | .sweepLock l now, σ =>
    match (σ.slots l).owner, (σ.slots l).entry with
    | none, some e =>
      if now < e.expiresAt || σ.isDirty e.tableTag then some (false, σ)
      else some (true, σ.setOwner l (some t))
    | _, _ => some (false, σ)
  | .sweepErase l, σ => some ((), σ.vacate l none)

section Programs

@[reducible] def OpRes {X : Type} (XRes : X → Type) : CacheOp V ⊕ X → Type
  | .inl op => op.Res
  | .inr x => XRes x

abbrev Code (V : Type) {X : Type} (XRes : X → Type) (α : Type) :=
  Prog (CacheOp V ⊕ X) (OpRes XRes) α

variable {X : Type} {XRes : X → Type}

def atomic (op : CacheOp V) : Code V XRes op.Res := Prog.perform (Sum.inl op)

def getL2 (key : Bytes) : List Loc → Code V XRes (Option (ValuePtr V))
  | [] => pure none
  | l :: ls => do
    let h : UInt64 ← atomic (.loadHash l)
    if h = 0 then return none
    else if h ≠ keyHash key then getL2 key ls
    else
      let r : Option (ValuePtr V × ℕ) ← atomic (.readSlot l key)
      match r with
      | none => getL2 key ls
      | some (v, expires) => do
        atomic (.l1Put key v expires)
        return some v

def get (key : Bytes) : Code V XRes (Option (ValuePtr V)) := do
  atomic .l1Init
  let hit : Option (ValuePtr V) ← atomic (.l1Find key)
  match hit with
  | some v => return some v
  | none => getL2 key (probes key)

structure Scan where
  target : Option Loc
  emptySlot : Option Loc
  lruVictim : Option Loc

def uint64Max : ℕ := 2 ^ 64 - 1

def hasKey (key : Bytes) (l : Loc) (h : UInt64) : Code V XRes Bool :=
  if h = keyHash key then atomic (.confirm l key) else pure false

def scan (key : Bytes) : List Loc → Option Loc → Option Loc → ℕ → Code V XRes Scan
  | [], emptySlot, lruVictim, _ => pure ⟨none, emptySlot, lruVictim⟩
  | l :: ls, emptySlot, lruVictim, lruSeen => do
    let h : UInt64 ← atomic (.loadHash l)
    if h = 0 then scan key ls (emptySlot <|> some l) lruVictim lruSeen
    else
      let found ← hasKey key l h
      if found then return ⟨some l, emptySlot, lruVictim⟩
      else
        let lu : ℕ ← atomic (.loadLastUsed l)
        if lu < lruSeen then scan key ls emptySlot (some l) lu
        else scan key ls emptySlot lruVictim lruSeen

def unpinned (victim : Loc) : List Loc → Code V XRes Loc
  | [] => pure victim
  | l :: ls => do
    let dirty : Bool ← atomic (.pinned l true)
    if dirty then unpinned victim ls else return l

def chooseTarget (key : Bytes) (found : Scan) : Code V XRes (Option Loc) :=
  match found.target <|> found.emptySlot with
  | some l => pure (some l)
  | none =>
    match found.lruVictim with
    | none => pure none
    | some victim => do
      let dirty : Bool ← atomic (.pinned victim true)
      if dirty then some <$> unpinned victim (probes key) else return some victim

def oldestSlot : List Loc → Option Loc → ℕ → Code V XRes (Option Loc)
  | [], victim, _ => pure victim
  | l :: ls, victim, oldest => do
    let h : UInt64 ← atomic (.loadHash l)
    if h = 0 then oldestSlot ls victim oldest
    else
      let dirty : Bool ← atomic (.pinned l false)
      if dirty then oldestSlot ls victim oldest
      else
        let lu : ℕ ← atomic (.loadLastUsed l)
        if lu < oldest then oldestSlot ls (some l) lu else oldestSlot ls victim oldest

def enforceQuota (shard quota : ℕ) : ℕ → Code V XRes Bool
  | 0 => pure false
  | fuel + 1 => do
    let bytes : ℕ ← atomic (.shardBytes shard)
    if bytes ≤ quota then return true
    else
      match ← oldestSlot (shardSlots shard) none uint64Max with
      | none => return true
      | some victim => do
        atomic (.evict victim)
        enforceQuota shard quota fuel

def writeSlot (l : Loc) (e : Entry V) : Code V XRes Unit := do
  atomic (.claim l)
  atomic (.publish l e)
  if e.tableTag ≠ [] then atomic (.addTag e.tableTag e.key)

def put (cfg : CacheConfig V) (serial fuel : ℕ) (key : Bytes) (value : V) (ttl : ℕ)
    (tableTag : Bytes) : Code V XRes (Option (ValuePtr V)) := do
  let now : ℕ ← atomic .now
  let found ← scan key (probes key) none none uint64Max
  match ← chooseTarget key found with
  | none => return some ⟨serial, value⟩
  | some target => do
    writeSlot target ⟨key, tableTag, ⟨serial, value⟩, now + ttl, cfg.resultSizeBytes value⟩
    let within ← enforceQuota (shardFor (keyHash key)) (cfg.l2MaxBytes / kShards + 1) fuel
    if within then do
      atomic .l1Init
      return some ⟨serial, value⟩
    else return none

def eraseFrom (key : Bytes) : List Loc → Code V XRes Unit
  | [] => pure ()
  | l :: ls => do
    let h : UInt64 ← atomic (.loadHash l)
    if h ≠ keyHash key then eraseFrom key ls
    else
      let erased : Bool ← atomic (.eraseKey l key)
      if erased then return () else eraseFrom key ls

def eraseKeys : List Bytes → Code V XRes Unit
  | [] => pure ()
  | key :: keys => do
    eraseFrom key (probes key)
    eraseKeys keys

def invalidateTable (table : Bytes) : Code V XRes Unit := do
  let keys : List Bytes ← atomic (.popTag table)
  eraseKeys keys
  atomic .l1Clear

def resetThreadL1 : Code V XRes Unit := atomic .l1Clear

def sweepSlots (now : ℕ) : List Loc → Code V XRes Unit
  | [] => pure ()
  | l :: ls => do
    let h : UInt64 ← atomic (.loadHash l)
    if h = 0 then sweepSlots now ls
    else
      let expired : Bool ← atomic (.sweepLock l now)
      if expired then do
        atomic (.sweepErase l)
        sweepSlots now ls
      else sweepSlots now ls

def sweep : Code V XRes Unit := do
  let now : ℕ ← atomic .now
  sweepSlots now ((List.range kShards).flatMap shardSlots)

end Programs

inductive CacheCall (V : Type)
  | get (key : Bytes)
  | put (key : Bytes) (value : V) (ttl : ℕ) (tableTag : Bytes)
  | invalidateTable (table : Bytes)
  | resetThreadL1
  | markDirty (table : Bytes)
  | markClean (table : Bytes)
  | isDirty (table : Bytes)
  | sweep

@[reducible] def CacheCall.Ret : CacheCall V → Type
  | .get _ => Option (ValuePtr V)
  | .put _ _ _ _ => ValuePtr V
  | .isDirty _ => Bool
  | _ => Unit

def CacheCall.body (cfg : CacheConfig V) {X : Type} {XRes : X → Type} (serial fuel : ℕ) :
    (c : CacheCall V) → Code V XRes (Option c.Ret)
  | .get key => some <$> Cache.get key
  | .put key value ttl tableTag => Cache.put cfg serial fuel key value ttl tableTag
  | .invalidateTable table => some <$> Cache.invalidateTable table
  | .resetThreadL1 => some <$> Cache.resetThreadL1
  | .markDirty table => some <$> atomic (.markDirty table)
  | .markClean table => some <$> atomic (.markClean table)
  | .isDirty table => some <$> atomic (.isDirty table)
  | .sweep => some <$> Cache.sweep

end SpidoNG.Cache
