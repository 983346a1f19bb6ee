import SpidoNG.Lib.LittleEndian
import SpidoNG.Lib.Probing
import SpidoNG.Lib.Runs

/-!
# The entity cache

`EntityCache` (`spido-pg/src/entity_cache.cpp`) keeps single rows by table and primary key.
-/

namespace SpidoNG.Entity

open Bytes LittleEndian List Option Function

structure Key where
  table : UInt32
  pk : Bytes
  deriving DecidableEq

def fnv (pk : Bytes) : UInt64 :=
  pk.foldl (fun h c => (h ^^^ c.toUInt64) * 0x100000001b3) 0xcbf29ce484222325

def Key.hash (k : Key) : UInt64 :=
  let h := if 8 ≤ k.pk.length then UInt64.ofNat (getLE (k.pk.take 8)) else fnv k.pk
  let h := h ^^^ (k.table.toUInt64 * 0x9e3779b97f4a7c15)
  if h = 0 then 1 else h

def roundPow2Loop (n : ℕ) : ℕ → ℕ → ℕ
  | 0, p => p
  | fuel + 1, p => if p < n then roundPow2Loop n fuel (p * 2) else p

def roundPow2 (n : ℕ) : ℕ := roundPow2Loop n n 1

structure EntityCacheConfig where
  maxBytes : ℕ := 256 * 1024 * 1024
  shards : ℕ := 64
  slotsPerShard : ℕ := 1024
  probe : ℕ := 16
  deriving DecidableEq

def EntityCacheConfig.prepared (cfg : EntityCacheConfig) : EntityCacheConfig :=
  { cfg with
    shards := roundPow2 (max 1 cfg.shards)
    slotsPerShard := roundPow2 (max 16 cfg.slotsPerShard) }

def EntityCacheConfig.shardFor (cfg : EntityCacheConfig) (k : Key) : ℕ :=
  (k.hash.toNat >>> 32) &&& (cfg.shards - 1)

/-- The slots in which a key may stand. -/
def EntityCacheConfig.window (cfg : EntityCacheConfig) (k : Key) : List ℕ :=
  let base := k.hash.toNat &&& (cfg.slotsPerShard - 1)
  (List.range cfg.probe).map fun i => (base + i) &&& (cfg.slotsPerShard - 1)

structure EntityRow where
  data : Bytes := []
  version : ℕ := 0
  tombstone : Bool := false
  deriving DecidableEq

inductive EntityState
  | Clean
  | Dirty
  | Flushing
  | Tombstone
  deriving DecidableEq

def EntityState.unflushed : EntityState → Bool
  | .Clean => false
  | _ => true

structure Entry where
  key : Key
  row : EntityRow
  state : EntityState
  version : ℕ
  expiresAt : Option ℕ
  sizeBytes : ℕ
  deriving DecidableEq

structure Slot where
  entry : Option Entry := none
  pinned : Bool := false
  lastAccess : ℕ := 0
  deriving DecidableEq

structure Shard where
  slots : ℕ → Slot
  bytes : ℕ
  counter : ℕ

namespace Shard

def entries (sh : Shard) (j : ℕ) : Option Entry := (sh.slots j).entry

def setSlot (sh : Shard) (j : ℕ) (s : Slot) : Shard :=
  { sh with slots := update sh.slots j s }

def find (sh : Shard) (cfg : EntityCacheConfig) (k : Key) : Option ℕ :=
  Probing.find Entry.key sh.entries k (cfg.window k)

def touch (sh : Shard) (j : ℕ) : Shard :=
  { sh.setSlot j { sh.slots j with lastAccess := sh.counter + 1 } with counter := sh.counter + 1 }

def free (sh : Shard) (j : ℕ) (e : Entry) : Shard :=
  { sh.setSlot j { sh.slots j with entry := none } with bytes := sh.bytes - e.sizeBytes }

def setEntry (sh : Shard) (j : ℕ) (e : Entry) : Shard :=
  sh.setSlot j { sh.slots j with entry := some e }

def hit (sh : Shard) (cfg : EntityCacheConfig) (k : Key) : Option (ℕ × EntityRow) :=
  (Probing.walk Entry.key sh.entries k (cfg.window k)).bind fun j =>
    (sh.entries j).bind fun e => if e.state = .Tombstone then none else some (j, e.row)

def get (sh : Shard) (cfg : EntityCacheConfig) (k : Key) : Shard :=
  match sh.hit cfg k with
  | some (j, _) => sh.touch j
  | none => sh

structure Scan where
  target : Option ℕ := none
  empty : Option ℕ := none
  lru : Option ℕ := none
  seen : ℕ := 2 ^ 64 - 1
  deriving DecidableEq

def scan (sh : Shard) (k : Key) : List ℕ → Scan → Scan
  | [], found => found
  | j :: js, found =>
    match sh.entries j with
    | none => scan sh k js { found with empty := found.empty.or (some j) }
    | some e =>
      if e.key = k then { found with target := some j }
      else if !(sh.slots j).pinned && decide ((sh.slots j).lastAccess < found.seen) then
        scan sh k js { found with lru := some j, seen := (sh.slots j).lastAccess }
      else scan sh k js found

def evictable (sh : Shard) (j : ℕ) : Bool := (sh.entries j).all fun e => !e.state.unflushed

def target (sh : Shard) (cfg : EntityCacheConfig) (k : Key) : Option ℕ :=
  let found := sh.scan k (cfg.window k) {}
  found.target.or (found.empty.or (found.lru.filter sh.evictable))

def sizeofEntityRow : ℕ := 48

def newEntry (k : Key) (row : EntityRow) (isDirty : Bool) (ttl now : ℕ) : Entry :=
  { key := k
    row
    state := if isDirty then .Dirty else .Clean
    version := row.version
    expiresAt := if 0 < ttl then some (now + ttl) else none
    sizeBytes := sizeofEntityRow + row.data.length + k.pk.length + 64 }

def store (sh : Shard) (j : ℕ) (e : Entry) : Shard :=
  { slots := update sh.slots j
      { sh.slots j with entry := some e, lastAccess := sh.counter + 1 }
    bytes := sh.bytes - ((sh.entries j).map Entry.sizeBytes).getD 0 + e.sizeBytes
    counter := sh.counter + 1 }

def put (sh : Shard) (cfg : EntityCacheConfig) (k : Key) (row : EntityRow) (isDirty : Bool)
    (ttl now : ℕ) : Shard :=
  match sh.target cfg k with
  | none => sh
  | some j => sh.store j (newEntry k row isDirty ttl now)

def onEntry (sh : Shard) (cfg : EntityCacheConfig) (k : Key) (f : ℕ → Entry → Shard) : Shard :=
  match sh.find cfg k with
  | none => sh
  | some j =>
    match sh.entries j with
    | none => sh
    | some e => f j e

def erase (sh : Shard) (cfg : EntityCacheConfig) (k : Key) (version now : ℕ) : Shard :=
  let sh := sh.put cfg k { tombstone := true, version } true 0 now
  sh.onEntry cfg k fun j e => sh.setEntry j { e with state := .Tombstone }

def markFlushed (sh : Shard) (cfg : EntityCacheConfig) (k : Key) (version : ℕ) : Shard :=
  sh.onEntry cfg k fun j e =>
    if version < e.version then sh
    else if e.state = .Tombstone then sh.free j e
    else sh.setEntry j { e with state := .Clean }

def notifyRemoteVersion (sh : Shard) (cfg : EntityCacheConfig) (k : Key)
    (remoteVersion : ℕ) : Shard :=
  sh.onEntry cfg k fun j e =>
    if e.state = .Dirty ∨ e.state = .Flushing then sh
    else if remoteVersion ≤ e.version then sh
    else sh.free j e

def setPinned (sh : Shard) (cfg : EntityCacheConfig) (k : Key) (pinned : Bool) : Shard :=
  sh.onEntry cfg k fun j _ => sh.setSlot j { sh.slots j with pinned }

def expire (now : ℕ) (sh : Shard) (j : ℕ) : Shard :=
  match sh.entries j with
  | none => sh
  | some e =>
    if e.state.unflushed || (sh.slots j).pinned then sh
    else if e.expiresAt.any (· ≤ now) then sh.free j e
    else sh

def oldest (sh : Shard) : List ℕ → Option ℕ → ℕ → Option ℕ
  | [], victim, _ => victim
  | j :: js, victim, seen =>
    if (sh.entries j).any (fun e => e.state = .Clean) && !(sh.slots j).pinned &&
        decide ((sh.slots j).lastAccess < seen) then
      oldest sh js (some j) (sh.slots j).lastAccess
    else oldest sh js victim seen

def evictOver (quota nSlots : ℕ) : ℕ → Shard → Shard
  | 0, sh => sh
  | rounds + 1, sh =>
    if sh.bytes ≤ quota then sh
    else
      match sh.oldest (List.range nSlots) none (2 ^ 64 - 1) with
      | none => sh
      | some j =>
        match sh.entries j with
        | none => sh
        | some e => evictOver quota nSlots rounds (sh.free j e)

def sweep (sh : Shard) (cfg : EntityCacheConfig) (now : ℕ) : Shard :=
  evictOver (cfg.maxBytes / cfg.shards + 1) cfg.slotsPerShard cfg.slotsPerShard
    ((List.range cfg.slotsPerShard).foldl (expire now) sh)

end Shard

structure EntityCache where
  cfg : EntityCacheConfig
  shards : ℕ → Shard

inductive Op
  | get (k : Key)
  | put (k : Key) (row : EntityRow) (isDirty : Bool) (ttl now : ℕ)
  | erase (k : Key) (version now : ℕ)
  | markFlushed (k : Key) (version : ℕ)
  | notifyRemoteVersion (k : Key) (remoteVersion : ℕ)
  | setPinned (k : Key) (pinned : Bool)
  | sweep (now : ℕ)
  | getEntity (k : Key) (answer : Option Bytes) (now : ℕ)
  deriving DecidableEq

namespace EntityCache

def start (cfg : EntityCacheConfig) : EntityCache :=
  { cfg := cfg.prepared, shards := fun _ => { slots := fun _ => {}, bytes := 0, counter := 0 } }

def shardOf (c : EntityCache) (k : Key) : Shard := c.shards (c.cfg.shardFor k)

def onShard (c : EntityCache) (k : Key) (f : Shard → EntityCacheConfig → Key → Shard) :
    EntityCache :=
  { c with shards := update c.shards (c.cfg.shardFor k) (f (c.shardOf k) c.cfg k) }

def read (c : EntityCache) (k : Key) : Option EntityRow := ((c.shardOf k).hit c.cfg k).map Prod.snd

def getEntity (c : EntityCache) (k : Key) (answer : Option Bytes) (now : ℕ) : EntityCache :=
  let c' := c.onShard k Shard.get
  match c.read k, answer with
  | none, some data =>
    (c'.onShard k fun sh cfg k => sh.put cfg k { data, version := 1 } false 0 now).onShard
      k Shard.get
  | _, _ => c'

def step (c : EntityCache) : Op → EntityCache
  | .get k => c.onShard k Shard.get
  | .put k row isDirty ttl now => c.onShard k fun sh cfg k => sh.put cfg k row isDirty ttl now
  | .erase k version now => c.onShard k fun sh cfg k => sh.erase cfg k version now
  | .markFlushed k version => c.onShard k fun sh cfg k => sh.markFlushed cfg k version
  | .notifyRemoteVersion k remoteVersion =>
    c.onShard k fun sh cfg k => sh.notifyRemoteVersion cfg k remoteVersion
  | .setPinned k pinned => c.onShard k fun sh cfg k => sh.setPinned cfg k pinned
  | .sweep now => { c with shards := fun σ => (c.shards σ).sweep c.cfg now }
  | .getEntity k answer now => c.getEntity k answer now

end EntityCache

namespace Shard

variable {sh : Shard} {cfg : EntityCacheConfig} {k : Key} {j : ℕ} {e : Entry}

lemma entries_setSlot (sh : Shard) (j : ℕ) (s : Slot) :
    (sh.setSlot j s).entries = update sh.entries j s.entry := by
  funext i
  show (update sh.slots j s i).entry = _
  by_cases h : i = j
  · rw [h, update_self, update_self]
  · rw [update_of_ne h, update_of_ne h]
    rfl

@[simp] lemma entries_touch (sh : Shard) (j : ℕ) : (sh.touch j).entries = sh.entries :=
  (entries_setSlot sh j _).trans (update_eq_self j sh.entries)

@[simp] lemma entries_free (sh : Shard) (j : ℕ) (e : Entry) :
    (sh.free j e).entries = update sh.entries j none := entries_setSlot sh j _

@[simp] lemma entries_setEntry (sh : Shard) (j : ℕ) (e : Entry) :
    (sh.setEntry j e).entries = update sh.entries j (some e) := entries_setSlot sh j _

@[simp] lemma entries_store (sh : Shard) (j : ℕ) (e : Entry) :
    (sh.store j e).entries = update sh.entries j (some e) := entries_setSlot sh j _

section

variable (sh : Shard) (cfg : EntityCacheConfig) (k : Key)

lemma entries_get : (sh.get cfg k).entries = sh.entries := by
  unfold get
  split
  · exact entries_touch sh _
  · rfl

lemma onEntry_cases (f : ℕ → Entry → Shard) : sh.onEntry cfg k f = sh ∨
      ∃ j e, sh.entries j = some e ∧ e.key = k ∧ sh.onEntry cfg k f = f j e := by
  unfold onEntry
  cases hfind : sh.find cfg k with
  | none => exact .inl rfl
  | some j =>
    obtain ⟨e, he, hk⟩ := Probing.holds_of_find hfind
    refine .inr ⟨j, e, he, hk, ?_⟩
    simp only [he]

lemma entries_setPinned (pinned : Bool) : (sh.setPinned cfg k pinned).entries = sh.entries := by
  obtain h | ⟨j, e, -, -, h⟩ :=
    sh.onEntry_cases cfg k fun j _ => sh.setSlot j { sh.slots j with pinned }
  · rw [setPinned, h]
  · rw [setPinned, h, entries_setSlot]
    exact update_eq_self j sh.entries

end

inductive Target (cfg : EntityCacheConfig) (t : ℕ → Option Entry) (k : Key) (j : ℕ) : Prop
  | same (hmem : j ∈ cfg.window k) (h : Probing.Holds Entry.key t k j)
  | empty (hmem : j ∈ cfg.window k) (hnone : ∀ i ∈ cfg.window k, ¬ Probing.Holds Entry.key t k i)
      (h : t j = none) (hreach : Probing.Reaches t j (cfg.window k))
  | victim (hmem : j ∈ cfg.window k) (hnone : ∀ i ∈ cfg.window k, ¬ Probing.Holds Entry.key t k i)
      (hfull : ∀ i ∈ cfg.window k, (t i).isSome) {e : Entry} (h : t j = some e)
      (hclean : e.state.unflushed = false)

lemma Target.mem_window {t : ℕ → Option Entry} (h : Target cfg t k j) : j ∈ cfg.window k := by
  cases h <;> assumption

variable {js : List ℕ} {sh' : Shard}

lemma scan_target {found : Scan} (hfound : found.target = none) :
    (sh.scan k js found).target = Probing.find Entry.key sh.entries k js := by
  induction js generalizing found with
  | nil => exact hfound
  | cons i _ ih =>
    rw [scan, Probing.find, find?_cons]
    cases hi : sh.entries i with
    | none =>
      rw [show decide (Probing.Holds Entry.key sh.entries k i) = false by simp [Probing.Holds, hi]]
      exact ih hfound
    | some e =>
      rw [show decide (Probing.Holds Entry.key sh.entries k i) = decide (e.key = k) by
        simp [Probing.Holds, hi]]
      by_cases hkey : e.key = k
      · simp [hkey]
      · simp only [hkey, decide_false, if_false]
        split_ifs
        · exact ih hfound
        · exact ih hfound

structure Scanned (sh : Shard) (k : Key) (js : List ℕ) (found result : Scan) : Prop where
  absent : ∀ i ∈ js, ¬ Probing.Holds Entry.key sh.entries k i
  empty : result.empty = found.empty.or (js.find? fun i => (sh.entries i).isNone)
  lru : result.lru = found.lru ∧ result.seen = found.seen ∨ ∃ j ∈ js, (sh.entries j).isSome ∧
    (sh.slots j).pinned = false ∧ result.lru = some j ∧ result.seen = (sh.slots j).lastAccess
  low : ∀ i ∈ js, (sh.entries i).isSome → (sh.slots i).pinned = false →
    result.seen ≤ (sh.slots i).lastAccess
  le : result.seen ≤ found.seen

lemma Scanned.cons {i : ℕ} {found found' result : Scan}
    (h : Scanned sh k js found' result) (hi : sh.entries i = some e) (hkey : e.key ≠ k)
    (hemp : found'.empty = found.empty) (hlru : found'.lru = found.lru ∧ found'.seen = found.seen ∨
      found'.lru = some i ∧ found'.seen = (sh.slots i).lastAccess ∧ (sh.slots i).pinned = false)
    (hlow : (sh.slots i).pinned = false → found'.seen ≤ (sh.slots i).lastAccess)
    (hle : found'.seen ≤ found.seen) : Scanned sh k (i :: js) found result where
  absent := by
    intro a ha
    rcases mem_cons.1 ha with rfl | ha
    · rintro ⟨e', he', hk⟩
      rw [hi] at he'
      cases he'
      exact hkey hk
    · exact h.absent a ha
  empty := by rw [h.empty, hemp, find?_cons_of_neg (by rw [hi]; simp)]
  lru := by
    rcases h.lru with ⟨hl, hs⟩ | ⟨j, hj, hold⟩
    · rcases hlru with ⟨hl', hs'⟩ | ⟨hl', hs', hp⟩
      · exact .inl ⟨hl.trans hl', hs.trans hs'⟩
      · exact .inr ⟨i, mem_cons_self, by rw [hi]; rfl, hp, hl.trans hl', hs.trans hs'⟩
    · exact .inr ⟨j, mem_cons_of_mem _ hj, hold⟩
  low := by
    intro a ha hsome hp
    rcases mem_cons.1 ha with rfl | ha
    · exact h.le.trans (hlow hp)
    · exact h.low a ha hsome hp
  le := h.le.trans hle

lemma scanned {found : Scan} (h : (sh.scan k js found).target = none) :
    Scanned sh k js found (sh.scan k js found) := by
  induction js generalizing found with
  | nil =>
    refine ⟨fun i hi => absurd hi not_mem_nil, ?_, .inl ⟨rfl, rfl⟩, fun i hi =>
      absurd hi not_mem_nil,
      le_rfl⟩
    show found.empty = found.empty.or none
    rw [or_none]
  | cons i _ ih =>
    unfold scan at h ⊢
    cases hi : sh.entries i with
    | none =>
      simp only [hi] at h ⊢
      have hrest := ih h
      refine ⟨fun a ha => ?_, ?_, ?_, fun a ha hsome => ?_, hrest.le⟩
      · rcases mem_cons.1 ha with rfl | ha
        · rintro ⟨e, he, -⟩
          rw [hi] at he
          cases he
        · exact hrest.absent a ha
      · rw [hrest.empty, find?_cons_of_pos (by rw [hi]; rfl)]
        cases found.empty <;> rfl
      · exact hrest.lru.imp_right fun ⟨j, hj, hold⟩ => ⟨j, mem_cons_of_mem _ hj, hold⟩
      · rcases mem_cons.1 ha with rfl | ha
        · rw [hi] at hsome
          cases hsome
        · exact hrest.low a ha hsome
    | some =>
      simp only [hi] at h ⊢
      split at h
      · cases h
      case isFalse hkey =>
        rw [if_neg hkey]
        split at h
        case isTrue hlru =>
          rw [if_pos hlru]
          simp only [Bool.and_eq_true, Bool.not_eq_true', decide_eq_true_eq] at hlru
          exact (ih h).cons hi hkey rfl (.inr ⟨rfl, rfl, hlru.1⟩) (fun _ => le_rfl) hlru.2.le
        case isFalse hlru =>
          rw [if_neg hlru]
          simp only [Bool.and_eq_true, Bool.not_eq_true', decide_eq_true_eq, not_and,
            not_lt] at hlru
          exact (ih h).cons hi hkey rfl (.inl ⟨rfl, rfl⟩) hlru le_rfl

lemma target_spec (h : sh.target cfg k = some j) : Target cfg sh.entries k j := by
  unfold target at h
  dsimp only at h
  cases htarget : (sh.scan k (cfg.window k) {}).target with
  | some =>
    rw [htarget, some_or] at h
    cases h
    rw [scan_target rfl] at htarget
    exact .same (mem_of_find?_eq_some htarget) (Probing.holds_of_find htarget)
  | none =>
    have hscan := scanned htarget
    rw [htarget, none_or, hscan.empty, none_or] at h
    cases hemp : (cfg.window k).find? fun i => (sh.entries i).isNone with
    | some i =>
      rw [hemp, some_or] at h
      cases h
      exact .empty (mem_of_find?_eq_some hemp) hscan.absent
        (isNone_iff_eq_none.1 (find?_some (p := fun i => (sh.entries i).isNone) hemp))
        (Probing.reaches_of_find? (fun _ => isNone_eq_false_iff.1) hemp)
    | none =>
      rw [hemp, none_or] at h
      obtain ⟨hlru, hevc⟩ := filter_eq_some_iff.1 h
      rcases hscan.lru with ⟨hnone, -⟩ | ⟨i, hmem, hsome, -, hi, -⟩
      · cases hnone.symm.trans hlru
      obtain rfl : i = j := some.inj (hi.symm.trans hlru)
      obtain ⟨e, he⟩ := isSome_iff_exists.1 hsome
      refine .victim hmem hscan.absent (fun i hi => ?_) he ?_
      · have hi' := find?_eq_none.1 hemp i hi
        exact isNone_eq_false_iff.1 (Bool.eq_false_iff.2 hi')
      · unfold evictable at hevc
        rw [he] at hevc
        simpa using hevc

inductive Fill (cfg : EntityCacheConfig) (k : Key) (t : ℕ → Option Entry) :
    (ℕ → Option Entry) → Prop
  | fill {j : ℕ} {e : Entry} (hk : e.key = k) (ht : Target cfg t k j) :
      Fill cfg k t (update t j (some e))
  | amend {j : ℕ} {e : Entry} (hk : e.key = k) (he : t j = some e) (state : EntityState) :
      Fill cfg k t (update t j (some { e with state }))

abbrev Fills (cfg : EntityCacheConfig) (k : Key) := Relation.ReflTransGen (Fill cfg k)

section

variable (sh : Shard) (cfg : EntityCacheConfig) (k : Key)

lemma fills_put (row : EntityRow) (isDirty : Bool)
    (ttl now : ℕ) : Fills cfg k sh.entries (sh.put cfg k row isDirty ttl now).entries := by
  unfold put
  split
  · exact .refl
  case h_2 j hj =>
    rw [entries_store]
    exact .single (.fill rfl (target_spec hj))

lemma fills_erase (version now : ℕ) :
    Fills cfg k sh.entries (sh.erase cfg k version now).entries := by
  have hput := sh.fills_put cfg k { tombstone := true, version } true 0 now
  unfold erase
  obtain h | ⟨j, e, he, hk, h⟩ := onEntry_cases
    (sh.put cfg k { tombstone := true, version } true 0 now) cfg k fun j e =>
      (sh.put cfg k { tombstone := true, version } true 0 now).setEntry j
        { e with state := .Tombstone }
  · dsimp only
    rwa [h]
  · dsimp only
    rw [h, entries_setEntry]
    exact hput.tail (.amend hk he .Tombstone)

lemma markFlushed_cases (version : ℕ) : (sh.markFlushed cfg k version).entries = sh.entries ∨
    ∃ j e, sh.entries j = some e ∧ e.key = k ∧ e.version ≤ version ∧ (e.state = .Tombstone ∧
          (sh.markFlushed cfg k version).entries = update sh.entries j none ∨
        (sh.markFlushed cfg k version).entries =
          update sh.entries j (some { e with state := .Clean })) := by
  unfold markFlushed
  obtain h | ⟨j, e, he, hk, h⟩ := onEntry_cases sh cfg k fun j e =>
    if version < e.version then sh
    else if e.state = .Tombstone then sh.free j e
    else sh.setEntry j { e with state := .Clean }
  · exact .inl (by rw [h])
  · rw [h]
    split_ifs with hversion hst
    · exact .inl rfl
    · exact .inr ⟨j, e, he, hk, not_lt.1 hversion, .inl ⟨hst, entries_free sh j e⟩⟩
    · exact .inr ⟨j, e, he, hk, not_lt.1 hversion, .inr (entries_setEntry sh j _)⟩

lemma notifyRemoteVersion_cases (remoteVersion : ℕ) :
    (sh.notifyRemoteVersion cfg k remoteVersion).entries = sh.entries ∨
    ∃ j e, sh.entries j = some e ∧ e.key = k ∧ e.state ≠ .Dirty ∧ e.state ≠ .Flushing ∧
      e.version < remoteVersion ∧
      (sh.notifyRemoteVersion cfg k remoteVersion).entries = update sh.entries j none := by
  unfold notifyRemoteVersion
  obtain h | ⟨j, e, he, hk, h⟩ := onEntry_cases sh cfg k fun j e =>
    if e.state = .Dirty ∨ e.state = .Flushing then sh
    else if remoteVersion ≤ e.version then sh
    else sh.free j e
  · exact .inl (by rw [h])
  · rw [h]
    split_ifs with hst hversion
    · exact .inl rfl
    · exact .inl rfl
    · obtain ⟨hdirty, hflushing⟩ := not_or.1 hst
      exact .inr ⟨j, e, he, hk, hdirty, hflushing, not_le.1 hversion, entries_free sh j e⟩

end

def Sweepable (sh : Shard) (cfg : EntityCacheConfig) (now j : ℕ) : Prop :=
  ∃ e, sh.entries j = some e ∧ e.state.unflushed = false ∧ (sh.slots j).pinned = false ∧
    (e.expiresAt.any (· ≤ now) = true ∨ cfg.maxBytes / cfg.shards + 1 < sh.bytes)

structure Swept (sh : Shard) (cfg : EntityCacheConfig) (now : ℕ) (sh' : Shard) : Prop where
  entries : ∀ j, sh'.entries j = sh.entries j ∨ sh'.entries j = none ∧ sh.Sweepable cfg now j
  pinned : ∀ j, (sh'.slots j).pinned = (sh.slots j).pinned
  bytes : sh'.bytes ≤ sh.bytes

lemma Swept.refl (sh : Shard) (cfg : EntityCacheConfig) (now : ℕ) : Swept sh cfg now sh :=
  ⟨fun _ => .inl rfl, fun _ => rfl, le_rfl⟩

lemma Swept.free {now : ℕ} (h : Swept sh cfg now sh') (he : sh'.entries j = some e)
    (hclean : e.state.unflushed = false) (hpinned : (sh'.slots j).pinned = false)
    (hdue : e.expiresAt.any (· ≤ now) ∨ cfg.maxBytes / cfg.shards + 1 < sh'.bytes) :
    Swept sh cfg now (sh'.free j e) := by
  constructor
  case entries =>
    intro i
    rw [entries_free]
    by_cases hi : i = j
    · subst hi
      rw [update_self]
      rcases h.entries i with hold | ⟨hnone, -⟩
      · refine .inr ⟨rfl, e, hold ▸ he, hclean, (h.pinned i) ▸ hpinned, ?_⟩
        exact hdue.imp_right fun hlt => lt_of_lt_of_le hlt h.bytes
      · rw [he] at hnone
        cases hnone
    · rw [update_of_ne hi]
      exact h.entries i
  case pinned =>
    intro i
    show (update sh'.slots j { sh'.slots j with entry := none } i).pinned = _
    by_cases hi : i = j
    · subst hi
      rw [update_self]
      exact h.pinned i
    · rw [update_of_ne hi]
      exact h.pinned i
  case bytes => exact (Nat.sub_le _ _).trans h.bytes

lemma Swept.expire {now : ℕ} (h : Swept sh cfg now sh') (j : ℕ) :
    Swept sh cfg now (expire now sh' j) := by
  unfold Shard.expire
  split
  · exact h
  case h_2 e he =>
    split_ifs with hkeep hexp
    · exact h
    · obtain ⟨hclean, hpinned⟩ := Bool.or_eq_false_iff.1 (Bool.eq_false_iff.2 hkeep)
      exact h.free he hclean hpinned (.inl hexp)
    · exact h

lemma oldest_spec {victim : Option ℕ} {seen : ℕ} (h : sh.oldest js victim seen = some j) :
    victim = some j ∨ j ∈ js ∧
      (sh.entries j).any (fun e => e.state = .Clean) ∧ (sh.slots j).pinned = false := by
  induction js generalizing victim seen with
  | nil => exact .inl h
  | cons _ _ ih =>
    unfold oldest at h
    split at h
    case isTrue hi =>
      rcases ih h with hv | ⟨hmem, hv⟩
      · cases hv
        obtain ⟨hi, -⟩ := Bool.and_eq_true_iff.1 hi
        obtain ⟨hclean, hpinned⟩ := Bool.and_eq_true_iff.1 hi
        exact .inr ⟨mem_cons_self, hclean, by simpa using hpinned⟩
      · exact .inr ⟨mem_cons_of_mem _ hmem, hv⟩
    case isFalse => exact (ih h).imp_right fun ⟨hmem, hv⟩ => ⟨mem_cons_of_mem _ hmem, hv⟩

lemma Swept.evictOver {now nSlots rounds : ℕ} (h : Swept sh cfg now sh') :
    Swept sh cfg now (evictOver (cfg.maxBytes / cfg.shards + 1) nSlots rounds sh') := by
  induction rounds generalizing sh' with
  | zero => exact h
  | succ _ ih =>
    unfold Shard.evictOver
    split_ifs with hquo
    · exact h
    · split
      · exact h
      case _ j hj =>
        rcases oldest_spec hj with hnone | ⟨-, hclean, hpinned⟩
        · cases hnone
        split
        · exact h
        case _ e he =>
          rw [he] at hclean
          have hst : e.state = .Clean := of_decide_eq_true hclean
          exact ih (h.free he (by rw [hst]; rfl) hpinned (.inr (not_le.1 hquo)))

lemma swept_sweep (sh : Shard) (cfg : EntityCacheConfig) (now : ℕ) :
    Swept sh cfg now (sh.sweep cfg now) := by
  refine Swept.evictOver ?_
  generalize List.range cfg.slotsPerShard = js
  have hfold : ∀ sh', Swept sh cfg now sh' →
    Swept sh cfg now (js.foldl (Shard.expire now) sh') := by
    induction js with
    | nil => exact fun sh' h => h
    | cons j _ ih => exact fun sh' h => ih _ (h.expire j)
  exact hfold sh (.refl sh cfg now)

end Shard

def EntityCacheConfig.windowIn (cfg : EntityCacheConfig) (σ : ℕ) (k : Key) : List ℕ :=
  if cfg.shardFor k = σ then cfg.window k else []

abbrev EntityCacheConfig.Placed (cfg : EntityCacheConfig) (σ : ℕ) (t : ℕ → Option Entry) : Prop :=
  Probing.Placed Entry.key (cfg.windowIn σ) t

section Placement

variable {cfg : EntityCacheConfig} {σ j : ℕ} {k : Key} {t t' : ℕ → Option Entry} {e : Entry}

lemma EntityCacheConfig.windowIn_self (cfg : EntityCacheConfig) (k : Key) :
    cfg.windowIn (cfg.shardFor k) k = cfg.window k := if_pos rfl

lemma shardFor_of_placed (h : cfg.Placed σ t) (he : t j = some e) : cfg.shardFor e.key = σ := by
  have hmem := h.mem_window he
  unfold EntityCacheConfig.windowIn at hmem
  split at hmem
  · assumption
  · cases hmem

lemma eq_of_target (h : cfg.Placed (cfg.shardFor k) t) (ht : Shard.Target cfg t k j) {i : ℕ}
    (hi : Probing.Holds Entry.key t k i) : i = j := by
  have hmem := h.mem_window_of_holds hi
  rw [cfg.windowIn_self] at hmem
  cases ht with
  | same _ hj => exact h.eq_of_holds hi hj
  | empty _ hnone | victim _ hnone => exact absurd hi (hnone i hmem)

lemma placed_fill (h : cfg.Placed (cfg.shardFor k) t) (hfill : Shard.Fill cfg k t t') :
    cfg.Placed (cfg.shardFor k) t' := by
  cases hfill with
  | fill hk ht =>
    subst hk
    refine h.fill ?_ fun i hi => eq_of_target h ht hi
    rw [cfg.windowIn_self]
    exact ht.mem_window
  | @amend _ e _ he _ =>
    have hmem := h.mem_window he
    exact h.fill hmem fun i hi => h.eq_of_holds hi ⟨e, he, rfl⟩

lemma placed_fills (h : cfg.Placed (cfg.shardFor k) t) (hfills : Shard.Fills cfg k t t') :
    cfg.Placed (cfg.shardFor k) t' := by
  induction hfills with
  | refl => exact h
  | tail _ hfill ih => exact placed_fill ih hfill

lemma placed_free (h : cfg.Placed σ t) (j : ℕ) : cfg.Placed σ (update t j none) := by
  refine h.mono fun {i e} he => ?_
  by_cases hi : i = j
  · rw [hi, update_self] at he
    cases he
  · rwa [update_of_ne hi] at he

end Placement

namespace EntityCache

variable {c : EntityCache} {cfg : EntityCacheConfig} {k : Key} {op : Op} {e : Entry}

def Stores (c : EntityCache) (k : Key) (e : Entry) : Prop :=
  e.key = k ∧ ∃ j, (c.shardOf k).entries j = some e

def Sound (c : EntityCache) : Prop := ∀ σ, c.cfg.Placed σ (c.shards σ).entries

lemma cfg_onShard (c : EntityCache) (k : Key) (f : Shard → EntityCacheConfig → Key → Shard) :
    (c.onShard k f).cfg = c.cfg := rfl

lemma shards_onShard_self (c : EntityCache) (k : Key)
    (f : Shard → EntityCacheConfig → Key → Shard) :
    (c.onShard k f).shardOf k = f (c.shardOf k) c.cfg k := update_self _ _ _

lemma shards_onShard_of_ne {σ : ℕ} (f : Shard → EntityCacheConfig → Key → Shard)
    (h : σ ≠ c.cfg.shardFor k) : (c.onShard k f).shards σ = c.shards σ := update_of_ne h _ _

variable {f : Shard → EntityCacheConfig → Key → Shard}

lemma forall_onShard {P : ℕ → Shard → Prop}
    (h : ∀ σ, P σ (c.shards σ)) (hf : P (c.cfg.shardFor k) (f (c.shardOf k) c.cfg k)) (σ : ℕ) :
    P σ ((c.onShard k f).shards σ) := by
  by_cases hσ : σ = c.cfg.shardFor k
  · subst hσ
    have hself := c.shards_onShard_self k f
    unfold EntityCache.shardOf at hself
    rw [cfg_onShard] at hself
    rw [hself]
    exact hf
  · rw [shards_onShard_of_ne f hσ]
    exact h σ

section

variable (h : c.Sound)
include h

lemma Sound.onShard
    (hf : c.cfg.Placed (c.cfg.shardFor k) (f (c.shardOf k) c.cfg k).entries) :
    (c.onShard k f).Sound :=
  forall_onShard (P := fun σ sh => c.cfg.Placed σ sh.entries) h hf

lemma Sound.fills
    (hf : Shard.Fills c.cfg k (c.shardOf k).entries (f (c.shardOf k) c.cfg k).entries) :
    (c.onShard k f).Sound := h.onShard (placed_fills (h _) hf)

lemma Sound.get (k : Key) : (c.onShard k Shard.get).Sound :=
  h.fills (by rw [Shard.entries_get])

lemma Sound.getEntity (k : Key) (answer : Option Bytes) (now : ℕ) :
    (c.getEntity k answer now).Sound := by
  unfold EntityCache.getEntity
  split
  · exact ((h.get k).fills (Shard.fills_put _ _ _ _ _ _ _)).get k
  · exact h.get k

lemma Sound.markFlushed (k : Key) (version : ℕ) :
    (c.onShard k fun sh cfg k => sh.markFlushed cfg k version).Sound := by
  obtain hsame | ⟨j, e, he, hk, -, ⟨-, hfree⟩ | hclean⟩ :=
    (c.shardOf k).markFlushed_cases c.cfg k version
  · exact h.onShard (by rw [hsame]; exact h _)
  · exact h.onShard (by rw [hfree]; exact placed_free (h _) j)
  · exact h.fills (by rw [hclean]; exact .single (.amend hk he .Clean))

lemma Sound.notifyRemoteVersion (k : Key) (remoteVersion : ℕ) :
    (c.onShard k fun sh cfg k => sh.notifyRemoteVersion cfg k remoteVersion).Sound := by
  obtain hsame | ⟨j, e, -, -, -, -, -, hfree⟩ :=
    (c.shardOf k).notifyRemoteVersion_cases c.cfg k remoteVersion
  · exact h.onShard (by rw [hsame]; exact h _)
  · exact h.onShard (by rw [hfree]; exact placed_free (h _) j)

lemma Sound.sweep (now : ℕ) : (c.step (.sweep now)).Sound := by
  intro σ
  refine (h σ).mono fun {j e} he => ?_
  rcases ((c.shards σ).swept_sweep c.cfg now).entries j with hsame | ⟨hnone, -⟩
  · exact hsame ▸ he
  · cases hnone.symm.trans he

lemma Sound.step (op : Op) : (c.step op).Sound := by
  cases op with
  | get k => exact h.get k
  | put => exact h.fills (Shard.fills_put _ _ _ _ _ _ _)
  | erase => exact h.fills (Shard.fills_erase _ _ _ _ _)
  | markFlushed k version => exact h.markFlushed k version
  | notifyRemoteVersion k remoteVersion => exact h.notifyRemoteVersion k remoteVersion
  | setPinned => exact h.fills (by rw [Shard.entries_setPinned])
  | sweep now => exact h.sweep now
  | getEntity k answer now => exact h.getEntity k answer now

end

abbrev run (c : EntityCache) (ops : List Op) : Option EntityCache :=
  Runs.run (fun c op => some (c.step op)) c ops

lemma sound_start (cfg : EntityCacheConfig) : (start cfg).Sound :=
  fun _ => ⟨fun he => (some_ne_none _ he.symm).elim, fun he => (some_ne_none _ he.symm).elim⟩

end EntityCache

end SpidoNG.Entity
