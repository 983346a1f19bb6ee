import SpidoNG.Jwt.Verifier
import SpidoNG.Lib.Recency

/-!
# The map and the list of the cache

`JwtCache` is a list of nodes, those used last in front, and a hash map from keys to nodes.
-/

namespace SpidoNG.Jwt

open Recency List Option Function

structure Node where
  addr : ℕ
  key : Bytes
  entry : JwtCacheEntry
  deriving DecidableEq

structure LinkedCache where
  capacity : ℕ
  lru : List Node := []
  map : Bytes → Option ℕ := fun _ => none
  fresh : ℕ := 0

namespace LinkedCache

def make (capacity : ℕ) : LinkedCache := { capacity := if capacity = 0 then 1 else capacity }

def deref (c : LinkedCache) (a : ℕ) : Option Node := c.lru.find? (·.addr == a)

def toFront (c : LinkedCache) (x : Node) : LinkedCache :=
  { c with lru := x :: c.lru.filter (·.addr != x.addr) }

def find (c : LinkedCache) (key : Bytes) : Option Node := (c.map key).bind c.deref

def lookup (c : LinkedCache) (key : Bytes) : Option JwtCacheEntry × LinkedCache :=
  match c.find key with
  | none => (none, c)
  | some x => (some x.entry, c.toFront x)

def evict (c : LinkedCache) : LinkedCache :=
  match c.lru.getLast? with
  | none => c
  | some victim => { c with map := update c.map victim.key none, lru := c.lru.dropLast }

def makeRoom (c : LinkedCache) : LinkedCache := if c.capacity ≤ c.lru.length then c.evict else c

def emplace (c : LinkedCache) (key : Bytes) (e : JwtCacheEntry) : LinkedCache :=
  { c with
    lru := ⟨c.fresh, key, e⟩ :: c.lru
    map := update c.map key (some c.fresh)
    fresh := c.fresh + 1 }

def insert (c : LinkedCache) (key : Bytes) (e : JwtCacheEntry) : LinkedCache :=
  match c.find key with
  | some x => c.toFront { x with entry := e }
  | none => c.makeRoom.emplace key e

lemma lru_evict (c : LinkedCache) : c.evict.lru = c.lru.dropLast := by
  rw [evict]
  cases hlast : c.lru.getLast? with
  | none => simp [getLast?_eq_none_iff.1 hlast]
  | some victim => rfl

lemma lru_makeRoom (c : LinkedCache) :
    c.makeRoom.lru = if c.capacity ≤ c.lru.length then c.lru.dropLast else c.lru := by
  rw [makeRoom]
  split_ifs
  · exact c.lru_evict
  · rfl

lemma makeRoom_static (c : LinkedCache) :
    c.makeRoom.capacity = c.capacity ∧ c.makeRoom.fresh = c.fresh := by
  rw [makeRoom, evict]
  split_ifs
  · cases c.lru.getLast? <;> exact ⟨rfl, rfl⟩
  · exact ⟨rfl, rfl⟩

end LinkedCache

inductive CacheCall
  | lookup (key : Bytes)
  | insert (key : Bytes) (e : JwtCacheEntry)

def JwtCache.call (c : JwtCache) : CacheCall → JwtCache
  | .lookup key => (c.lookup key).2
  | .insert key e => c.insert key e

def LinkedCache.abs (c : LinkedCache) : JwtCache :=
  ⟨c.capacity, c.lru.map fun x => (x.key, x.entry)⟩

structure Traced where
  cache : LinkedCache
  used : List Bytes := []
  latest : Bytes → Option JwtCacheEntry := fun _ => none

namespace Traced

def call (t : Traced) : CacheCall → Traced
  | .lookup key =>
    { t with
      cache := (t.cache.lookup key).2
      used := if (t.cache.lookup key).1.isSome then key :: t.used else t.used }
  | .insert key e =>
    ⟨t.cache.insert key e, key :: t.used, update t.latest key (some e)⟩

def run (capacity : ℕ) (calls : List CacheCall) : Traced :=
  calls.foldl call { cache := LinkedCache.make capacity }

def recent (t : Traced) (capacity : ℕ) : List Bytes := (mru t.used).take (max capacity 1)

structure BoundedLru (t : Traced) (capacity : ℕ) : Prop where
  linked : ∀ key a, t.cache.map key = some a ↔ ∃ x ∈ t.cache.lru, x.key = key ∧ x.addr = a
  keys : (t.cache.lru.map (·.key)).Nodup
  addrs : (t.cache.lru.map (·.addr)).Nodup
  size : t.cache.lru.length ≤ max capacity 1
  hits : ∀ key, (t.cache.lookup key).1.isSome = true ↔ key ∈ t.recent capacity
  entries : ∀ key e, (t.cache.lookup key).1 = some e → t.latest key = some e

structure Kept (t : Traced) : Prop where
  pos : 0 < t.cache.capacity
  keys : t.cache.lru.map (·.key) = (mru t.used).take t.cache.capacity
  addrs : (t.cache.lru.map (·.addr)).Nodup
  fresh : ∀ x ∈ t.cache.lru, x.addr < t.cache.fresh
  linked : ∀ key a, t.cache.map key = some a ↔ ∃ x ∈ t.cache.lru, x.key = key ∧ x.addr = a
  latest : ∀ x ∈ t.cache.lru, t.latest x.key = some x.entry

variable {t : Traced} {key : Bytes} {e : JwtCacheEntry} {x y : Node}

namespace Kept

section

variable (h : t.Kept)
include h

lemma nodup : (t.cache.lru.map (·.key)).Nodup := by
  rw [h.keys]
  exact (nodup_mru t.used).sublist (take_sublist _ _)

lemma eq_of_addr (hx : x ∈ t.cache.lru) (hy : y ∈ t.cache.lru)
    (heq : x.addr = y.addr) : x = y := inj_on_of_nodup_map h.addrs hx hy heq

lemma find_eq_some : t.cache.find key = some x ↔ x ∈ t.cache.lru ∧ x.key = key := by
  constructor
  · intro hfound
    obtain ⟨a, ha, hx⟩ := bind_eq_some_iff.1 hfound
    obtain ⟨y, hy, hkey, rfl⟩ := (h.linked key a).1 ha
    have hmem := mem_of_find?_eq_some hx
    have haddr := find?_some hx
    rw [h.eq_of_addr hmem hy (by simpa using haddr)]
    exact ⟨hy, hkey⟩
  · rintro ⟨hx, rfl⟩
    rw [LinkedCache.find, (h.linked x.key x.addr).2 ⟨x, hx, rfl, rfl⟩, bind_some]
    cases hfound : t.cache.deref x.addr with
    | none => exact absurd (find?_eq_none.1 hfound x hx) (by simp)
    | some y =>
      have haddr := find?_some hfound
      rw [h.eq_of_addr (mem_of_find?_eq_some hfound) hx (by simpa using haddr)]

lemma find_eq_none : t.cache.find key = none ↔ key ∉ t.cache.lru.map (·.key) := by
  rw [eq_none_iff_forall_ne_some]
  constructor
  · intro hnone hmem
    obtain ⟨x, hx, hkey⟩ := mem_map.1 hmem
    exact hnone x (h.find_eq_some.2 ⟨hx, hkey⟩)
  · intro hnot x hx
    obtain ⟨hmem, hkey⟩ := h.find_eq_some.1 hx
    exact hnot (mem_map.2 ⟨x, hmem, hkey⟩)

lemma filter_addr (hx : x ∈ t.cache.lru) :
    t.cache.lru.filter (·.addr != x.addr) = t.cache.lru.filter (·.key != x.key) := by
  refine List.filter_congr fun y hy => ?_
  by_cases heq : y = x
  · simp [heq]
  · have haddr : y.addr ≠ x.addr := fun hsame => heq (h.eq_of_addr hy hx hsame)
    have hkey : y.key ≠ x.key := fun hsame => heq (inj_on_of_nodup_map h.nodup hy hx hsame)
    exact (bne_iff_ne.2 haddr).trans (bne_iff_ne.2 hkey).symm

lemma keys_filter (hx : x ∈ t.cache.lru) : (t.cache.lru.filter (·.addr != x.addr)).map (·.key)
      = (t.cache.lru.map (·.key)).filter (· != x.key) := by
  rw [h.filter_addr hx, List.filter_map]
  rfl

lemma toFront (hx : x ∈ t.cache.lru) : Kept ⟨t.cache.toFront { x with entry := e }, x.key :: t.used,
      update t.latest x.key (some e)⟩ where
  pos := h.pos
  keys := by
    have hrecent : x.key ∈ (mru t.used).take t.cache.capacity := by
      rw [← h.keys]
      exact mem_map.2 ⟨x, hx, rfl⟩
    simp only [LinkedCache.toFront, map_cons]
    rw [take_mru_of_mem hrecent, h.keys_filter hx, h.keys]
  addrs := by
    simp only [LinkedCache.toFront, map_cons, nodup_cons]
    refine ⟨fun hmem => ?_, h.addrs.sublist (filter_sublist.map _)⟩
    obtain ⟨y, hy, heq⟩ := mem_map.1 hmem
    simpa [heq] using (mem_filter.1 hy).2
  fresh := by
    intro y hy
    rcases mem_cons.1 hy with rfl | hy
    · exact h.fresh x hx
    · exact h.fresh y (mem_of_mem_filter hy)
  linked := by
    intro key a
    refine (h.linked key a).trans ⟨?_, ?_⟩
    · rintro ⟨y, hy, rfl, rfl⟩
      by_cases heq : y = x
      · exact ⟨_, mem_cons_self, by rw [heq], by rw [heq]⟩
      · have haddr : y.addr ≠ x.addr := fun hsame => heq (h.eq_of_addr hy hx hsame)
        exact ⟨y, mem_cons_of_mem _ (mem_filter.2 ⟨hy, by simpa using haddr⟩), rfl, rfl⟩
    · rintro ⟨y, hy, rfl, rfl⟩
      rcases mem_cons.1 hy with rfl | hy
      · exact ⟨x, hx, rfl, rfl⟩
      · exact ⟨y, mem_of_mem_filter hy, rfl, rfl⟩
  latest := by
    intro y hy
    rcases mem_cons.1 hy with rfl | hy
    · exact update_self ..
    · obtain ⟨hmem, haddr⟩ := mem_filter.1 hy
      have hkey : y.key ≠ x.key := fun hsame => by
        simp [inj_on_of_nodup_map h.nodup hmem hx hsame] at haddr
      exact (update_of_ne hkey ..).trans (h.latest y hmem)

lemma lookup : (t.call (.lookup key)).Kept := by
  cases hfound : t.cache.find key with
  | none => simpa [call, LinkedCache.lookup, hfound] using h
  | some x =>
    obtain ⟨hx, rfl⟩ := h.find_eq_some.1 hfound
    have hkept := h.toFront (e := x.entry) hx
    rw [← h.latest x hx, update_eq_self] at hkept
    simpa [call, LinkedCache.lookup, hfound] using hkept

lemma linked_evict (a : ℕ) : t.cache.evict.map key = some a
    ↔ ∃ x ∈ t.cache.evict.lru, x.key = key ∧ x.addr = a := by
  rw [LinkedCache.lru_evict, LinkedCache.evict]
  cases hlast : t.cache.lru.getLast? with
  | none =>
    rw [h.linked key a, getLast?_eq_none_iff.1 hlast]
    rfl
  | some victim =>
    have hlru := dropLast_append_getLast? victim hlast
    have hnodup := h.nodup
    rw [← hlru, map_append, nodup_append] at hnodup
    have hgone : ∀ x ∈ t.cache.lru.dropLast, x.key ≠ victim.key := fun x hx =>
      hnodup.2.2 x.key (mem_map.2 ⟨x, hx, rfl⟩) victim.key (by simp)
    simp only
    by_cases hkey : key = victim.key
    · subst hkey
      simp only [update_self, reduceCtorEq, false_iff, not_exists, not_and]
      exact fun x hx hsame => absurd hsame (hgone x hx)
    · rw [update_of_ne hkey, h.linked key a]
      constructor
      · rintro ⟨x, hx, rfl, rfl⟩
        rw [← hlru, mem_append, mem_singleton] at hx
        rcases hx with hx | rfl
        · exact ⟨x, hx, rfl, rfl⟩
        · exact absurd rfl hkey
      · rintro ⟨x, hx, hx'⟩
        exact ⟨x, mem_of_mem_dropLast hx, hx'⟩

lemma linked_makeRoom (a : ℕ) : t.cache.makeRoom.map key = some a
    ↔ ∃ x ∈ t.cache.makeRoom.lru, x.key = key ∧ x.addr = a := by
  rw [LinkedCache.makeRoom]
  split_ifs
  · exact h.linked_evict a
  · exact h.linked key a

omit h in
lemma makeRoom_sublist (c : LinkedCache) : c.makeRoom.lru.Sublist c.lru := by
  rw [c.lru_makeRoom]
  split_ifs
  · exact dropLast_sublist _
  · exact List.Sublist.refl _

lemma emplace (hnew : key ∉ t.cache.lru.map (·.key)) :
    Kept ⟨t.cache.makeRoom.emplace key e, key :: t.used, update t.latest key (some e)⟩ where
  pos := by
    simpa [LinkedCache.emplace, t.cache.makeRoom_static] using h.pos
  keys := by
    rw [h.keys] at hnew
    simp only [LinkedCache.emplace, map_cons, t.cache.makeRoom_static.1]
    rw [take_mru_of_not_mem hnew h.pos, ← h.keys, length_map, LinkedCache.lru_makeRoom,
      apply_ite (List.map _), map_dropLast]
  addrs := by
    simp only [LinkedCache.emplace, map_cons, nodup_cons, t.cache.makeRoom_static.2]
    refine ⟨fun hmem => ?_, h.addrs.sublist ((makeRoom_sublist t.cache).map _)⟩
    obtain ⟨y, hy, heq⟩ := mem_map.1 hmem
    exact absurd heq (h.fresh y ((makeRoom_sublist t.cache).subset hy)).ne
  fresh := by
    simp only [LinkedCache.emplace, t.cache.makeRoom_static.2]
    intro y hy
    rcases mem_cons.1 hy with rfl | hy
    · exact Nat.lt_succ_self _
    · exact Nat.lt_succ_of_lt (h.fresh y ((makeRoom_sublist t.cache).subset hy))
  linked := by
    intro key' a
    simp only [LinkedCache.emplace, exists_mem_cons_iff]
    have hroom : ∀ y ∈ t.cache.makeRoom.lru, y.key ≠ key := fun y hy hsame =>
      hnew (mem_map.2 ⟨y, (makeRoom_sublist t.cache).subset hy, hsame⟩)
    by_cases hkey : key' = key
    · subst hkey
      rw [update_self, some_inj]
      exact ⟨fun heq => .inl ⟨rfl, heq⟩, fun hor => hor.elim (·.2) fun ⟨y, hy, hsame, _⟩ =>
        absurd hsame (hroom y hy)⟩
    · rw [update_of_ne hkey, h.linked_makeRoom a]
      exact ⟨.inr, fun hor => hor.elim (fun hsame => absurd hsame.1.symm hkey) id⟩
  latest := by
    intro y hy
    rcases mem_cons.1 hy with rfl | hy
    · exact update_self ..
    · have hmem := (makeRoom_sublist t.cache).subset hy
      have hkey : y.key ≠ key := fun hsame => hnew (mem_map.2 ⟨y, hmem, hsame⟩)
      exact (update_of_ne hkey ..).trans (h.latest y hmem)

lemma insert : (t.call (.insert key e)).Kept := by
  rw [call, LinkedCache.insert]
  cases hfound : t.cache.find key with
  | none => exact h.emplace (h.find_eq_none.1 hfound)
  | some x =>
    obtain ⟨hx, rfl⟩ := h.find_eq_some.1 hfound
    exact h.toFront hx

lemma find_abs (key : Bytes) : t.cache.abs.find key = (t.cache.find key).map (·.entry) := by
  rw [JwtCache.find, LinkedCache.abs, find?_map]
  cases hfound : t.cache.lru.find? ((fun p => p.1 == key) ∘ fun x => (x.key, x.entry)) with
  | none =>
    have hnone : key ∉ t.cache.lru.map (·.key) := by
      simpa using find?_eq_none.1 hfound
    rw [h.find_eq_none.2 hnone]
    rfl
  | some x =>
    have hkey : x.key = key := by simpa using find?_some hfound
    rw [h.find_eq_some.2 ⟨mem_of_find?_eq_some hfound, hkey⟩]
    rfl

lemma abs_toFront (hx : x ∈ t.cache.lru) : (t.cache.toFront { x with entry := e }).abs
    = { t.cache.abs with lru := (x.key, e) :: t.cache.abs.others x.key } := by
  simp only [LinkedCache.abs, LinkedCache.toFront, JwtCache.others, map_cons, List.filter_map,
    h.filter_addr hx]
  rfl

lemma abs_call (c : CacheCall) : (t.call c).cache.abs = t.cache.abs.call c := by
  cases c with
  | lookup key =>
    rw [call, JwtCache.call, JwtCache.lookup, LinkedCache.lookup, h.find_abs]
    cases hfound : t.cache.find key with
    | none => rfl
    | some x =>
      obtain ⟨hx, rfl⟩ := h.find_eq_some.1 hfound
      exact h.abs_toFront hx
  | insert key e =>
    rw [call, JwtCache.call, JwtCache.insert, LinkedCache.insert, h.find_abs]
    cases hfound : t.cache.find key with
    | none =>
      simp only [LinkedCache.abs, LinkedCache.emplace, map_cons, LinkedCache.lru_makeRoom,
        t.cache.makeRoom_static.1, apply_ite (List.map _), map_dropLast, length_map]
      rfl
    | some x =>
      obtain ⟨hx, rfl⟩ := h.find_eq_some.1 hfound
      exact h.abs_toFront hx

omit h in
lemma make (capacity : ℕ) : Kept { cache := LinkedCache.make capacity } where
  pos := by
    simp only [LinkedCache.make]
    split_ifs <;> omega
  keys := take_nil.symm
  addrs := nodup_nil
  fresh := by simp [LinkedCache.make]
  linked := by simp [LinkedCache.make]
  latest := by simp [LinkedCache.make]

lemma call (c : CacheCall) : (t.call c).Kept := by
  cases c with
  | lookup key => exact h.lookup
  | insert key e => exact h.insert

end

lemma run (capacity : ℕ) (calls : List CacheCall) : (Traced.run capacity calls).Kept :=
  foldlRecOn calls Traced.call (make capacity) fun _ h c _ => h.call c

end Kept

/-- The map and the list do what the list alone does, which is what the verifier is modelled with. -/
lemma abs_run (capacity : ℕ) (calls : List CacheCall) :
    (run capacity calls).cache.abs = calls.foldl JwtCache.call (JwtCache.make capacity) := by
  induction calls using List.reverseRecOn with
  | nil => rfl
  | append_singleton calls c ih =>
    have hcall := (Kept.run capacity calls).abs_call c
    rw [foldl_append, ← ih, run, foldl_append]
    exact hcall

lemma capacity_call (t : Traced) (c : CacheCall) :
    (t.call c).cache.capacity = t.cache.capacity := by
  cases c with
  | lookup key =>
    rw [call, LinkedCache.lookup]
    cases t.cache.find key <;> rfl
  | insert key e =>
    rw [call, LinkedCache.insert]
    cases t.cache.find key with
    | none => exact t.cache.makeRoom_static.1
    | some x => rfl

lemma capacity_run (capacity : ℕ) (calls : List CacheCall) :
    (run capacity calls).cache.capacity = max capacity 1 := by
  refine foldlRecOn calls Traced.call (motive := fun t => t.cache.capacity = max capacity 1)
    ?_ fun t h c _ => (t.capacity_call c).trans h
  rw [LinkedCache.make]
  split_ifs with hzero <;> simp only <;> omega

/-- Whatever is called, the cache is the bounded map of the keys used last. -/
theorem boundedLru_run (capacity : ℕ) (calls : List CacheCall) :
    (run capacity calls).BoundedLru capacity := by
  have h := Kept.run capacity calls
  have hcap := capacity_run capacity calls
  set t := run capacity calls with ht
  have hlookup : ∀ key, (t.cache.lookup key).1 = (t.cache.find key).map (·.entry) := by
    intro key
    rw [LinkedCache.lookup]
    cases t.cache.find key <;> rfl
  refine ⟨h.linked, h.nodup, h.addrs, ?_, ?_, ?_⟩
  · have hlength := congrArg List.length h.keys
    rw [length_map, length_take, hcap] at hlength
    omega
  · intro key
    rw [hlookup, isSome_map, recent, ← hcap, ← h.keys, ← not_iff_not,
      not_isSome_iff_eq_none, h.find_eq_none]
  · intro key e hfound
    rw [hlookup] at hfound
    obtain ⟨x, hx, rfl⟩ := map_eq_some_iff.1 hfound
    obtain ⟨hmem, rfl⟩ := h.find_eq_some.1 hx
    exact h.latest x hmem

end Traced

end SpidoNG.Jwt
