import SpidoNG.Lib.LittleEndian

/-!
# The per-thread cache

`L1` of `spido-pg/src/cache.cpp`: an open-addressed table that each thread has for itself.
-/

namespace SpidoNG.Cache

open Bytes Function

variable {V : Type}

structure ValuePtr (V : Type) where
  id : ℕ
  value : V
  deriving DecidableEq

def fnvPrime : UInt64 := 0x100000001b3

def fnv1a (key : Bytes) : UInt64 :=
  key.foldl (fun h c => (h ^^^ c.toUInt64) * fnvPrime) 0xcbf29ce484222325

def loadWord (bs : Bytes) : UInt64 := UInt64.ofNat (LittleEndian.getLE (bs.take 8))

def nonzero (h : UInt64) : UInt64 := if h = 0 then 1 else h

def l1Hash (key : Bytes) : UInt64 :=
  nonzero (if 8 ≤ key.length then loadWord key else fnv1a key)

structure L1Entry (V : Type) where
  key : Bytes
  value : ValuePtr V
  expiresAt : ℕ
  lastUsed : ℕ
  hash : UInt64
  deriving DecidableEq

structure L1 (V : Type) where
  slots : ℕ → Option (L1Entry V)
  size : ℕ
  counter : ℕ

namespace L1

def kKeyMax : ℕ := 80

def kProbe : ℕ := 8

def empty : L1 V := ⟨fun _ => none, 0, 0⟩

def init (cap : ℕ) (l : L1 V) : L1 V :=
  if l.size ≠ 0 then l else { l with size := cap.nextPowerOfTwo }

def probes (l : L1 V) (key : Bytes) : List ℕ :=
  (List.range kProbe).map fun i => ((l1Hash key).toNat + i) % l.size

def L1Entry.matches (e : L1Entry V) (key : Bytes) : Bool := e.hash = l1Hash key && e.key = key

def search (l : L1 V) (key : Bytes) : List ℕ → Option ℕ
  | [] => none
  | i :: is =>
    match l.slots i with
    | none => none
    | some e => if L1Entry.matches e key then some i else l.search key is

def findRaw (l : L1 V) (key : Bytes) : Option (ValuePtr V) × L1 V :=
  if l.size = 0 then (none, l)
  else
    match l.search key (l.probes key) with
    | none => (none, l)
    | some i =>
      ((l.slots i).map L1Entry.value,
        { l with
          slots := update l.slots i
            ((l.slots i).map fun e => { e with lastUsed := l.counter + 1 })
          counter := l.counter + 1 })

def free (l : L1 V) (key : Bytes) : List ℕ → Option ℕ
  | [] => none
  | i :: is =>
    match l.slots i with
    | none => some i
    | some e => if L1Entry.matches e key then some i else l.free key is

def oldest (l : L1 V) (i : ℕ) (is : List ℕ) : ℕ :=
  is.foldl (fun v j => if ((l.slots j).map L1Entry.lastUsed).getD 0 <
    ((l.slots v).map L1Entry.lastUsed).getD 0 then j else v) i

def put (l : L1 V) (key : Bytes) (v : ValuePtr V) (expires : ℕ) : L1 V :=
  if l.size = 0 then l
  else
    let victim := (l.free key (l.probes key)).getD
      (l.oldest ((l1Hash key).toNat % l.size) (l.probes key).tail)
    { l with
      slots := update l.slots victim
        (some ⟨key.take kKeyMax, v, expires, l.counter + 1, l1Hash key⟩)
      counter := l.counter + 1 }

def clear (l : L1 V) : L1 V := { l with slots := fun _ => none }

def Holds (l : L1 V) (key : Bytes) (v : ValuePtr V) : Prop :=
  ∃ i e, l.slots i = some e ∧ e.key = key ∧ e.value = v

def Has (l : L1 V) (n : ℕ) : Prop := ∃ key v, l.Holds key v ∧ v.id = n

lemma not_holds_clear (l : L1 V) (key : Bytes) (v : ValuePtr V) : ¬ l.clear.Holds key v := by
  rintro ⟨i, e, he, -⟩
  cases he

lemma slots_init (cap : ℕ) (l : L1 V) : (l.init cap).slots = l.slots := by
  unfold init
  split_ifs
  · rfl
  · rfl

variable {key : Bytes} {l : L1 V} {v : ValuePtr V} {expires i : ℕ}

lemma entry_put {e : L1Entry V} (h : (l.put key v expires).slots i = some e) :
    l.slots i = some e ∨ e.key = key.take kKeyMax ∧ e.value = v ∧ e.expiresAt = expires := by
  unfold put at h
  split_ifs at h
  · exact .inl h
  · dsimp only at h
    by_cases hi : i = (l.free key (l.probes key)).getD
        (l.oldest ((l1Hash key).toNat % l.size) (l.probes key).tail)
    · rw [hi, update_self] at h
      cases h
      exact .inr ⟨rfl, rfl, rfl⟩
    · rw [update_of_ne hi] at h
      exact .inl h

lemma entry_findRaw {e : L1Entry V} (h : (l.findRaw key).2.slots i = some e) :
    ∃ e', l.slots i = some e' ∧ e'.key = e.key ∧ e'.value = e.value ∧
      e'.expiresAt = e.expiresAt := by
  unfold findRaw at h
  split_ifs at h
  · exact ⟨e, h, rfl, rfl, rfl⟩
  · split at h
    · exact ⟨e, h, rfl, rfl, rfl⟩
    · rename_i j _
      dsimp only at h
      by_cases hi : i = j
      · rw [hi, update_self] at h
        obtain ⟨e', he', rfl⟩ := Option.map_eq_some_iff.1 h
        exact ⟨e', hi ▸ he', rfl, rfl, rfl⟩
      · rw [update_of_ne hi] at h
        exact ⟨e, h, rfl, rfl, rfl⟩

lemma holds_init {cap : ℕ} (h : (l.init cap).Holds key v) : l.Holds key v := by
  rwa [Holds, slots_init] at h

lemma holds_put {key' : Bytes} {v' : ValuePtr V} (h : (l.put key' v' expires).Holds key v) :
    l.Holds key v ∨ key = key'.take kKeyMax ∧ v = v' := by
  obtain ⟨i, e, he, rfl, rfl⟩ := h
  rcases entry_put he with he | ⟨hkey, hv, -⟩
  · exact .inl ⟨i, e, he, rfl, rfl⟩
  · exact .inr ⟨hkey, hv⟩

lemma holds_findRaw {key' : Bytes} (h : (l.findRaw key').2.Holds key v) : l.Holds key v := by
  obtain ⟨i, e, he, rfl, rfl⟩ := h
  obtain ⟨e', he', hkey, hv, -⟩ := entry_findRaw he
  exact ⟨i, e', he', hkey, hv⟩

lemma key_of_search {is : List ℕ}
    (h : l.search key is = some i) : ∃ e, l.slots i = some e ∧ e.key = key := by
  induction is with
  | nil => cases h
  | cons _ _ ih =>
    rw [search] at h
    split at h
    · cases h
    · rename_i e he
      split_ifs at h with hmatch
      · cases h
        simp only [L1Entry.matches, Bool.and_eq_true, decide_eq_true_eq] at hmatch
        exact ⟨e, he, hmatch.2⟩
      · exact ih h

lemma holds_of_findRaw (h : (l.findRaw key).1 = some v) : l.Holds key v := by
  unfold findRaw at h
  split_ifs at h
  · split at h
    · cases h
    · rename_i i hi
      obtain ⟨e, he, hkey⟩ := key_of_search hi
      rw [he] at h
      cases h
      exact ⟨i, e, he, hkey, rfl⟩

end L1

end SpidoNG.Cache
