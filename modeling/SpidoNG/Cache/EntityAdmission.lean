import SpidoNG.Cache.EntityReach

/-!
# Entities that are admitted

When the window of a key is full, `put` looks at the slot only that was used least recently.
-/

namespace SpidoNG.Entity

open Bytes List Option Function Shard

namespace Shard

variable {sh : Shard} {cfg : EntityCacheConfig} {k : Key} {j : ℕ}

/-- A slot has an entry and is not pinned. -/
def movable (sh : Shard) (i : ℕ) : Bool := (sh.entries i).isSome && !(sh.slots i).pinned

/-- The first slot of `js` that was used least recently among the movable ones, before `bound`. -/
def Oldest (sh : Shard) (js : List ℕ) (bound j : ℕ) : Prop :=
  sh.movable j = true ∧ (sh.slots j).lastAccess < bound ∧ ∃ front back, js = front ++ j :: back ∧
    (∀ i ∈ front, sh.movable i = true → (sh.slots j).lastAccess < (sh.slots i).lastAccess) ∧
    ∀ i ∈ back, sh.movable i = true → (sh.slots j).lastAccess ≤ (sh.slots i).lastAccess

lemma Oldest.eq {js : List ℕ} {bound i j : ℕ} (hi : sh.Oldest js bound i)
    (hj : sh.Oldest js bound j) : i = j := by
  obtain ⟨hmi, -, front, back, rfl, hfi, hbi⟩ := hi
  obtain ⟨hmj, -, front', back', heq, hfj, hbj⟩ := hj
  -- If one comes later in the list it is in the back of the other, which is in its front.
  rcases append_eq_append_iff.1 heq with ⟨l, rfl, hl⟩ | ⟨l, rfl, hl⟩
  · cases l with
    | nil => exact (List.cons.inj hl).1
    | cons x l =>
      obtain ⟨rfl, rfl⟩ := List.cons.inj hl
      have hlt := hfj i (by simp) hmi
      exact absurd (hbi j (by simp) hmj) (not_le.2 hlt)
  · cases l with
    | nil => exact (List.cons.inj hl).1.symm
    | cons x l =>
      obtain ⟨rfl, rfl⟩ := List.cons.inj hl
      have hlt := hfi j (by simp) hmj
      exact absurd (hbj i (by simp) hmi) (not_le.2 hlt)

lemma Oldest.cons {js : List ℕ} {bound bound' i : ℕ} (h : sh.Oldest js bound j)
    (hle : bound ≤ bound')
    (hi : sh.movable i = true → (sh.slots j).lastAccess < (sh.slots i).lastAccess) :
    sh.Oldest (i :: js) bound' j := by
  obtain ⟨hm, hlt, front, back, rfl, hfront, hback⟩ := h
  refine ⟨hm, hlt.trans_le hle, i :: front, back, rfl, fun a ha => ?_, hback⟩
  rcases mem_cons.1 ha with rfl | ha
  · exact hi
  · exact hfront a ha

lemma lru_scan {js : List ℕ} {found : Scan} (h : (sh.scan k js found).target = none) :
    ((sh.scan k js found).lru = found.lru ∧
      ∀ i ∈ js, sh.movable i = true → found.seen ≤ (sh.slots i).lastAccess) ∨
      ∃ j, (sh.scan k js found).lru = some j ∧ sh.Oldest js found.seen j := by
  induction js generalizing found with
  | nil => exact .inl ⟨rfl, by simp⟩
  | cons i js ih =>
    unfold scan at h ⊢
    cases hi : sh.entries i with
    | none =>
      have hfix : sh.movable i = false := by simp [movable, hi]
      simp only [hi] at h ⊢
      rcases ih h with ⟨hlru, hall⟩ | ⟨j, hlru, hold⟩
      · exact .inl ⟨hlru, by simpa [hfix] using hall⟩
      · exact .inr ⟨j, hlru, hold.cons le_rfl (by simp [hfix])⟩
    | some e =>
      simp only [hi] at h ⊢
      split_ifs at h ⊢ with hkey hbest
      · simp only [Bool.and_eq_true, Bool.not_eq_true', decide_eq_true_eq] at hbest
        have hmov : sh.movable i = true := by simp [movable, hi, hbest.1]
        rcases ih h with ⟨hlru, hall⟩ | ⟨j, hlru, hold⟩
        · exact .inr ⟨i, hlru, hmov, hbest.2, [], js, rfl, by simp, hall⟩
        · exact .inr ⟨j, hlru, hold.cons hbest.2.le fun _ => hold.2.1⟩
      · have hlate : sh.movable i = true → found.seen ≤ (sh.slots i).lastAccess := by
          simpa [movable, hi] using hbest
        rcases ih h with ⟨hlru, hall⟩ | ⟨j, hlru, hold⟩
        · exact .inl ⟨hlru, by simpa using ⟨hlate, hall⟩⟩
        · exact .inr ⟨j, hlru, hold.cons le_rfl fun hm => hold.2.1.trans_le (hlate hm)⟩

/-- The window has the key or an empty slot, or its oldest movable slot is clean. -/
def Admits (sh : Shard) (cfg : EntityCacheConfig) (k : Key) : Prop :=
  (∃ j ∈ cfg.window k, sh.entries j = none ∨ Probing.Holds Entry.key sh.entries k j) ∨
    ∃ j, sh.Oldest (cfg.window k) (2 ^ 64 - 1) j ∧
      (sh.entries j).any (fun e => e.state = .Clean) = true

lemma evictable_iff {sh : Shard} (hj : (sh.entries j).isSome) :
    sh.evictable j ↔ (sh.entries j).any (fun e => e.state = .Clean) := by
  obtain ⟨e, he⟩ := isSome_iff_exists.1 hj
  cases hs : e.state <;> simp [evictable, he, hs, EntityState.unflushed]

lemma admits_iff : sh.Admits cfg k ↔ ∃ j, sh.target cfg k = some j := by
  unfold Shard.target
  dsimp only
  cases htarget : (sh.scan k (cfg.window k) {}).target with
  | some j =>
    rw [scan_target rfl] at htarget
    have hkey : sh.Admits cfg k :=
      .inl ⟨j, mem_of_find?_eq_some htarget, .inr (Probing.holds_of_find htarget)⟩
    exact iff_of_true hkey ⟨j, rfl⟩
  | none =>
    have hscan := scanned htarget
    rw [none_or, hscan.empty, none_or]
    cases hemp : (cfg.window k).find? fun i => (sh.entries i).isNone with
    | some i =>
      have hnone := isNone_iff_eq_none.1 (find?_some (p := fun i => (sh.entries i).isNone) hemp)
      exact iff_of_true (.inl ⟨i, mem_of_find?_eq_some hemp, .inl hnone⟩) ⟨i, rfl⟩
    | none =>
      -- The range is full of other keys.
      have hfull : ¬ ∃ j ∈ cfg.window k, sh.entries j = none ∨
          Probing.Holds Entry.key sh.entries k j := by
        rintro ⟨j, hj, hnone | hholds⟩
        · exact find?_eq_none.1 hemp j hj (by rw [hnone]; rfl)
        · exact hscan.absent j hj hholds
      rw [Admits, or_iff_right hfull, none_or]
      rcases lru_scan htarget with ⟨hlru, hall⟩ | ⟨i, hlru, hold⟩
      · rw [hlru]
        refine iff_of_false ?_ (by simp)
        rintro ⟨j, ⟨hm, hlt, front, back, hsplit, -⟩, -⟩
        exact absurd (hall j (by simp [hsplit]) hm) (not_le.2 hlt)
      · have hsome : (sh.entries i).isSome := (Bool.and_eq_true_iff.1 hold.1).1
        simp only [hlru, filter_eq_some_iff, some.injEq]
        constructor
        · rintro ⟨j, hj, hclean⟩
          obtain rfl := hold.eq hj
          exact ⟨i, rfl, (evictable_iff hsome).2 hclean⟩
        · rintro ⟨j, rfl, hclean⟩
          exact ⟨i, hold, (evictable_iff hsome).1 hclean⟩

lemma Target.reaches {t : ℕ → Option Entry} (h : Target cfg t k j)
    (habsent : ∀ i ∈ cfg.window k, ¬ Probing.Holds Entry.key t k i) :
    Probing.Reaches t j (cfg.window k) := by
  cases h with
  | same hmem h => exact absurd h (habsent j hmem)
  | empty _ _ _ hreach => exact hreach
  | victim hmem _ hfull => exact Probing.reaches_of_forall hmem hfull

lemma Target.holds {t : ℕ → Option Entry} (h : Target cfg t k j)
    (hthere : ∃ i ∈ cfg.window k, Probing.Holds Entry.key t k i) :
    Probing.Holds Entry.key t k j := by
  obtain ⟨i, hi, hholds⟩ := hthere
  cases h with
  | same _ h => exact h
  | empty _ hnone | victim _ hnone => exact absurd hholds (hnone i hi)

lemma find_or_of_target (h : sh.target cfg k = some j) :
    sh.find cfg k = some j ∨ sh.find cfg k = none ∧ j ∈ cfg.window k := by
  cases hfind : sh.find cfg k with
  | none => exact .inr ⟨rfl, (target_spec h).mem_window⟩
  | some i =>
    rw [Shard.target, scan_target rfl] at h
    rw [find] at hfind
    rw [hfind, some_or] at h
    exact .inl h

lemma entries_erase (h : sh.target cfg k = some j) (version now : ℕ) :
    (sh.erase cfg k version now).entries j =
      some { newEntry k { tombstone := true, version } true 0 now with state := .Tombstone } := by
  have hput : (sh.put cfg k { tombstone := true, version } true 0 now).entries =
      update sh.entries j (some (newEntry k { tombstone := true, version } true 0 now)) := by
    rw [put, h, entries_store]
  have hfind : (sh.put cfg k { tombstone := true, version } true 0 now).find cfg k = some j := by
    rw [find, hput]
    exact Probing.find_update rfl (find_or_of_target h)
  have hj : (sh.put cfg k { tombstone := true, version } true 0 now).entries j =
      some (newEntry k { tombstone := true, version } true 0 now) := by rw [hput, update_self]
  unfold erase onEntry
  simp only [hfind, hj, entries_setEntry, update_self]

end Shard

namespace EntityCache

variable {c : EntityCache} {k : Key}

/-- The range of the key has the key, an empty slot, or a slot that is clean and not pinned. -/
def Possible (c : EntityCache) (k : Key) : Prop :=
  ∃ j ∈ c.cfg.window k, ((c.shardOf k).entries j = none ∨
      Probing.Holds Entry.key (c.shardOf k).entries k j) ∨
    ((c.shardOf k).entries j).any (fun e => e.state = .Clean) = true ∧
      ((c.shardOf k).slots j).pinned = false

/-- The range of the key has the entry. -/
def Keeps (c : EntityCache) (k : Key) (e : Entry) : Prop :=
  ∃ j ∈ c.cfg.window k, (c.shardOf k).entries j = some e

/-- A row that is put is stored, and a row that is erased becomes a tombstone. -/
def Admitted (c : EntityCache) (k : Key) : Prop :=
  (∀ row isDirty ttl now, (c.step (.put k row isDirty ttl now)).Keeps k
    (newEntry k row isDirty ttl now)) ∧
  ∀ version now, (c.step (.erase k version now)).Keeps k
    { newEntry k { tombstone := true, version } true 0 now with state := .Tombstone }

/-- Writes are stored when that is possible, and dropped only if every slot of the range is not
clean or pinned. -/
structure Fair (c : EntityCache) (k : Key) : Prop where
  stored : c.Possible k → c.Admitted k
  dropped : ¬ c.Admitted k → ∀ j ∈ c.cfg.window k,
    ((c.shardOf k).entries j).any (fun e => e.state ≠ .Clean) = true ∨
      ((c.shardOf k).slots j).pinned = true

lemma entries_put {j : ℕ} (hj : (c.shardOf k).target c.cfg k = some j) (row : EntityRow)
    (isDirty : Bool) (ttl now : ℕ) :
    ((c.onShard k fun sh cfg k => sh.put cfg k row isDirty ttl now).shardOf k).entries =
      update (c.shardOf k).entries j (some (newEntry k row isDirty ttl now)) := by
  rw [shards_onShard_self, put, hj, entries_store]

lemma admitted_iff : c.Admitted k ↔ (c.shardOf k).Admits c.cfg k := by
  rw [admits_iff]
  constructor
  · rintro ⟨hput, -⟩
    obtain ⟨j, hmem, hj⟩ := hput {} false 0 0
    by_contra htarget
    -- Nothing has been stored, so the key was there before.
    have hnone : (c.shardOf k).target c.cfg k = none := by
      simpa [eq_none_iff_forall_ne_some] using htarget
    have hsame : ((c.step (.put k {} false 0 0)).shardOf k).entries j
      = (c.shardOf k).entries j := by
      show ((c.onShard k _).shardOf k).entries j = _
      rw [shards_onShard_self, put, hnone]
    exact htarget (admits_iff.1 (.inl ⟨j, hmem, .inr ⟨_, hsame.symm.trans hj, rfl⟩⟩))
  · rintro ⟨j, hj⟩
    have hmem := (target_spec hj).mem_window
    refine ⟨fun row isDirty ttl now => ⟨j, hmem, ?_⟩, fun version now => ⟨j, hmem, ?_⟩⟩
    · show ((c.onShard k _).shardOf k).entries j = _
      rw [entries_put hj, update_self]
    · show ((c.onShard k fun sh cfg k => sh.erase cfg k version now).shardOf k).entries j = _
      rw [shards_onShard_self]
      exact entries_erase hj version now

lemma not_clean_of_not_possible (h : ¬ c.Possible k) {j : ℕ} (hj : j ∈ c.cfg.window k) :
    ((c.shardOf k).entries j).any (fun e => e.state ≠ .Clean) = true ∨
      ((c.shardOf k).slots j).pinned = true := by
  by_contra hclean
  push Not at hclean
  refine h ⟨j, hj, ?_⟩
  cases he : (c.shardOf k).entries j with
  | none => exact .inl (.inl rfl)
  | some e => exact .inr (by simpa [he] using hclean)

/-- **Writes are admitted when possible** exactly if the range has the key or an empty slot, or its
oldest movable slot is clean, or no slot is there for them. -/
theorem fair_iff (c : EntityCache) (k : Key) :
    c.Fair k ↔ (c.shardOf k).Admits c.cfg k ∨ ¬ c.Possible k := by
  rw [← admitted_iff]
  constructor
  · intro h
    by_cases hpossible : c.Possible k
    · exact .inl (h.stored hpossible)
    · exact .inr hpossible
  · rintro (hadmitted | himpossible)
    · exact ⟨fun _ => hadmitted, fun hdropped => absurd hadmitted hdropped⟩
    · exact ⟨fun hpossible => absurd hpossible himpossible,
        fun _ j hj => not_clean_of_not_possible himpossible hj⟩

def third : Key := { table := 1, pk := str "30" }

def narrow : EntityCacheConfig := { sixteen with probe := 2 }

/-- The first slot of the window is dirty, the second one clean, and the first one is older. -/
def halfDirty : EntityCache :=
  ((start narrow).step (.put first {} true 0 0)).step (.put second {} false 0 0)

theorem not_fair_halfDirty : ¬ halfDirty.Fair third := by
  intro h
  obtain ⟨j, hmem, hj⟩ := (h.stored
    ⟨4, by decide +kernel, .inr ⟨by decide +kernel, by decide +kernel⟩⟩).1 {} false 0 0
  rw [show (halfDirty.step (.put third {} false 0 0)).cfg.window third = [3, 4] by decide +kernel,
    mem_pair] at hmem
  rcases hmem with rfl | rfl
  · revert hj
    decide +kernel
  · revert hj
    decide +kernel

end EntityCache

end SpidoNG.Entity
