import SpidoNG.Cache.EntityReach

/-!
# The representation of the entity cache

One slot for a key, the byte counters, and what a sweep leaves.
-/

namespace SpidoNG.Entity

open Bytes List Option Function Shard

def sizeOf (o : Option Entry) : ℕ := (o.map Entry.sizeBytes).getD 0

namespace Shard

variable {sh sh' : Shard} {cfg : EntityCacheConfig} {k : Key} {j n : ℕ} {e : Entry}
  {o : Option Entry}

def Counted (n : ℕ) (sh : Shard) : Prop := sh.bytes = ∑ j ∈ Finset.range n, sizeOf (sh.entries j)

variable {quota rounds seen : ℕ}

section

variable (h : sh.Counted n)
include h

/-- One slot is changed, and the counter by the difference. -/
lemma Counted.update (hj : j < n) (hent : sh'.entries = update sh.entries j o)
    (hbytes : sh'.bytes = sh.bytes - sizeOf (sh.entries j) + sizeOf o) : sh'.Counted n := by
  have hmem : j ∈ Finset.range n := Finset.mem_range.2 hj
  have hsum := Finset.add_sum_erase _ (fun j => sizeOf (sh.entries j)) hmem
  have hsum' := Finset.add_sum_erase _ (fun j => sizeOf (sh'.entries j)) hmem
  have hrest : ∑ i ∈ (Finset.range n).erase j, sizeOf (sh'.entries i) =
      ∑ i ∈ (Finset.range n).erase j, sizeOf (sh.entries i) := by
    refine Finset.sum_congr rfl fun i hi => ?_
    rw [hent, update_of_ne (Finset.ne_of_mem_erase hi)]
  have hnew : sizeOf (sh'.entries j) = sizeOf o := by rw [hent, update_self]
  unfold Counted at h ⊢
  omega

lemma Counted.same (hent : sh'.entries = sh.entries)
    (hbytes : sh'.bytes = sh.bytes) : sh'.Counted n := by
  unfold Counted
  rw [hent, hbytes]
  exact h

lemma Counted.get : (sh.get cfg k).Counted n := by
  refine h.same (sh.entries_get cfg k) ?_
  unfold Shard.get
  split <;> rfl

lemma Counted.free (hj : j < n) (he : sh.entries j = some e) : (sh.free j e).Counted n := by
  refine h.update hj (entries_free sh j e) ?_
  rw [he]
  rfl

lemma Counted.setEntry (hj : j < n) (he : sh.entries j = some e)
    (state : EntityState) : (sh.setEntry j { e with state }).Counted n := by
  refine h.update hj (entries_setEntry sh j _) ?_
  have hle : sizeOf (sh.entries j) ≤ sh.bytes := by
    rw [show sh.bytes = _ from h]
    exact Finset.single_le_sum (f := fun j => sizeOf (sh.entries j)) (fun _ _ => Nat.zero_le _)
      (Finset.mem_range.2 hj)
  rw [he] at hle ⊢
  exact (Nat.sub_add_cancel hle).symm

lemma Counted.put (hwindow : ∀ j ∈ cfg.window k, j < n) (row : EntityRow)
    (isDirty : Bool) (ttl now : ℕ) : (sh.put cfg k row isDirty ttl now).Counted n := by
  unfold Shard.put
  split
  · exact h
  case h_2 j hj =>
    exact h.update (hwindow j (target_spec hj).mem_window) (entries_store sh j _) rfl

lemma Counted.onEntry {f : ℕ → Entry → Shard}
    (hf : ∀ j e, sh.entries j = some e → (f j e).Counted n) : (sh.onEntry cfg k f).Counted n := by
  obtain heq | ⟨j, e, he, -, heq⟩ := sh.onEntry_cases cfg k f
  · rwa [heq]
  · rw [heq]
    exact hf j e he

lemma Counted.expire {now : ℕ} (hj : j < n) : (expire now sh j).Counted n := by
  unfold Shard.expire
  split
  · exact h
  case h_2 e he =>
    split_ifs
    · exact h
    · exact h.free hj he
    · exact h

lemma Counted.evictOver : (evictOver quota n rounds sh).Counted n := by
  induction rounds generalizing sh with
  | zero => exact h
  | succ _ ih =>
    unfold evictOver
    split_ifs
    · exact h
    split
    · exact h
    case h_2 j hj =>
      split
      · exact h
      case h_2 e he =>
        rcases oldest_spec hj with hnone | ⟨hmem, -⟩
        · cases hnone
        · exact ih (h.free (mem_range.1 hmem) he)

end

lemma Counted.sweep (h : sh.Counted cfg.slotsPerShard) (now : ℕ) :
    (sh.sweep cfg now).Counted cfg.slotsPerShard := by
  refine Counted.evictOver (foldlRecOn _ _ h fun sh hsh j hj => ?_)
  exact hsh.expire (mem_range.1 hj)

lemma oldest_ne_none {js : List ℕ} {v : ℕ} : sh.oldest js (some v) seen ≠ none := by
  induction js generalizing v seen with
  | nil => exact some_ne_none v
  | cons _ _ ih =>
    unfold oldest
    split_ifs
    · exact ih
    · exact ih

lemma oldest_eq_none {js : List ℕ} (h : sh.oldest js none seen = none) (hj : j ∈ js)
    (he : sh.entries j = some e) (hclean : e.state = .Clean) :
    (sh.slots j).pinned ∨ seen ≤ (sh.slots j).lastAccess := by
  induction js with
  | nil => cases hj
  | cons i js ih =>
    unfold oldest at h
    split_ifs at h with hi
    · exact absurd h oldest_ne_none
    · rcases mem_cons.1 hj with rfl | hj
      · by_contra hno
        simp [he, hclean, not_or] at hi hno
        exact absurd (hi hno.1) (not_le.2 hno.2)
      · exact ih h hj

lemma evictOver_spec
    (hcount : ((Finset.range n).filter fun j => (sh.entries j).isSome).card ≤ rounds) :
    (evictOver quota n rounds sh).bytes ≤ quota ∨
      (evictOver quota n rounds sh).oldest (List.range n) none (2 ^ 64 - 1) = none := by
  induction rounds generalizing sh with
  | zero =>
    refine .inr (eq_none_iff_forall_not_mem.2 fun j hj => ?_)
    rcases oldest_spec hj with hnone | ⟨hmem, hclean, -⟩
    · cases hnone
    · have hsome : (sh.entries j).isSome := by
        cases hs : sh.entries j with
        | none =>
          rw [show (evictOver quota n 0 sh).entries j = none from hs] at hclean
          cases hclean
        | some => rfl
      exact absurd (Finset.mem_filter.2 ⟨Finset.mem_range.2 (mem_range.1 hmem), hsome⟩)
        (by rw [Finset.card_eq_zero.1 (Nat.le_zero.1 hcount)]; exact Finset.notMem_empty j)
  | succ rounds ih =>
    unfold evictOver
    split_ifs with hquo
    · exact .inl hquo
    split
    case h_1 hold => exact .inr hold
    case h_2 j hj =>
      rcases oldest_spec hj with hnone | ⟨hmem, hclean, -⟩
      · cases hnone
      split
      case h_1 hnone =>
        rw [hnone] at hclean
        cases hclean
      case h_2 e he =>
        refine ih (Nat.lt_succ_iff.1 (lt_of_lt_of_le (Finset.card_lt_card ?_) hcount))
        refine Finset.ssubset_iff_of_subset (fun i hi => ?_) |>.2 ⟨j, ?_, ?_⟩
        · rw [Finset.mem_filter, entries_free] at hi
          refine Finset.mem_filter.2 ⟨hi.1, ?_⟩
          by_cases hij : i = j
          · rw [hij, he]
            rfl
          · rw [update_of_ne hij] at hi
            exact hi.2
        · exact Finset.mem_filter.2 ⟨Finset.mem_range.2 (mem_range.1 hmem), by rw [he]; rfl⟩
        · rw [Finset.mem_filter, entries_free, update_self]
          exact fun hi => Bool.false_ne_true hi.2

end Shard

namespace EntityCache

variable {c : EntityCache} {op : Op}

/-- What holds after every operation. -/
structure Represented (c : EntityCache) : Prop where
  window : ∀ σ j e, (c.shards σ).entries j = some e → σ = c.cfg.shardFor e.key ∧
    j ∈ c.cfg.window e.key
  unique : ∀ σ σ' j j' e e', (c.shards σ).entries j = some e → (c.shards σ').entries j' = some e' →
    e.key = e'.key → σ = σ' ∧ j = j'
  counted : ∀ σ, (c.shards σ).Counted c.cfg.slotsPerShard
  swept : ∀ now σ, ((c.step (.sweep now)).shards σ).bytes ≤ c.cfg.maxBytes / c.cfg.shards + 1 ∨
    ∀ j e, ((c.step (.sweep now)).shards σ).entries j = some e → e.state = .Clean →
      (((c.step (.sweep now)).shards σ).slots j).pinned = true ∨
        2 ^ 64 - 1 ≤ (((c.step (.sweep now)).shards σ).slots j).lastAccess

structure Accounted (c : EntityCache) : Prop where
  masks : c.cfg.Masks
  sound : c.Sound
  counted : ∀ σ, (c.shards σ).Counted c.cfg.slotsPerShard

section

variable (h : c.Accounted)
include h

lemma Accounted.represented : c.Represented where
  window σ j e he := by
    obtain rfl := shardFor_of_placed (h.sound σ) he
    have hmem := (h.sound _).mem_window he
    rw [c.cfg.windowIn_self] at hmem
    exact ⟨rfl, hmem⟩
  unique σ σ' j j' e e' he he' hk := by
    obtain rfl := shardFor_of_placed (h.sound σ) he
    obtain rfl := shardFor_of_placed (h.sound σ') he'
    refine ⟨by rw [hk], (h.sound _).unique he (hk ▸ he') hk⟩
  counted := h.counted
  swept now σ := by
    have hcount := (Finset.card_filter_le (Finset.range c.cfg.slotsPerShard)
      fun j => (((List.range c.cfg.slotsPerShard).foldl (Shard.expire now)
        (c.shards σ)).entries j).isSome
     ).trans (Finset.card_range _).le
    refine (evictOver_spec hcount).imp_right fun hnone j e he hclean => ?_
    have hlt := (lt_of_placed h.masks (h.sound.sweep now σ) he).1
    exact oldest_eq_none hnone (mem_range.2 hlt) he hclean

lemma Accounted.onShard {k : Key} {f : Shard → EntityCacheConfig → Key → Shard}
    (hsound : (c.onShard k f).Sound) (hf : (f (c.shardOf k) c.cfg k).Counted c.cfg.slotsPerShard) :
    (c.onShard k f).Accounted :=
  ⟨h.masks, hsound, forall_onShard (P := fun _ sh => sh.Counted c.cfg.slotsPerShard) h.counted hf⟩

lemma Accounted.get (k : Key) : (c.onShard k Shard.get).Accounted :=
  h.onShard (h.sound.get k) (h.counted _).get

lemma Accounted.put (k : Key) (row : EntityRow) (isDirty : Bool) (ttl now : ℕ) :
    (c.onShard k fun sh cfg k => sh.put cfg k row isDirty ttl now).Accounted := by
  refine h.onShard (h.sound.fills (fills_put ..)) ((h.counted _).put (fun j hj => ?_) ..)
  obtain ⟨i, -, rfl⟩ := mem_map.1 hj
  exact and_mask_lt h.masks.slots _

lemma Accounted.onEntry {k : Key} {f : Shard → ℕ → Entry → Shard}
    (hsound : (c.onShard k fun sh cfg k => sh.onEntry cfg k (f sh)).Sound)
    (hf : ∀ sh j e, sh.Counted c.cfg.slotsPerShard → j < c.cfg.slotsPerShard →
      sh.entries j = some e →
      (f sh j e).Counted c.cfg.slotsPerShard) :
    (c.onShard k fun sh cfg k => sh.onEntry cfg k (f sh)).Accounted :=
  h.onShard hsound ((h.counted _).onEntry fun j e he =>
    hf _ j e (h.counted _) (lt_of_placed h.masks (h.sound _) he).1 he)

lemma Accounted.step (op : Op) : (c.step op).Accounted := by
  have hsound := h.sound.step op
  cases op with
  | get k => exact h.get k
  | put k row isDirty ttl now => exact h.put k row isDirty ttl now
  | erase k version now =>
    have hput := h.put k { tombstone := true, version } true 0 now
    have hplaced := hput.sound (c.cfg.shardFor k)
    have hcount := hput.counted (c.cfg.shardFor k)
    have hself := c.shards_onShard_self k fun sh cfg k =>
      sh.put cfg k { tombstone := true, version } true 0 now
    rw [shardOf, cfg_onShard] at hself
    rw [hself] at hplaced hcount
    refine h.onShard hsound (hcount.onEntry fun j e he => ?_)
    exact hcount.setEntry (lt_of_placed h.masks hplaced he).1 he _
  | markFlushed k version =>
    refine h.onEntry hsound fun sh j e hc hj he => ?_
    split_ifs
    · exact hc
    · exact hc.free hj he
    · exact hc.setEntry hj he _
  | notifyRemoteVersion k remoteVersion =>
    refine h.onEntry hsound fun sh j e hc hj he => ?_
    split_ifs
    · exact hc
    · exact hc
    · exact hc.free hj he
  | setPinned k pinned =>
    refine h.onEntry hsound fun sh j e hc hj he => hc.same ?_ rfl
    rw [entries_setSlot]
    exact update_eq_self j sh.entries
  | sweep now => exact ⟨h.masks, hsound, fun σ => (h.counted σ).sweep now⟩
  | getEntity k answer now =>
    show (c.getEntity k answer now).Accounted
    unfold getEntity
    split
    · exact ((h.get k).put ..).get k
    · exact h.get k

end

lemma accounted_start (cfg : EntityCacheConfig) : (start cfg).Accounted :=
  ⟨masks_prepared cfg, sound_start cfg, fun _ => (Finset.sum_const_zero).symm⟩

/-- **The representation of the cache** after any sequence of operations. -/
theorem represented_run (cfg : EntityCacheConfig) (ops : List Op) :
    (ops.foldl step (start cfg)).Represented :=
  (foldlRecOn ops step (accounted_start cfg) fun _ h op _ => h.step op).represented

def crowded : EntityCacheConfig := { sixteen with maxBytes := 0 }

def wornShard (m : ℕ) : Shard :=
  { slots := update (fun _ => {}) 3
      { entry := some (newEntry first {} false 0 0), lastAccess := m }
    bytes := 113
    counter := m }

def worn (m : ℕ) : EntityCache := (start crowded).onShard first fun _ _ _ => wornShard m

lemma worn_put : (start crowded).step (.put first {} false 0 0) = worn 1 := rfl

lemma worn_get (m : ℕ) : (worn m).step (.get first) = worn (m + 1) := by
  have hwindow : (start crowded).cfg.window first = [3, 4, 5, 6] := rfl
  have hhit : (wornShard m).hit (start crowded).cfg first = some (3, {}) := by
    unfold hit
    rw [hwindow]
    rfl
  have hget : (wornShard m).get (start crowded).cfg first = wornShard (m + 1) := by
    unfold Shard.get
    rw [hhit]
    simp [touch, setSlot, wornShard]
  have hself : (worn m).shardOf first = wornShard m := shards_onShard_self _ _ _
  show (worn m).onShard first Shard.get = _
  rw [onShard, hself, show (worn m).cfg = (start crowded).cfg from rfl, hget]
  unfold worn onShard
  simp only [update_idem]

lemma worn_run (n m : ℕ) : (replicate n (Op.get first)).foldl step (worn m) = worn (m + n) := by
  induction n generalizing m with
  | zero => rfl
  | succ n ih =>
    rw [replicate_succ, foldl_cons, worn_get, ih, Nat.add_right_comm, Nat.add_assoc]

theorem not_swept_worn : ∃ (ops : List Op) (σ j : ℕ) (e : Entry),
    crowded.maxBytes / crowded.shards + 1 < ((ops.foldl step (start crowded)).shards σ).bytes ∧
      ops.getLast? = some (.sweep 0) ∧
      ((ops.foldl step (start crowded)).shards σ).entries j = some e ∧ e.state = .Clean ∧
      (((ops.foldl step (start crowded)).shards σ).slots j).pinned = false := by
  refine ⟨.put first {} false 0 0 :: (replicate (2 ^ 64 - 2) (.get first) ++ [.sweep 0]), 0, 3,
    newEntry first {} false 0 0, ?_⟩
  rw [foldl_cons, worn_put, foldl_append, worn_run, getLast?_cons, getLast?_append]
  decide +kernel

end EntityCache

end SpidoNG.Entity
