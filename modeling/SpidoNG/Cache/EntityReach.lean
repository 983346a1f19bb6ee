import SpidoNG.Cache.Entity

/-!
# Stored entities and `get`

`put` looks through the whole window of a key, so that no key is stored twice; `get` gives up at the
first empty slot of the window.
-/

namespace SpidoNG.Entity

open Bytes List Option Function

lemma le_roundPow2Loop (n fuel p : ℕ) : p ≤ roundPow2Loop n fuel p := by
  induction fuel generalizing p with
  | zero => exact le_rfl
  | succ _ ih =>
    unfold roundPow2Loop
    split
    · exact le_trans (by omega) (ih (p * 2))
    · exact le_rfl

structure EntityCacheConfig.Masks (cfg : EntityCacheConfig) : Prop where
  shards : 0 < cfg.shards
  slots : 0 < cfg.slotsPerShard

lemma masks_prepared (cfg : EntityCacheConfig) : cfg.prepared.Masks :=
  ⟨le_roundPow2Loop _ _ 1, le_roundPow2Loop _ _ 1⟩

lemma and_mask_lt {n : ℕ} (h : 0 < n) (x : ℕ) : x &&& (n - 1) < n := by
  have hle : x &&& (n - 1) ≤ n - 1 := Nat.and_le_right
  omega

namespace EntityCache

variable {c c' : EntityCache} {cfg : EntityCacheConfig} {k : Key} {op : Op} {e : Entry}
  {ops : List Op} {now σ j : ℕ} {t t' : ℕ → Option Entry}

def Found (c : EntityCache) : Prop :=
  ∀ σ j e, (c.shards σ).entries j = some e → e.state ≠ .Tombstone → c.read e.key = some e.row

def shields (cfg : EntityCacheConfig) (sh : Shard) (j : ℕ) : Bool :=
  (List.range cfg.slotsPerShard).any fun i =>
    (sh.entries i).any fun e => decide (Probing.Passes j i (cfg.window e.key))

def sweepable (cfg : EntityCacheConfig) (sh : Shard) (now j : ℕ) : Bool :=
  (sh.entries j).any fun e => !e.state.unflushed && !(sh.slots j).pinned &&
    (e.expiresAt.any (· ≤ now) || decide (cfg.maxBytes / cfg.shards + 1 < sh.bytes))

/-- No slot that comes before a stored key in its window is one whose tombstone is flushed, whose
version is outdated by a notification, or that a sweep may empty. -/
def uncut (c : EntityCache) : Op → Bool
  | .markFlushed k version =>
    ((c.shardOf k).find c.cfg k).all fun j => ((c.shardOf k).entries j).all fun e =>
      !(e.state = .Tombstone && e.version ≤ version && shields c.cfg (c.shardOf k) j)
  | .notifyRemoteVersion k remoteVersion =>
    ((c.shardOf k).find c.cfg k).all fun j => ((c.shardOf k).entries j).all fun e =>
      !((e.state = .Clean || e.state = .Tombstone) && e.version < remoteVersion &&
        shields c.cfg (c.shardOf k) j)
  | .sweep now =>
    (List.range c.cfg.shards).all fun σ => (List.range c.cfg.slotsPerShard).all fun j =>
      !(sweepable c.cfg (c.shards σ) now j && shields c.cfg (c.shards σ) j)
  | _ => true

def Reached (cfg : EntityCacheConfig) (t : ℕ → Option Entry) : Prop :=
  ∀ j e, t j = some e → Probing.Reaches t j (cfg.window e.key)

section

variable (h : Reached cfg t)
include h

lemma Reached.update (hj : Probing.Reaches t j (cfg.window e.key)) :
    Reached cfg (Function.update t j (some e)) := fun i x hx => Probing.Reached.update h hj i x hx

lemma Reached.fill (hfill : Shard.Fill cfg k t t') : Reached cfg t' := by
  cases hfill with
  | fill hk ht =>
    subst hk
    refine h.update ?_
    cases ht with
    | same _ hholds =>
      obtain ⟨x, hx, hkey⟩ := hholds
      rw [← hkey]
      exact h _ x hx
    | empty _ _ _ hreach => exact hreach
    | victim hmem _ hfull => exact Probing.reaches_of_forall hmem hfull
  | @amend j e _ he _ =>
    have hj := h j e he
    exact h.update hj

lemma Reached.fills (hfills : Shard.Fills cfg k t t') : Reached cfg t' := by
  induction hfills with
  | refl => exact h
  | tail _ hfill ih => exact ih.fill hfill

lemma Reached.clear (hsub : ∀ i, t' i = t i ∨ t' i = none)
    (hcut : ∀ i x j, (t i).isSome → t' i = none → t j = some x →
      ¬ Probing.Passes i j (cfg.window x.key)) :
    Reached cfg t' := by
  intro j x hx
  have hx' : t j = some x := by
    rcases hsub j with hsame | hnone
    · rw [← hsame, hx]
    · cases hnone.symm.trans hx
  refine (h j x hx').of_passes fun i hi hpass => ?_
  rcases hsub i with hsame | hnone
  · rwa [hsame]
  · exact absurd hpass (hcut i x j hi hnone hx')

lemma Reached.free (hcut : ∀ x i, t i = some x → ¬ Probing.Passes j i (cfg.window x.key)) :
    Reached cfg (Function.update t j none) := by
  refine h.clear (fun i => ?_) fun i x a hi hnone ha => ?_
  · by_cases hi : i = j
    · exact .inr (by rw [hi, update_self])
    · exact .inl (update_of_ne hi _ _)
  · by_cases hij : i = j
    · subst hij
      exact hcut x a ha
    · rw [update_of_ne hij] at hnone
      rw [hnone] at hi
      cases hi

end

structure Open (c : EntityCache) : Prop where
  masks : c.cfg.Masks
  sound : c.Sound
  reached : ∀ σ, Reached c.cfg (c.shards σ).entries

lemma lt_of_placed (hmasks : cfg.Masks) (h : cfg.Placed σ t) (he : t j = some e) :
    j < cfg.slotsPerShard ∧ σ < cfg.shards := by
  have hσ := shardFor_of_placed h he
  have hmem := h.mem_window he
  rw [← hσ, cfg.windowIn_self] at hmem
  obtain ⟨i, -, rfl⟩ := mem_map.1 hmem
  exact ⟨and_mask_lt hmasks.slots _, hσ ▸ and_mask_lt hmasks.shards _⟩

lemma not_passes_of_shields {sh : Shard} (hmasks : cfg.Masks) (h : cfg.Placed σ sh.entries)
    (hshield : shields cfg sh j = false) (e : Entry) (i : ℕ) (he : sh.entries i = some e) :
    ¬ Probing.Passes j i (cfg.window e.key) := by
  intro hpass
  have hlt := (lt_of_placed hmasks h he).1
  have hany : shields cfg sh j := by
    refine any_eq_true.2 ⟨i, mem_range.2 hlt, ?_⟩
    rw [he]
    exact decide_eq_true hpass
  rw [hany] at hshield
  cases hshield

section

variable (h : c.Open)
include h

lemma Open.found : c.Found := by
  intro σ j e he hst
  have hσ := shardFor_of_placed (h.sound σ) he
  subst hσ
  have hwalk := (h.sound _).walk_eq ⟨e, he, rfl⟩ (h.reached _ j e he)
  unfold read Shard.hit shardOf
  rw [hwalk, bind_some, he, bind_some, if_neg hst]
  rfl

variable {f : Shard → EntityCacheConfig → Key → Shard}

lemma Open.onShard
    (hsound : (c.onShard k f).Sound) (hf : Reached c.cfg (f (c.shardOf k) c.cfg k).entries) :
    (c.onShard k f).Open :=
  ⟨h.masks, hsound, forall_onShard (P := fun _ sh => Reached c.cfg sh.entries) h.reached hf⟩

lemma Open.fills
    (hf : Shard.Fills c.cfg k (c.shardOf k).entries (f (c.shardOf k) c.cfg k).entries) :
    (c.onShard k f).Open := h.onShard (h.sound.fills hf) ((h.reached _).fills hf)

lemma Open.get (k : Key) : (c.onShard k Shard.get).Open :=
  h.fills (by rw [Shard.entries_get])

lemma Open.getEntity (k : Key) (answer : Option Bytes) (now : ℕ) :
    (c.getEntity k answer now).Open := by
  unfold EntityCache.getEntity
  split
  · exact ((h.get k).fills (Shard.fills_put _ _ _ _ _ _ _)).get k
  · exact h.get k

lemma Open.of_find {p : ℕ → Entry → Bool} (he : (c.shardOf k).entries j = some e)
    (hk : e.key = k) (hok : (((c.shardOf k).find c.cfg k).all fun j =>
      ((c.shardOf k).entries j).all fun e => p j e)) : p j e := by
  subst hk
  have hfind := (h.sound _).find_eq ⟨e, he, rfl⟩
  rw [c.cfg.windowIn_self] at hfind
  have hfind' : (c.shardOf e.key).find c.cfg e.key = some j := hfind
  rw [hfind', all_some, he, all_some] at hok
  exact hok

lemma Open.markFlushed {version : ℕ} (hok : c.uncut (.markFlushed k version)) :
    (c.step (.markFlushed k version)).Open := by
  refine h.onShard (h.sound.markFlushed k version) ?_
  obtain hsame | ⟨j, e, he, hk, hle, ⟨htomb, hfree⟩ | hclean⟩ :=
    (c.shardOf k).markFlushed_cases c.cfg k version
  · rw [hsame]
    exact h.reached _
  · rw [hfree]
    have hshield := h.of_find he hk hok
    simp only [htomb, hle, decide_true, Bool.true_and, Bool.not_eq_true'] at hshield
    exact (h.reached _).free (not_passes_of_shields h.masks (h.sound _) hshield)
  · rw [hclean]
    exact (h.reached _).fill (.amend hk he .Clean)

lemma Open.notifyRemoteVersion {remoteVersion : ℕ}
    (hok : c.uncut (.notifyRemoteVersion k remoteVersion)) :
    (c.step (.notifyRemoteVersion k remoteVersion)).Open := by
  refine h.onShard (h.sound.notifyRemoteVersion k remoteVersion) ?_
  obtain hsame | ⟨j, e, he, hk, hdirty, hflushing, hlt, hfree⟩ :=
    (c.shardOf k).notifyRemoteVersion_cases c.cfg k remoteVersion
  · rw [hsame]
    exact h.reached _
  · rw [hfree]
    have hshield := h.of_find he hk hok
    have hst : (decide (e.state = .Clean) || decide (e.state = .Tombstone)) := by
      cases hs : e.state with
      | Clean | Tombstone => rfl
      | Dirty => exact absurd hs hdirty
      | Flushing => exact absurd hs hflushing
    rw [hst, decide_eq_true hlt, Bool.true_and, Bool.true_and, Bool.not_eq_true'] at hshield
    exact (h.reached _).free (not_passes_of_shields h.masks (h.sound _) hshield)

omit h in
lemma sweepable_of_sweepable {sh : Shard} (h : sh.Sweepable cfg now j) :
    sweepable cfg sh now j := by
  obtain ⟨e, he, hclean, hpinned, hdue⟩ := h
  unfold sweepable
  rw [he, any_some, hclean, hpinned]
  simpa using hdue

lemma Open.sweep (hok : c.uncut (.sweep now)) : (c.step (.sweep now)).Open := by
  refine ⟨h.masks, h.sound.sweep now, fun σ => ?_⟩
  have hswept := ((c.shards σ).swept_sweep c.cfg now).entries
  refine (h.reached σ).clear (fun i => (hswept i).imp_right And.left) fun i x j hi hnone hx => ?_
  rcases hswept i with hsame | ⟨-, hswe⟩
  · rw [← hsame] at hi
    rw [show ((c.shards σ).sweep c.cfg now).entries i = none from hnone] at hi
    cases hi
  · obtain ⟨e, he⟩ := isSome_iff_exists.1 hi
    obtain ⟨hlt, hσ⟩ := lt_of_placed h.masks (h.sound σ) he
    have hcell := all_eq_true.1 (all_eq_true.1 hok σ (mem_range.2 hσ)) i
      (mem_range.2 hlt)
    rw [sweepable_of_sweepable hswe, Bool.true_and, Bool.not_eq_true'] at hcell
    exact not_passes_of_shields h.masks (h.sound σ) hcell x j hx

lemma Open.step (hok : c.uncut op) : (c.step op).Open := by
  cases op with
  | get k => exact h.get k
  | put k row isDirty ttl now =>
    show (c.onShard k fun sh cfg k => sh.put cfg k row isDirty ttl now).Open
    exact h.fills (Shard.fills_put _ _ _ _ _ _ _)
  | erase k version now =>
    show (c.onShard k fun sh cfg k => sh.erase cfg k version now).Open
    exact h.fills (Shard.fills_erase _ _ _ _ _)
  | markFlushed => exact h.markFlushed hok
  | notifyRemoteVersion => exact h.notifyRemoteVersion hok
  | setPinned k pinned =>
    show (c.onShard k fun sh cfg k => sh.setPinned cfg k pinned).Open
    exact h.fills (by rw [Shard.entries_setPinned])
  | sweep => exact h.sweep hok
  | getEntity k answer now => exact h.getEntity k answer now

end

lemma open_start (cfg : EntityCacheConfig) : (start cfg).Open :=
  ⟨masks_prepared cfg, sound_start cfg, fun _ _ _ he => (some_ne_none _ he.symm).elim⟩

/-- In a run that empties no slot before a stored key in its window, every stored entity that is not
a tombstone is read. -/
theorem found_of_uncut (cfg : EntityCacheConfig) (ops : List Op) (c : EntityCache)
    (hok : Runs.Meets (fun c op => some (c.step op)) (fun c op => c.uncut op = true)
      (start cfg) ops)
    (hrun : (start cfg).run ops = some c) : c.Found := by
  refine Open.found (Runs.run_induction (fun h hok hstep => ?_) (open_start cfg) hok hrun)
  cases hstep
  exact h.step hok

def sixteen : EntityCacheConfig := { shards := 1, slotsPerShard := 16, probe := 4 }

def first : Key := { table := 1, pk := str "7" }

def second : Key := { table := 1, pk := str "27" }

def fromBehind : List Op :=
  [.put first { data := str "x", version := 1 } true 0 0,
    .put second { data := str "y", version := 1 } true 0 0,
    .markFlushed second 1, .notifyRemoteVersion second 2, .sweep 5, .erase first 2 6,
    .markFlushed first 2,
    .put second { data := str "z", version := 3 } false 0 7]

theorem found_fromBehind : ∃ c, (start sixteen).run fromBehind = some c ∧ c.Found ∧
      c.read second = some { data := str "z", version := 3 } := by
  have heval : ((start sixteen).run fromBehind).map (fun c => c.read second) =
      some (some { data := str "z", version := 3 }) := by
    decide +kernel
  have hok : Runs.meetsAll (fun c op => some (c.step op)) uncut (start sixteen) fromBehind
    = true := by
    decide +kernel
  obtain ⟨c, hrun, hc⟩ := map_eq_some_iff.1 heval
  exact ⟨c, hrun, found_of_uncut sixteen fromBehind c (Runs.meets_of_meetsAll hok) hrun, hc⟩

def fromFront : EntityCache :=
  (((start sixteen).step (.put first { data := str "x", version := 1 } false 0 0)).step
    (.put second { data := str "y", version := 1 } true 0 0)).step (.notifyRemoteVersion first 2)

theorem not_found_fromFront :
    (start sixteen).run [.put first { data := str "x", version := 1 } false 0 0,
        .put second { data := str "y", version := 1 } true 0 0, .notifyRemoteVersion first 2] =
      some fromFront ∧ ¬ fromFront.Found := by
  refine ⟨rfl, fun hfound => ?_⟩
  have hstored : ((fromFront.shards 0).entries 4).map (fun e => (e.key, e.state)) =
      some (second, .Dirty) := by
    decide +kernel
  have hmiss : fromFront.read second = none := rfl
  obtain ⟨e, he, hes⟩ := map_eq_some_iff.1 hstored
  obtain ⟨hkey, hstate⟩ := Prod.mk.inj hes
  have hread := hfound 0 4 e he (by rw [hstate]; nofun)
  rw [hkey, hmiss] at hread
  cases hread

end EntityCache

end SpidoNG.Entity
