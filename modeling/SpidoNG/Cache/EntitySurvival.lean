import SpidoNG.Cache.EntityReach

/-!
# Unflushed entries of the entity cache

A dirty row or a tombstone stands for a write that PostgreSQL has not seen yet.
-/

namespace SpidoNG.Entity

open Bytes Option Function

def Op.releases (k : Key) (version : ℕ) : Op → Bool
  | .put k' _ isDirty _ _ => k' = k && isDirty
  | .erase k' _ _ => k' = k
  | .markFlushed k' w => k' = k && version ≤ w
  | _ => false

namespace EntityCache

variable {c c' : EntityCache} {cfg : EntityCacheConfig} {k k' : Key} {op : Op} {e e' : Entry}
  {ops : List Op} {now : ℕ}

def Retained (cfg : EntityCacheConfig) (ops : List Op) : Prop :=
  ∀ before after c c' k e, ops = before ++ after → (start cfg).run before = some c →
    c.run after = some c' → c.Stores k e → e.state.unflushed = true →
    (∀ op ∈ after, op.releases k e.version = false) →
    c'.Stores k e ∧ (e.state = .Tombstone → c'.read k = none)

def entry (c : EntityCache) (k : Key) : Option Entry :=
  ((c.shardOf k).find c.cfg k).bind (c.shardOf k).entries

def sparing (c : EntityCache) : Op → Bool
  | .put k _ isDirty _ _ => isDirty || (c.entry k).all fun e => !e.state.unflushed
  | .getEntity k answer _ =>
    answer.isNone || (c.read k).isSome || (c.entry k).all fun e => !e.state.unflushed
  | .notifyRemoteVersion k remoteVersion =>
    (c.entry k).all fun e => e.state ≠ .Tombstone || remoteVersion ≤ e.version
  | _ => true

lemma Sound.entry_eq (h : c.Sound) (hs : c.Stores k e) : c.entry k = some e := by
  obtain ⟨rfl, j, hj⟩ := hs
  have hfind := (h _).find_eq ⟨e, hj, rfl⟩
  rw [c.cfg.windowIn_self] at hfind
  unfold entry Shard.find
  unfold shardOf at hj ⊢
  rw [hfind]
  exact hj

lemma Sound.eq_of_stores (h : c.Sound) (hs : c.Stores k e) (hs' : c.Stores k e') : e = e' := by
  have heq := h.entry_eq hs
  rw [h.entry_eq hs'] at heq
  exact (some.inj heq).symm

lemma Sound.read_eq_none (h : c.Sound) (hs : c.Stores k e) (htomb : e.state = .Tombstone) :
    c.read k = none := by
  unfold read Shard.hit
  cases hwalk : Probing.walk Entry.key (c.shardOf k).entries k (c.cfg.window k) with
  | none => rfl
  | some j =>
    obtain ⟨e', he', hk⟩ := Probing.holds_of_walk hwalk
    have hsame : e = e' := h.eq_of_stores hs ⟨hk, j, he'⟩
    subst hsame
    rw [bind_some, he', bind_some, if_pos htomb]
    rfl

lemma fills_keep {t t' : ℕ → Option Entry} {j : ℕ} (hfills : Shard.Fills cfg k t t')
    (he : t j = some e) (hne : e.key ≠ k) (hun : e.state.unflushed) : t' j = some e := by
  induction hfills with
  | refl => exact he
  | tail _ hfill ih =>
    cases hfill with
    | @fill i _ _ ht =>
      have hij : j ≠ i := by
        rintro rfl
        cases ht with
        | same _ h =>
          obtain ⟨y, hy, hky⟩ := h
          rw [ih] at hy
          cases hy
          exact hne hky
        | empty _ _ h =>
          rw [ih] at h
          cases h
        | victim _ _ _ h hclean =>
          rw [ih] at h
          cases h
          rw [hun] at hclean
          cases hclean
      rw [update_of_ne hij]
      exact ih
    | @amend i _ hk hx _ =>
      have hij : j ≠ i := by
        rintro rfl
        rw [ih] at hx
        cases hx
        exact hne hk
      rw [update_of_ne hij]
      exact ih

variable {f : Shard → EntityCacheConfig → Key → Shard}

lemma Stores.onShard (hs : c.Stores k e)
    (hf : ∀ j, (c.shardOf k').entries j = some e → (f (c.shardOf k') c.cfg k').entries j = some e) :
    (c.onShard k' f).Stores k e := by
  obtain ⟨hk, j, hj⟩ := hs
  refine ⟨hk, j, ?_⟩
  by_cases hσ : c.cfg.shardFor k = c.cfg.shardFor k'
  · have hshard : c.shardOf k = c.shardOf k' := by rw [shardOf, shardOf, hσ]
    have hshard' : (c.onShard k' f).shardOf k = (c.onShard k' f).shardOf k' := by
      rw [shardOf, shardOf, cfg_onShard, hσ]
    rw [hshard', shards_onShard_self]
    exact hf j (hshard ▸ hj)
  · show ((c.onShard k' f).shards (c.cfg.shardFor k)).entries j = some e
    rw [shards_onShard_of_ne f hσ]
    exact hj

lemma Stores.fills (hs : c.Stores k e) (hun : e.state.unflushed) (hne : k ≠ k')
    (hf : Shard.Fills c.cfg k' (c.shardOf k').entries (f (c.shardOf k') c.cfg k').entries) :
    (c.onShard k' f).Stores k e :=
  hs.onShard fun _ hj => fills_keep hf hj (by rw [hs.1]; exact hne) hun

lemma Stores.get (hs : c.Stores k e) (k' : Key) : (c.onShard k' Shard.get).Stores k e :=
  hs.onShard fun j hj => by rw [Shard.entries_get]; exact hj

lemma Stores.update {j : ℕ} {x : Option Entry}
    (hs : c.Stores k e) (he' : (c.shardOf k').entries j = some e') (hne : e' ≠ e)
    (hf : (f (c.shardOf k') c.cfg k').entries = update (c.shardOf k').entries j x) :
    (c.onShard k' f).Stores k e := by
  refine hs.onShard fun i hi => ?_
  have hij : i ≠ j := by
    rintro rfl
    rw [he'] at hi
    exact hne (some.inj hi)
  rw [hf, update_of_ne hij]
  exact hi

lemma Stores.markFlushed (hs : c.Stores k e) {version : ℕ}
    (hno : (Op.markFlushed k' version).releases k e.version = false) :
    (c.step (.markFlushed k' version)).Stores k e := by
  have hoth : ∀ {x : Entry}, x.key = k' → x.version ≤ version → x ≠ e := by
    rintro x hk hle rfl
    have hreleases : (Op.markFlushed k' version).releases k x.version := by
      simp [Op.releases, ← hk, hs.1, hle]
    rw [hreleases] at hno
    cases hno
  obtain hsame | ⟨j, x, hx, hk, hle, ⟨-, hfree⟩ | hclean⟩ :=
    (c.shardOf k').markFlushed_cases c.cfg k' version
  · exact hs.onShard fun j hj => by rw [hsame]; exact hj
  · exact hs.update hx (hoth hk hle) hfree
  · exact hs.update hx (hoth hk hle) hclean

section

variable (h : c.Sound) (hs : c.Stores k e) (hun : e.state.unflushed = true)
include h hs hun

lemma Stores.notifyRemoteVersion
    {remoteVersion : ℕ} (hok : c.sparing (.notifyRemoteVersion k' remoteVersion)) :
    (c.step (.notifyRemoteVersion k' remoteVersion)).Stores k e := by
  obtain hsame | ⟨j, x, hx, hk, hdirty, hflushing, hlt, hfree⟩ :=
    (c.shardOf k').notifyRemoteVersion_cases c.cfg k' remoteVersion
  · exact hs.onShard fun j hj => by rw [hsame]; exact hj
  · refine hs.update hx ?_ hfree
    rintro rfl
    replace hok : (c.entry k').all (fun e => e.state ≠ .Tombstone || remoteVersion ≤ e.version) :=
      hok
    rw [h.entry_eq ⟨hk, j, hx⟩] at hok
    have htomb : x.state = .Tombstone := by
      cases hst : x.state with
      | Clean => rw [hst] at hun; cases hun
      | Dirty => exact absurd hst hdirty
      | Flushing => exact absurd hst hflushing
      | Tombstone => rfl
    simp only [all_some, htomb, ne_eq, not_true_eq_false, decide_false, Bool.false_or,
      decide_eq_true_eq] at hok
    omega

omit h hs hun in
lemma Stores.sweep (hs : c.Stores k e) (hun : e.state.unflushed) :
    (c.step (.sweep now)).Stores k e := by
  obtain ⟨hk, j, hj⟩ := hs
  refine ⟨hk, j, ?_⟩
  rcases ((c.shardOf k).swept_sweep c.cfg now).entries j with hsame | ⟨-, x, hx, hclean, -⟩
  · exact hsame.trans hj
  · rw [hj] at hx
    cases hx
    rw [hun] at hclean
    cases hclean

lemma Sound.ne_of_all (hok : ((c.entry k').all fun e => !e.state.unflushed)) : k ≠ k' := by
  rintro rfl
  rw [h.entry_eq hs, all_some, hun] at hok
  cases hok

lemma Stores.getEntity {answer : Option Bytes} (hok : c.sparing (.getEntity k' answer now)) :
    (c.getEntity k' answer now).Stores k e := by
  replace hok : (answer.isNone || (c.read k').isSome ||
    (c.entry k').all fun e => !e.state.unflushed) := hok
  unfold EntityCache.getEntity
  split
  case h_1 data hmiss =>
    rw [hmiss] at hok
    have hne := h.ne_of_all hs hun (by simpa using hok)
    exact ((hs.get k').fills hun hne (Shard.fills_put _ _ _ _ _ _ _)).get k'
  case h_2 => exact hs.get k'

lemma Stores.step (hok : c.sparing op) (hno : op.releases k e.version = false) :
    (c.step op).Stores k e := by
  cases op with
  | get k' => exact hs.get k'
  | put _ _ isDirty =>
    refine hs.fills hun ?_ (Shard.fills_put _ _ _ _ _ _ _)
    cases isDirty with
    | true =>
      rintro rfl
      simp [Op.releases] at hno
    | false => exact h.ne_of_all hs hun (by simpa [sparing] using hok)
  | erase =>
    refine hs.fills hun ?_ (Shard.fills_erase _ _ _ _ _)
    rintro rfl
    simp [Op.releases] at hno
  | markFlushed => exact hs.markFlushed hno
  | notifyRemoteVersion => exact Stores.notifyRemoteVersion h hs hun hok
  | setPinned => exact hs.onShard fun j hj => by rw [Shard.entries_setPinned]; exact hj
  | sweep => exact hs.sweep hun
  | getEntity => exact Stores.getEntity h hs hun hok

omit h hs hun in
lemma sound_of_run (h : c.Sound) (hrun : c.run ops = some c') : c'.Sound := by
  have hok : Runs.Meets (fun c op => some (EntityCache.step c op)) (fun _ _ => True) c ops :=
    Runs.meets_of_forall (fun _ _ _ => trivial) _
  refine Runs.run_induction (fun h _ hstep => ?_) h hok hrun
  cases hstep
  exact h.step _

lemma Stores.run (hok : Runs.Meets (fun c op => some (c.step op)) (fun c op => c.sparing op) c ops)
    (hno : ∀ op ∈ ops, op.releases k e.version = false) (hrun : c.run ops = some c') :
    c'.Stores k e := by
  induction ops generalizing c with
  | nil =>
    cases hrun
    exact hs
  | cons op _ ih =>
    have hs' := Stores.step h hs hun hok.1 (hno op List.mem_cons_self)
    exact ih (h.step op) hs' (hok.2 _ rfl) (fun o ho => hno o (List.mem_cons_of_mem _ ho)) hrun

end

/-- Unflushed entries are retained in a run that puts no clean row over an unflushed one and
notifies no newer version for a tombstone. -/
theorem retained_of_sparing (cfg : EntityCacheConfig) (ops : List Op)
    (hok : Runs.Meets (fun c op => some (c.step op)) (fun c op => c.sparing op = true)
      (start cfg) ops) :
    Retained cfg ops := by
  rintro before after c c' k e rfl hbefore hafter hs hun hno
  have hsound : c.Sound := sound_of_run (sound_start cfg) hbefore
  have hs' := Stores.run hsound hs hun (Runs.meets_of_append hok hbefore) hno hafter
  exact ⟨hs', (sound_of_run hsound hafter).read_eq_none hs'⟩

lemma stores_of_entry (h : c.entry k = some e) : c.Stores k e := by
  obtain ⟨j, hfind, hj⟩ := bind_eq_some_iff.1 h
  obtain ⟨x, hx, hk⟩ := Probing.holds_of_find hfind
  rw [hj] at hx
  cases hx
  exact ⟨hk, j, hj⟩

def lifeOfFirst : List Op :=
  [.put first { data := str "x", version := 1 } true 5 0, .notifyRemoteVersion first 9, .sweep 100,
    .markFlushed first 0, .erase first 2 100, .markFlushed first 2,
    .getEntity first (some (str "y")) 101]

theorem retained_lifeOfFirst :
    Runs.meetsAll (fun c op => some (c.step op)) sparing (start sixteen) lifeOfFirst = true ∧
      Retained sixteen lifeOfFirst := by
  have hok : Runs.meetsAll (fun c op => some (c.step op)) sparing (start sixteen) lifeOfFirst
    = true := by
    decide +kernel
  exact ⟨hok, retained_of_sparing sixteen lifeOfFirst (Runs.meets_of_meetsAll hok)⟩

def erased : EntityCache := (start sixteen).step (.erase first 2 0)

def tombstone : Entry :=
  { key := first, row := { version := 2, tombstone := true }, state := .Tombstone, version := 2
    expiresAt := none, sizeBytes := 113 }

theorem not_retained_refill :
    ¬ Retained sixteen [.erase first 2 0, .getEntity first (some (str "x")) 1] := by
  intro h
  have hstored : erased.entry first = some tombstone := rfl
  have hback : (erased.step (.getEntity first (some (str "x")) 1)).read first =
      some { data := str "x", version := 1 } := by
    decide +kernel
  have hnone := (h [.erase first 2 0] [.getEntity first (some (str "x")) 1] erased _ first tombstone
    rfl rfl rfl (stores_of_entry hstored) rfl (by decide)).2 rfl
  rw [hback] at hnone
  cases hnone

end EntityCache

end SpidoNG.Entity
