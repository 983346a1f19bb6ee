import SpidoNG.Cache.EntityAdmission
import SpidoNG.Service.Reads
import SpidoNG.Service.Store

/-!
# Absent entities

`Db::get_entity` reads the row back from the entity cache, which may not have taken it.
-/

namespace SpidoNG.Service

open Bytes Pg Entity Entity.EntityCache

/-- The cache once the row that a query has found is put there. -/
def refill (c : EntityCache) (k : Key) (r : PgResult) (now : ℕ) : EntityCache :=
  c.onShard k fun sh cfg k => sh.put cfg k { data := entityData r, version := 1 } false 0 now

/-- `Db::get_entity`, where `r` is the result of the query. -/
def getEntityRow (c : EntityCache) (k : Key) (r : PgResult) (now : ℕ) : Option EntityRow :=
  match c.read k with
  | some row => some row
  | none =>
    if r.hadError ∨ r.rows.isEmpty then none
    else (refill (c.onShard k Shard.get) k r now).read k

/-- A row of the table is returned, an error is not taken for an absent row, and the answer is 404
only if there is no row. -/
structure Truthful (c : EntityCache) (k : Key) (r : PgResult) (now : ℕ) : Prop where
  found : r.hadError = false → r.rows.isEmpty = false → (getEntityRow c k r now).isSome
  told : r.hadError = true → c.read k = none → ∀ r' : PgResult, r'.hadError = false →
    r'.rows.isEmpty = true → getEntityRow c k r now ≠ getEntityRow c k r' now
  absent : (entityResponse ((getEntityRow c k r now).map EntityRow.data)).status = 404 →
    r.hadError = false ∧ r.rows.isEmpty = true

/-- No entry of the key in its range is a tombstone. -/
def Live (c : EntityCache) (k : Key) : Prop :=
  ∀ j ∈ c.cfg.window k, ∀ e, (c.shardOf k).entries j = some e → e.key = k → e.state ≠ .Tombstone

/-- The row is cached; or the query succeeds, and it finds no row, or one that the cache takes while
the key is not behind an empty slot of its range. -/
def Answerable (c : EntityCache) (k : Key) (r : PgResult) : Prop :=
  (c.read k).isSome ∨ r.hadError = false ∧ (r.rows.isEmpty = true ∨
    (c.shardOf k).Admits c.cfg k ∧ ∀ j ∈ c.cfg.window k,
      ¬ Probing.Holds Entry.key (c.shardOf k).entries k j)

variable {c : EntityCache} {k : Key} {r : PgResult} {now : ℕ}

lemma read_of_walk {j : ℕ} {e : Entry}
    (hwalk : Probing.walk Entry.key (c.shardOf k).entries k (c.cfg.window k) = some j)
    (he : (c.shardOf k).entries j = some e) (hstate : e.state ≠ .Tombstone) :
    c.read k = some e.row := by
  unfold EntityCache.read Shard.hit
  rw [hwalk, Option.bind_some, he, Option.bind_some, if_neg hstate]
  rfl

lemma walk_eq_none (hlive : Live c k) (hread : c.read k = none) :
    Probing.walk Entry.key (c.shardOf k).entries k (c.cfg.window k) = none := by
  by_contra hne
  obtain ⟨j, hwalk⟩ := Option.ne_none_iff_exists'.1 hne
  obtain ⟨e, he, hkey⟩ := Probing.holds_of_walk hwalk
  have hsome := read_of_walk hwalk he (hlive j (Probing.mem_of_walk hwalk) e he hkey)
  cases hread.symm.trans hsome

/-- What the row is put into, when it has not been found. -/
lemma getEntityRow_of_read_none (hread : c.read k = none) (hok : r.hadError = false)
    (hrow : r.rows.isEmpty = false) : getEntityRow c k r now = (refill c k r now).read k := by
  have hhit : (c.shardOf k).hit c.cfg k = none := Option.map_eq_none_iff.1 hread
  have hsame : c.onShard k Shard.get = c := by
    unfold onShard Shard.get
    rw [hhit]
    exact congrArg (EntityCache.mk c.cfg) (Function.update_eq_self _ _)
  unfold getEntityRow
  rw [hread, hsame]
  simp [hok, hrow]

lemma getEntityRow_isSome_iff (now : ℕ) (hlive : Live c k) (hread : c.read k = none)
    (hok : r.hadError = false) (hrow : r.rows.isEmpty = false) :
    (getEntityRow c k r now).isSome ↔ (c.shardOf k).Admits c.cfg k ∧
      ∀ j ∈ c.cfg.window k, ¬ Probing.Holds Entry.key (c.shardOf k).entries k j := by
  have hwalk := walk_eq_none hlive hread
  rw [getEntityRow_of_read_none hread hok hrow, Shard.admits_iff]
  cases htarget : (c.shardOf k).target c.cfg k with
  | none =>
    -- The row is dropped.
    have hsame : (refill c k r now).read k = c.read k := by
      unfold EntityCache.read refill
      rw [shards_onShard_self, Shard.put, htarget]
      rfl
    simp [hsame, hread]
  | some j =>
    have hentries := entries_put htarget { data := entityData r, version := 1 } false 0 now
    by_cases habsent : ∀ i ∈ c.cfg.window k, ¬ Probing.Holds Entry.key (c.shardOf k).entries k i
    · refine iff_of_true ?_ ⟨⟨j, rfl⟩, habsent⟩
      have hfound := Probing.walk_update (e := Shard.newEntry k
        { data := entityData r, version := 1 } false 0 now) rfl habsent
        ((Shard.target_spec htarget).reaches habsent)
      rw [← hentries] at hfound
      rw [refill, read_of_walk hfound (by rw [hentries, Function.update_self])
        (by simp [Shard.newEntry])]
      rfl
    · refine iff_of_false ?_ fun h => habsent h.2
      -- The key is there, but a lookup ends at an empty slot before it.
      push Not at habsent
      have hlost := Probing.walk_update_of_holds (k := k) (e := Shard.newEntry k
        { data := entityData r, version := 1 } false 0 now) rfl
        ((Shard.target_spec htarget).holds habsent) (c.cfg.window k)
      rw [← hentries, hwalk] at hlost
      have hnone : (refill c k r now).read k = none := by
        unfold EntityCache.read Shard.hit refill
        rw [cfg_onShard, hlost]
        rfl
      simp [hnone]

/-- **404 only for absent rows**: for a key without a tombstone exactly if it is cached, or the
query succeeds and what it finds can be read back from the cache. -/
theorem truthful_iff (c : EntityCache) (k : Key) (r : PgResult) (now : ℕ) (hlive : Live c k) :
    Truthful c k r now ↔ Answerable c k r := by
  unfold Answerable
  cases hread : c.read k with
  | some row =>
    have hsome : getEntityRow c k r now = some row := by rw [getEntityRow, hread]
    refine iff_of_true ⟨fun _ _ => by simp [hsome], by simp [hread], fun hstatus => ?_⟩ (.inl rfl)
    rw [hsome] at hstatus
    cases hstatus
  | none =>
    simp only [Option.isSome_none, Bool.false_eq_true, false_or]
    cases herror : r.hadError with
    | true =>
      refine iff_of_false (fun h => ?_) (by simp)
      -- An empty result gives the same.
      exact h.told herror hread {} rfl rfl (by simp [getEntityRow, hread, herror])
    | false =>
      cases hempty : r.rows.isEmpty with
      | true =>
        refine iff_of_true ⟨by simp [hempty], by simp [herror], fun _ => ⟨herror, hempty⟩⟩ ?_
        simp
      | false =>
        simp only [Bool.false_eq_true, false_or, true_and]
        rw [← getEntityRow_isSome_iff now hlive hread herror hempty]
        constructor
        · exact fun h => h.found herror hempty
        · intro hsome
          refine ⟨fun _ _ => hsome, by simp [herror], fun hstatus => ?_⟩
          obtain ⟨row, hrow⟩ := Option.isSome_iff_exists.1 hsome
          rw [hrow] at hstatus
          cases hstatus

def foundRow : PgResult := { rows := [[some (str "x")]] }

/-- The older slot of the window is clean, the other one dirty. -/
def cleanFirst : EntityCache :=
  ((start narrow).step (.put first {} false 0 0)).step (.put second {} true 0 0)

theorem truthful_cleanFirst : cleanFirst.read third = none ∧
    Truthful cleanFirst third foundRow 0 := by
  have hwindow : cleanFirst.cfg.window third = [3, 4] := by decide +kernel
  have habsent : ∀ j ∈ cleanFirst.cfg.window third,
      ¬ Probing.Holds Entry.key (cleanFirst.shardOf third).entries third j := by
    rw [hwindow]
    decide +kernel
  have hoccupied : (cleanFirst.shardOf third).Admits cleanFirst.cfg third :=
    Shard.admits_iff.2 ⟨3, by decide +kernel⟩
  refine ⟨by decide +kernel, (truthful_iff _ _ _ _ ?_).2 (.inr ⟨rfl, .inr ⟨hoccupied, habsent⟩⟩)⟩
  exact fun j hj e he hkey => absurd ⟨e, he, hkey⟩ (habsent j hj)

/-- The row is dropped although a slot is clean; and an error looks like an absent row. -/
theorem not_truthful : (Live halfDirty third ∧ ¬ Truthful halfDirty third foundRow 0) ∧
    Live (start sixteen) first ∧
      ¬ Truthful (start sixteen) first (PgResult.error (str "down")) 0 := by
  refine ⟨⟨fun j hj e he hkey => ?_, fun h => ?_⟩, fun j hj e he => ?_, fun h => ?_⟩
  · have habsent : ∀ j ∈ halfDirty.cfg.window third,
        ¬ Probing.Holds Entry.key (halfDirty.shardOf third).entries third j := by
      rw [show halfDirty.cfg.window third = [3, 4] by decide +kernel]
      decide +kernel
    exact absurd ⟨e, he, hkey⟩ (habsent j hj)
  · have hsome := h.found rfl rfl
    revert hsome
    decide +kernel
  · cases he
  · exact h.told rfl (by decide +kernel) {} rfl rfl (by decide +kernel)

end SpidoNG.Service
