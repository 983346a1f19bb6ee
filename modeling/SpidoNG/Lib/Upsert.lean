import Mathlib.Tactic

/-!
# Insert or update

A table holds at most one content for each key.
-/

namespace Upsert

open List Option Function

variable {K D V : Type}

def put (allow : D → D → Bool) (x : Option D) (d : D) : Option D :=
  match x with
  | none => some d
  | some y => if allow y d then some d else some y

def putAll (allow : D → D → Bool) (ds : List D) (x : Option D) : Option D := ds.foldl (put allow) x

@[simp] lemma putAll_nil (allow : D → D → Bool) (x : Option D) : putAll allow [] x = x := rfl

@[simp] lemma putAll_cons (allow : D → D → Bool) (d : D) (ds : List D) (x : Option D) :
    putAll allow (d :: ds) x = putAll allow ds (put allow x d) := rfl

lemma putAll_concat (allow : D → D → Bool) (d : D) (ds : List D) (x : Option D) :
    putAll allow (ds ++ [d]) x = put allow (putAll allow ds x) d := by
  simp [putAll, foldl_append]

lemma put_ne_none (allow : D → D → Bool) (x : Option D) (d : D) : put allow x d ≠ none := by
  unfold put
  split
  · simp
  · split_ifs <;> simp

variable {ds : List D}

lemma putAll_ne_none (allow : D → D → Bool) {x : Option D} (h : ds ≠ [] ∨ x ≠ none) :
    putAll allow ds x ≠ none := by
  induction ds generalizing x with
  | nil => simpa using h
  | cons d _ ih => exact ih (.inr (put_ne_none allow x d))

variable {y d : D}

lemma mem_of_putAll {allow : D → D → Bool} {z : D}
    (h : putAll allow ds (some y) = some z) : z = y ∨ z ∈ ds := by
  induction ds generalizing y with
  | nil => exact .inl (some.inj h).symm
  | cons _ _ ih =>
    rw [putAll_cons] at h
    unfold put at h
    dsimp only at h
    split_ifs at h
    · rcases ih h with rfl | hz
      · exact .inr (by simp)
      · exact .inr (by simp [hz])
    · rcases ih h with rfl | hz
      · exact .inl rfl
      · exact .inr (by simp [hz])

lemma putAll_true (ds : List D) (x : Option D) :
    putAll (fun _ _ => true) ds x = if ds = [] then x else ds.getLast? := by
  induction ds using reverseRecOn with
  | nil => simp
  | append_singleton =>
    rw [putAll_concat]
    unfold put
    split <;> simp

lemma putAll_true_iff (ds : List D) (s : D) :
    (∀ x, putAll (fun _ _ => true) ds x = put (fun _ _ => true) x s) ↔ ds.getLast? = some s := by
  have hput : ∀ x, put (fun _ _ => true) x s = some s := by
    intro x
    cases x <;> rfl
  constructor
  · intro h
    have hnone := h none
    rw [putAll_true, hput] at hnone
    split_ifs at hnone
    exact hnone
  · intro h x
    have hne : ds ≠ [] := by
      rintro rfl
      cases h
    rw [putAll_true, hput, if_neg hne, h]

section Versions

variable [LinearOrder V] (ver : D → Option V)

def newer (y d : D) : Bool :=
  match ver y, ver d with
  | some u, some w => decide (u ≤ w)
  | _, _ => false

variable {ver}

lemma newer_iff : newer ver y d ↔ ∃ u w, ver y = some u ∧ ver d = some w ∧ u ≤ w := by
  unfold newer
  cases ver y <;> cases ver d <;> simp

lemma putAll_newer_of_none (hy : ver y = none) (ds : List D) :
    putAll (newer ver) ds (some y) = some y := by
  have hold : ∀ d, newer ver y d = false := by
    intro d
    simp [newer, hy]
  induction ds with
  | nil => rfl
  | cons d _ ih => rw [putAll_cons, put, hold d]; exact ih

lemma putAll_newer_of_some {u : V} (hy : ver y = some u) (ds : List D) :
    ∃ z w, putAll (newer ver) ds (some y) = some z ∧ ver z = some w ∧ u ≤ w ∧
      (∀ d ∈ ds, ∀ v, ver d = some v → v ≤ w) ∧
      ((y :: ds).filter fun d => decide (ver d = some w)).getLast? = some z := by
  induction ds using reverseRecOn with
  | nil => exact ⟨y, u, rfl, hy, le_refl u, by simp, by simp [hy]⟩
  | append_singleton _ d ih =>
    obtain ⟨z, w, hz, hw, huw, hall, hlast⟩ := ih
    rw [putAll_concat, hz]
    by_cases hnew : newer ver z d
    · obtain ⟨w', v, hw', hv, hle⟩ := newer_iff.1 hnew
      cases hw.symm.trans hw'
      refine ⟨d, v, by simp [put, hnew], hv, huw.trans hle, ?_, ?_⟩
      · intro e he v' hv'
        rcases mem_append.1 he with he | he
        · exact (hall e he v' hv').trans hle
        · cases mem_singleton.1 he
          exact (some.inj (hv'.symm.trans hv)).le
      · rw [← cons_append, filter_append]
        simp [hv]
    · have hd : ∀ v, ver d = some v → v < w := by
        intro v hv
        by_contra hlt
        exact hnew (newer_iff.2 ⟨w, v, hw, hv, not_lt.1 hlt⟩)
      refine ⟨z, w, by simp [put, hnew], hw, huw, ?_, ?_⟩
      · intro e he v' hv'
        rcases mem_append.1 he with he | he
        · exact hall e he v' hv'
        · cases mem_singleton.1 he
          exact (hd v' hv').le
      · have hne : ver d ≠ some w := fun h => (hd w h).ne rfl
        rw [← cons_append, filter_append]
        simpa [hne] using hlast

variable (ver)

def Prevails (ds : List D) (s : D) : Prop :=
  match ver s with
  | some v =>
    (∃ d u, ds.head? = some d ∧ ver d = some u) ∧ (∀ d ∈ ds, ∀ w, ver d = some w → w ≤ v) ∧
      (ds.filter fun d => decide (ver d = some v)).getLast? = some s
  | none => ds.head? = some s ∧ ∀ d ∈ ds, ∀ y, newer ver y d = true → y = d

variable {ver}

lemma putAll_of_prevails {s : D} {v : V} (hs : ver s = some v)
    (h : Prevails ver ds s) (x : Option D) : putAll (newer ver) ds x = put (newer ver) x s := by
  simp only [Prevails, hs] at h
  obtain ⟨⟨d, u, hd, hu⟩, hall, hlast⟩ := h
  have hmem : s ∈ ds := mem_of_mem_filter (mem_of_getLast? hlast)
  cases x with
  | none =>
    -- The first content is inserted, and then the greatest version wins.
    obtain ⟨rest, rfl⟩ : ∃ rest, ds = d :: rest := by
      cases ds with
      | nil => cases hd
      | cons e rest => exact ⟨rest, by cases hd; rfl⟩
    obtain ⟨z, w, hz, hw, huw, hmax, hfilter⟩ := putAll_newer_of_some hu rest
    have hvw : v ≤ w := by
      rcases mem_cons.1 hmem with rfl | hm
      · rw [hs] at hu
        exact (some.inj hu).le.trans huw
      · exact hmax s hm v hs
    have hwv : w ≤ v := by
      rcases mem_of_putAll hz with rfl | hm
      · exact hall z (by simp) w hw
      · exact hall z (by simp [hm]) w hw
    cases le_antisymm hvw hwv
    rw [putAll_cons]
    show putAll (newer ver) rest (some d) = some s
    rw [hz, ← hlast, hfilter]
  | some y =>
    cases hy : ver y with
    | none =>
      rw [putAll_newer_of_none hy]
      simp [put, newer, hy]
    | some u' =>
      obtain ⟨z, w, hz, hw, huw, hmax, hfilter⟩ := putAll_newer_of_some hy ds
      have hvw : v ≤ w := hmax s hmem v hs
      by_cases hle : u' ≤ v
      · have hwv : w ≤ v := by
          rcases mem_of_putAll hz with rfl | hm
          · rw [hy] at hw
            exact (some.inj hw).symm.le.trans hle
          · exact hall z hm w hw
        cases le_antisymm hvw hwv
        have hput : put (newer ver) (some y) s = some s := by
          simp [put, newer_iff.2 ⟨u', v, hy, hs, hle⟩]
        rw [hput, hz, ← hfilter, ← hlast, filter_cons]
        split_ifs
        · rw [getLast?_cons, hlast]
          rfl
        · rfl
      · have hzy : z = y := by
          rcases mem_of_putAll hz with h | hm
          · exact h
          · exact absurd (huw.trans (hall z hm w hw)) hle
        have hold : newer ver y s = false := by simp [newer, hy, hs, hle]
        rw [hz, hzy, put, hold]
        rfl

lemma putAll_eq_self_iff (ds : List D) :
    (∀ y, putAll (newer ver) ds (some y) = some y) ↔ ∀ d ∈ ds, ∀ y, newer ver y d → y = d := by
  induction ds using reverseRecOn with
  | nil => simp
  | append_singleton ds e ih =>
    have hself : (∀ y, newer ver y e → y = e) → ∀ z, put (newer ver) (some z) e = some z := by
      intro he z
      by_cases hnew : newer ver z e
      · simp [put, he z hnew]
      · simp [put, hnew]
    constructor
    · intro h
      -- Whatever is there when `e` comes, `e` leaves what was there at the beginning.
      have he : ∀ y, newer ver y e → y = e := by
        intro y hnew
        obtain ⟨u, v, hy, hv, hle⟩ := newer_iff.1 hnew
        obtain ⟨z, w, hz, -, -, -, -⟩ := putAll_newer_of_some hy ds
        have hput := h y
        rw [putAll_concat, hz] at hput
        by_cases hz' : newer ver z e
        · simp only [put, hz', if_true] at hput
          exact (some.inj hput).symm
        · simp only [put, hz', if_false, Bool.false_eq_true] at hput
          cases some.inj hput
          exact absurd hnew hz'
      have hds := ih.1 fun y => by
        have hput := h y
        rw [putAll_concat] at hput
        obtain ⟨z, hz⟩ := ne_none_iff_exists'.1
          (@putAll_ne_none D ds (newer ver) _ (.inr (some_ne_none y)))
        rwa [hz, hself he, ← hz] at hput
      intro d hd
      rcases mem_append.1 hd with hd | hd
      · exact hds d hd
      · cases mem_singleton.1 hd
        exact he
    · intro h y
      rw [putAll_concat, ih.2 fun d hd => h d (by simp [hd])]
      exact hself (h e (by simp)) y

lemma putAll_newer_iff (ds : List D) (s : D) :
    (∀ x, putAll (newer ver) ds x = put (newer ver) x s) ↔ Prevails ver ds s := by
  have hfirst : (∀ x, putAll (newer ver) ds x = put (newer ver) x s) →
      ∃ d rest, ds = d :: rest ∧ putAll (newer ver) rest (some d) = some s := by
    intro h
    cases ds with
    | nil => exact absurd (h none) (by simp [put])
    | cons d rest => exact ⟨d, rest, rfl, h none⟩
  cases hs : ver s with
  | some =>
    refine ⟨?_, fun h x => putAll_of_prevails hs h x⟩
    intro h
    obtain ⟨d, rest, rfl, hrest⟩ := hfirst h
    cases hd : ver d with
    | none =>
      rw [putAll_newer_of_none hd, some.injEq] at hrest
      rw [hrest, hs] at hd
      cases hd
    | some u =>
      obtain ⟨z, w, hz, hw, huw, hmax, hfilter⟩ := putAll_newer_of_some hd rest
      cases hz.symm.trans hrest
      cases hw.symm.trans hs
      simp only [Prevails, hs]
      refine ⟨⟨d, u, rfl, hd⟩, ?_, hfilter⟩
      intro e he v' hv'
      rcases mem_cons.1 he with rfl | he
      · rw [hd] at hv'
        exact (some.inj hv').symm.le.trans huw
      · exact hmax e he v' hv'
  | none =>
    have hput : ∀ y, put (newer ver) (some y) s = some y := by
      intro y
      have : newer ver y s = false := by
        unfold newer
        rw [hs]
        cases ver y <;> rfl
      simp [put, this]
    simp only [Prevails, hs]
    constructor
    · intro h
      obtain ⟨d, rest, rfl, hrest⟩ := hfirst h
      refine ⟨?_, (putAll_eq_self_iff _).1 fun y => (h (some y)).trans (hput y)⟩
      cases hd : ver d with
      | none =>
        rw [putAll_newer_of_none hd] at hrest
        exact hrest
      | some =>
        obtain ⟨z, w, hz, hw, -⟩ := putAll_newer_of_some hd rest
        cases hz.symm.trans hrest
        cases hs.symm.trans hw
    · rintro ⟨hhead, hself⟩ x
      cases x with
      | none =>
        cases ds with
        | nil => cases hhead
        | cons d rest =>
          cases hhead
          exact putAll_newer_of_none hs rest
      | some y => rw [(putAll_eq_self_iff ds).2 hself y, hput y]

end Versions

section Tables

variable [DecidableEq K]

abbrev Table (K D : Type) := K → Option D

def store (allow : D → D → Bool) (t : Table K D) (p : K × D) : Table K D :=
  update t p.1 (put allow (t p.1) p.2)

def storeAll (allow : D → D → Bool) (ps : List (K × D)) (t : Table K D) : Table K D :=
  ps.foldl (store allow) t

def contents (k : K) (ps : List (K × D)) : List D :=
  ps.filterMap fun p => if p.1 = k then some p.2 else none

def storeOnce (allow : D → D → Bool) : List (K × D) → List K → Table K D → Option (Table K D)
  | [], _, t => some t
  | (k, d) :: ps, touched, t =>
    match t k with
    | none => storeOnce allow ps (k :: touched) (update t k (some d))
    | some y =>
      if k ∈ touched then none
      else if allow y d then storeOnce allow ps (k :: touched) (update t k (some d))
      else storeOnce allow ps touched t

variable {allow : D → D → Bool}

lemma storeAll_apply (ps : List (K × D)) (t : Table K D) (k : K) :
    storeAll allow ps t k = putAll allow (contents k ps) (t k) := by
  induction ps generalizing t with
  | nil => rfl
  | cons p ps ih =>
    show storeAll allow ps (store allow t p) k = _
    rw [ih]
    by_cases hk : p.1 = k
    · subst hk
      simp [contents, store]
    · have hne : k ≠ p.1 := fun h => hk h.symm
      simp [contents, store, hk, hne]

variable {ps : List (K × D)}

lemma mem_contents {k : K} : d ∈ contents k ps ↔ (k, d) ∈ ps := by
  simp only [contents, mem_filterMap, ite_none_right_eq_some, some.injEq, Prod.exists]
  constructor
  · rintro ⟨k', d', hp, rfl, rfl⟩
    exact hp
  · intro hp
    exact ⟨k, d, hp, rfl, rfl⟩

lemma contents_eq_nil {k : K} : contents k ps = [] ↔ ∀ d, (k, d) ∉ ps := by
  simp only [eq_nil_iff_forall_not_mem, mem_contents]

lemma contents_eq_singleton {k : K}
    (hnodup : (ps.map Prod.fst).Nodup) (h : (k, d) ∈ ps) : contents k ps = [d] := by
  induction ps with
  | nil => cases h
  | cons p ps ih =>
    obtain ⟨hp, hps⟩ := nodup_cons.1 hnodup
    rcases mem_cons.1 h with rfl | h
    · have hrest : contents k ps = [] :=
        contents_eq_nil.2 fun d' hd' => hp (mem_map.2 ⟨(k, d'), hd', rfl⟩)
      unfold contents at hrest ⊢
      simp [hrest]
    · have hne : p.1 ≠ k := fun hk => hp (mem_map.2 ⟨(k, d), h, hk.symm⟩)
      have hrest := ih hps h
      unfold contents at hrest ⊢
      simpa [hne] using hrest

lemma storeOnce_of_nodup {touched : List K} {t : Table K D}
    (hnodup : (ps.map Prod.fst).Nodup) (hdisj : ∀ p ∈ ps, p.1 ∉ touched) :
    storeOnce allow ps touched t = some (storeAll allow ps t) := by
  induction ps generalizing touched t with
  | nil => rfl
  | cons p ps ih =>
    obtain ⟨k, d⟩ := p
    obtain ⟨hk, hps⟩ := nodup_cons.1 hnodup
    have hrest : ∀ q ∈ ps, q.1 ∉ touched := fun q hq => hdisj q (by simp [hq])
    have hcons : ∀ q ∈ ps, q.1 ∉ k :: touched := by
      intro q hq hmem
      rcases mem_cons.1 hmem with hqk | hmem
      · exact hk (mem_map.2 ⟨q, hq, hqk⟩)
      · exact hrest q hq hmem
    have hstore : storeAll allow ((k, d) :: ps) t =
        storeAll allow ps (update t k (put allow (t k) d)) := rfl
    unfold storeOnce
    rw [hstore]
    cases hy : t k with
    | none => exact ih hps hcons
    | some y =>
      have hnot : k ∉ touched := hdisj (k, d) (by simp)
      simp only [if_neg hnot]
      by_cases hall : allow y d
      · rw [if_pos hall, ih hps hcons]
        simp [put, hall]
      · rw [if_neg hall, ih hps hrest]
        simp [put, hall, ← hy]

lemma storeOnce_of_not_nodup {touched : List K} {t : Table K D} (ht : ∀ k, t k ≠ none ↔ k ∈ touched)
    (h : ¬ ((ps.map Prod.fst).Nodup ∧ ∀ p ∈ ps, p.1 ∉ touched)) :
    storeOnce allow ps touched t = none := by
  induction ps generalizing touched t with
  | nil => exact absurd ⟨nodup_nil, by simp⟩ h
  | cons p _ ih =>
    obtain ⟨k, d⟩ := p
    unfold storeOnce
    cases hy : t k with
    | some =>
      have hmem : k ∈ touched := (ht k).1 (by simp [hy])
      simp only [if_pos hmem]
    | none =>
      have hnot : k ∉ touched := fun hmem => (ht k).2 hmem hy
      apply ih
      · intro k'
        by_cases hk : k' = k
        · simp [hk]
        · simp [hk, ht k']
      · rintro ⟨hnodup, hdisj⟩
        refine h ⟨nodup_cons.2 ⟨?_, hnodup⟩, ?_⟩
        · intro hmem
          obtain ⟨q, hq, hqk⟩ := mem_map.1 hmem
          exact hdisj q hq (by simp [hqk])
        · intro q hq
          rcases mem_cons.1 hq with rfl | hq
          · exact hnot
          · exact fun hmem => hdisj q hq (by simp [hmem])

end Tables

end Upsert
