import SpidoNG.Cache.LastPut

/-!
# Entries of dirty tables

`put` looks for a victim whose table is not dirty, but takes the least recent one if there is none.
-/

namespace SpidoNG.Cache

open Bytes List Option Function

variable {Tid V α : Type} {σ σ' σ'' : State Tid V} {key : Bytes} {l : Loc} {P : Entry V → Prop}

/-- The entries of dirty tables are where they were, those that satisfy `P`. -/
structure Guards (P : Entry V → Prop) (σ σ' : State Tid V) : Prop where
  dirty : σ'.dirty = σ.dirty
  entry : ∀ {l e}, (σ.slots l).entry = some e → P e → σ.slotDirty l = true →
    (σ'.slots l).entry = some e

/-- Nothing is lost with what is in the slot. -/
def Spare (P : Entry V → Prop) (σ : State Tid V) (l : Loc) : Prop :=
  ∀ e, (σ.slots l).entry = some e → P e → σ.slotDirty l = false

lemma slotDirty_congr (hent : (σ'.slots l).entry = (σ.slots l).entry)
    (hdirty : σ'.dirty = σ.dirty) :
    σ'.slotDirty l = σ.slotDirty l := by
  unfold State.slotDirty State.isDirty
  rw [hent, hdirty]

lemma guards_of_entries (h : ∀ l, (σ'.slots l).entry = (σ.slots l).entry)
    (hdirty : σ'.dirty = σ.dirty) :
    Guards P σ σ' :=
  ⟨hdirty, fun he _ _ => (h _).trans he⟩

lemma Guards.trans (h : Guards P σ σ') (h' : Guards P σ' σ'') : Guards P σ σ'' where
  dirty := h'.dirty.trans h.dirty
  entry he hP hd := by
    have he' := h.entry he hP hd
    exact h'.entry he' hP ((slotDirty_congr (he'.trans he.symm) h.dirty).trans hd)

lemma guards_vacate (h : Spare P σ l) (owner : Option Tid) : Guards P σ (σ.vacate l owner) where
  dirty := rfl
  entry {l' e} he hP hd := by
    by_cases hl : l' = l
    · subst hl
      cases hd.symm.trans (h e he hP)
    · simpa [State.vacate, hl] using he

lemma guards_fill (h : (σ.slots l).entry = none) (e : Entry V) : Guards P σ (σ.fill l e) where
  dirty := rfl
  entry {l' e'} he hP hd := by
    by_cases hl : l' = l
    · subst hl
      cases h.symm.trans he
    · simpa [State.fill, hl] using he

/-- The range has the key, an empty slot, or an entry of a table that is not dirty. -/
def Room (key : Bytes) (σ : State Tid V) : Prop :=
  ∃ l ∈ probes key, HasKey σ key l ∨ σ.slotDirty l = false

abbrev OfOther (key : Bytes) (e : Entry V) : Prop := e.key ≠ key

lemma Chosen.spare (h : Chosen key σ l) (hroom : Room key σ) : Spare (OfOther key) σ l := by
  intro e he hne
  rcases h with ⟨e', he', hkey⟩ | ⟨-, habs, hclean⟩
  · cases he.symm.trans he'
    exact absurd hkey hne
  · obtain ⟨l', hl', hkey | hl'clean⟩ := hroom
    · exact absurd hkey (habs l' hl')
    · exact hclean ⟨l', hl', hl'clean⟩

variable [DecidableEq Tid] {cfg : CacheConfig V} {clock : ℕ} {t : Tid} {ls : List Loc}

lemma sees_oldestSlot {victim : Option Loc} {oldest : ℕ}
    (hvic : ∀ l, victim = some l → σ.slotDirty l = false) :
    Sees cfg clock t σ (oldestSlot ls victim oldest) fun r => ∀ l, r = some l →
      σ.slotDirty l = false := by
  induction ls generalizing victim oldest with
  | nil => exact under_alone_pure ⟨rfl, hvic⟩
  | cons l ls ih =>
    refine under_alone fun hash _ hexec => ?_
    cases hexec
    split_ifs
    · exact ih hvic
    refine under_alone fun dirty _ hexec => ?_
    obtain ⟨hdirty, rfl⟩ := exec_pinned hexec
    split_ifs with hd
    · exact ih hvic
    refine under_alone fun lu _ hexec => ?_
    cases hexec
    split_ifs
    · refine ih ?_
      rintro _ ⟨⟩
      exact hdirty ▸ eq_false_of_ne_true hd
    · exact ih hvic

variable {σ₀ : State Tid V}

lemma under_enforceQuota {shard quota fuel : ℕ} (h : Guards P σ₀ σ) :
    (enforceQuota shard quota fuel : Alone V _).Under (aloneAt cfg clock t)
      (fun _ => Guards P σ₀) σ := by
  induction fuel generalizing σ with
  | zero => exact under_alone_pure h
  | succ fuel ih =>
    refine under_alone fun bytes _ hexec => ?_
    cases hexec
    split_ifs
    · exact under_alone_pure h
    refine Prog.Under.bind ((sees_oldestSlot fun _ h => (by cases h)).mono ?_)
    rintro (_ | victim) _ ⟨rfl, hclean⟩
    · exact under_alone_pure h
    · refine under_alone fun _ σ' hexec => ih ?_
      simp only [exec] at hexec
      split_ifs at hexec
      cases hexec
      exact h.trans (guards_vacate (fun _ _ _ => hclean victim rfl) none)

lemma under_writeSlot_guards {e : Entry V} (h : Spare P σ l) :
    (writeSlot l e : Alone V _).Under (aloneAt cfg clock t) (fun _ => Guards P σ) σ := by
  refine under_alone fun _ _ hexec => ?_
  simp only [exec] at hexec
  split_ifs at hexec
  cases hexec
  have hfill : Guards P σ ((σ.vacate l (some t)).fill l e) :=
    (guards_vacate h (some t)).trans (guards_fill (by simp [State.vacate]) e)
  refine under_alone fun _ _ hexec => ?_
  cases hexec
  split_ifs
  · refine under_alone fun _ _ hexec => ?_
    cases hexec
    exact under_alone_pure (hfill.trans (guards_of_entries (fun _ => rfl) rfl))
  · exact under_alone_pure hfill

lemma guards_put {serial fuel ttl : ℕ} {value : V} {tag : Bytes} (hroom : Room key σ) :
    (put cfg serial fuel key value ttl tag : Alone V _).Under (aloneAt cfg clock t)
      (fun _ => Guards (OfOther key) σ) σ := by
  have hrefl : Guards (OfOther key) σ σ := guards_of_entries (fun _ => rfl) rfl
  refine under_alone fun now _ hexec => ?_
  cases hexec
  refine Prog.Under.bind ((sees_scan (Subset.refl _) (fun _ h => (by cases h))
    fun _ h => (by cases h)).mono ?_)
  rintro found _ ⟨rfl, hfound⟩
  refine Prog.Under.bind ((sees_chooseTarget hfound).mono ?_)
  rintro (_ | l) _ ⟨rfl, -, hchosen⟩
  · exact under_alone_pure hrefl
  have hspare := (hchosen l rfl).spare hroom
  refine Prog.Under.bind ((under_writeSlot_guards hspare).mono fun _ σ₁ h₁ => ?_)
  refine Prog.Under.bind ((under_enforceQuota h₁).mono fun within σ₂ h₂ => ?_)
  split_ifs
  · refine under_alone fun _ _ hexec => ?_
    cases hexec
    exact under_alone_pure (h₂.trans (guards_of_entries (fun _ => rfl) rfl))
  · exact under_alone_pure h₂

lemma guards_sweepSlots {now : ℕ} (h : Guards P σ₀ σ) :
    (sweepSlots now ls : Alone V _).Under (aloneAt cfg clock t) (fun _ => Guards P σ₀) σ := by
  induction ls generalizing σ with
  | nil => exact under_alone_pure h
  | cons l ls ih =>
    refine under_alone fun hash _ hexec => ?_
    cases hexec
    split_ifs
    · exact ih h
    refine under_alone fun expired σ₁ hexec => ?_
    simp only [exec] at hexec
    split at hexec
    case h_2 =>
      cases hexec
      exact ih h
    case h_1 e hown he =>
      split_ifs at hexec with hkept
      · cases hexec
        exact ih h
      · cases hexec
        -- The table of the entry is not dirty.
        have hclean : σ.slotDirty l = false := by
          simp only [State.slotDirty, he]
          simp_all
        refine under_alone fun _ _ hexec => ih (h.trans ?_)
        cases hexec
        refine Guards.trans (guards_of_entries (fun l' => entry_setOwner ..) rfl)
          (guards_vacate ?_ none)
        exact fun _ _ _ => (slotDirty_congr (entry_setOwner ..) rfl).trans hclean

lemma guards_sweep : (sweep : Alone V _).Under (aloneAt cfg clock t) (fun _ => Guards P σ) σ := by
  refine under_alone fun now _ hexec => ?_
  cases hexec
  exact guards_sweepSlots (guards_of_entries (fun _ => rfl) rfl)

/-- The call leaves the entries of dirty tables alone, unless they are of its own key. -/
def Pinned (cfg : CacheConfig V) (σ : State Tid V) (c : CacheCall V) : Prop :=
  ∀ t clock serial fuel r σ',
    (c.body cfg serial fuel : Alone V _).runOn (execAt cfg clock t) σ = some (r, σ') →
      ∀ l e, (σ.slots l).entry = some e → e.tableTag ≠ [] → σ.isDirty e.tableTag = true →
        putKey (.inl c : CacheCall V ⊕ Empty) ≠ some e.key → (σ'.slots l).entry = some e

def Roomy (σ : State Tid V) : CacheCall V → Prop
  | .put key _ _ _ => Room key σ
  | .sweep => True
  | _ => False

theorem pinned_of_roomy (cfg : CacheConfig V) (σ : State Tid V) (c : CacheCall V) (h : Roomy σ c) :
    Pinned cfg σ c := by
  intro t clock serial fuel r σ' hrun l e he htag hdirty hkey
  have hslot : σ.slotDirty l = true := by simp [State.slotDirty, he, htag, hdirty]
  cases c with
  | put key =>
    have hguards : Guards (OfOther key) σ σ' := (guards_put h).run hrun
    exact hguards.entry he (fun heq => hkey (congrArg some heq.symm)) hslot
  | sweep =>
    have hunder : (CacheCall.body cfg serial fuel .sweep : Alone V _).Under (aloneAt cfg clock t)
        (fun _ => Guards (fun _ => True) σ) σ :=
      Prog.Under.bind (guards_sweep.mono fun _ _ h => under_alone_pure h)
    exact (hunder.run hrun).entry he trivial hslot
  | _ => exact h.elim

namespace Solo

def performs (cfg : CacheConfig V) : List (CacheCall V) → Solo V → Option (Solo V)
  | [], x => some x
  | c :: cs, x => (x.perform cfg 0 1 c).bind fun y => performs cfg cs (x.after c y.2)

/-- Keys with the same first sixteen bytes have one range. -/
def crowd (i : ℕ) : Bytes := str "0123456789abcdef" ++ [UInt8.ofNat i]

def crowdPuts : List (CacheCall ℕ) :=
  (range 16).map (fun i => .put (crowd i) i 60 (str "t")) ++ [.markDirty (str "t")]

def lateComer : CacheCall ℕ := .put (crowd 16) 16 60 (str "u")

/-- A slot of the range is empty. -/
theorem pinned_first : ∃ x : Solo ℕ, x.cache.isDirty (str "t") = true ∧
    Pinned Timed.roomy x.cache lateComer := by
  have hfound : ((performs Timed.roomy (crowdPuts.drop 15) {}).any fun x =>
      x.cache.isDirty (str "t") && (probes (crowd 16)).any fun l => !x.cache.slotDirty l)
        = true := by
    decide +kernel
  simp only [Option.any_eq_true, Bool.and_eq_true, List.any_eq_true, Bool.not_eq_true'] at hfound
  obtain ⟨x, -, hdirty, l, hl, hclean⟩ := hfound
  exact ⟨x, hdirty, pinned_of_roomy Timed.roomy x.cache lateComer ⟨l, hl, .inr hclean⟩⟩

lemma reached_of_performs {cs : List (CacheCall V)} {x y : Solo V}
    (h : Reached cfg (fun _ _ => True) x) (hrun : performs cfg cs x = some y) :
    Reached cfg (fun _ _ => True) y := by
  induction cs generalizing x with
  | nil =>
    cases hrun
    exact h
  | cons c cs ih =>
    obtain ⟨z, hz, hrun⟩ := bind_eq_some_iff.1 hrun
    exact ih (.call h trivial hz) hrun

/-- All sixteen slots have the dirty table, and the first of them is overwritten. -/
theorem not_pinned_crowd : ∃ x : Solo ℕ, Reached Timed.roomy (fun _ _ => True) x ∧
    (∀ l ∈ probes (crowd 16), x.cache.slotDirty l = true) ∧
      ¬ Pinned Timed.roomy x.cache lateComer := by
  have hfound : ((performs Timed.roomy crowdPuts {}).any fun x =>
      (probes (crowd 16)).all x.cache.slotDirty &&
        (x.perform Timed.roomy 0 1 lateComer).any fun y =>
        (probes (crowd 16)).any fun l => (x.cache.slots l).entry.any fun e =>
          decide (e.tableTag = str "t" ∧ x.cache.isDirty (str "t") = true ∧ e.key = crowd 0) &&
            (y.2.slots l).entry.any fun e' => e'.key = crowd 16) = true := by
    decide +kernel
  simp only [Option.any_eq_true, Bool.and_eq_true, List.any_eq_true, List.all_eq_true,
    decide_eq_true_eq] at hfound
  obtain ⟨x, hx, hall, y, hy, l, -, e, he, ⟨htag, hdirty, hkey⟩, e', he', hkey'⟩ := hfound
  refine ⟨x, reached_of_performs .start hx, hall, fun hpinned => ?_⟩
  have hsame := hpinned () 0 x.serial 1 _ _ (perform_eq_some hy) l e he (by rw [htag]; decide)
    (htag ▸ hdirty) (by rw [hkey]; decide)
  cases hsame.symm.trans he'
  exact absurd (hkey.symm.trans hkey') (by decide)

end Solo

end SpidoNG.Cache
