import SpidoNG.Cache.Slots

/-!
# How long an expired value is returned

`get` does not look at the time at which a value expires.
-/

namespace SpidoNG.Cache

open Bytes List Option Function Nat

variable {Tid V : Type} [DecidableEq Tid]

abbrev Alone (V α : Type) := Code V (fun x : Empty => x.elim) α

def execAt (cfg : CacheConfig V) (clock : ℕ) (t : Tid) :
    (op : CacheOp V ⊕ Empty) → State Tid V →
      Option (OpRes (fun x : Empty => x.elim) op × State Tid V)
  | .inl op, σ => exec cfg clock t op σ
  | .inr x, _ => x.elim

structure PutNote where
  id : ℕ
  tag : Bytes
  expires : ℕ
  deriving DecidableEq

structure GetNote where
  id : ℕ
  time : ℕ
  deriving DecidableEq

structure Timed (Tid V : Type) where
  cache : State Tid V
  now : ℕ
  lastSweep : ℕ
  puts : List PutNote
  got : List GetNote

inductive TimedEvent (Tid V : Type)
  | advance (d : ℕ)
  | put (t : Tid) (key : Bytes) (value : V) (ttl : ℕ) (tag : Bytes) (fuel : ℕ)
  | get (t : Tid) (key : Bytes)
  | sweep (t : Tid)

namespace Timed

def start (dirty : Bytes → ℕ) : Timed Tid V := ⟨{ State.empty with dirty := dirty }, 0, 0, [], []⟩

def step (cfg : CacheConfig V) (interval : ℕ) (x : Timed Tid V) :
    TimedEvent Tid V → Option (Timed Tid V)
  | .advance d =>
    if x.now + d ≤ x.lastSweep + interval then some { x with now := x.now + d } else none
  | .put t key value ttl tag fuel =>
    match (put cfg x.puts.length fuel key value ttl tag : Alone V _).runOn (execAt cfg x.now t)
      x.cache with
    | some (some _, σ) =>
      some { x with cache := σ, puts := ⟨x.puts.length, tag, x.now + ttl⟩ :: x.puts }
    | _ => none
  | .get t key =>
    match (get key : Alone V _).runOn (execAt cfg x.now t) x.cache with
    | some (some v, σ) => some { x with cache := σ, got := ⟨v.id, x.now⟩ :: x.got }
    | some (none, σ) => some { x with cache := σ }
    | none => none
  | .sweep t =>
    match (sweep : Alone V _).runOn (execAt cfg x.now t) x.cache with
    | some (_, σ) => some { x with cache := σ, lastSweep := x.now }
    | none => none

inductive Reached (cfg : CacheConfig V) (interval : ℕ)
    (ok : Timed Tid V → TimedEvent Tid V → Prop) :
    Timed Tid V → Prop
  | start (dirty : Bytes → ℕ) : Reached cfg interval ok (start dirty)
  | step {x y : Timed Tid V} {e : TimedEvent Tid V} (hx : Reached cfg interval ok x) (hok : ok x e)
      (hstep : x.step cfg interval e = some y) : Reached cfg interval ok y

def Within (interval : ℕ) (x : Timed Tid V) : Prop :=
  ∀ g ∈ x.got, ∀ p ∈ x.puts, p.id = g.id → x.cache.isDirty p.tag = false →
    g.time ≤ p.expires + interval

end Timed

def FreshTable (interval : ℕ) (x : Timed Tid V) : TimedEvent Tid V → Prop
  | .get t key => ∀ i e, (x.cache.l1 t).slots i = some e → e.key = key →
      x.now ≤ e.expiresAt + interval
  | _ => True

def L1.Stores (l : L1 V) (v : ValuePtr V) (expires : ℕ) : Prop :=
  ∃ i e, l.slots i = some e ∧ e.value = v ∧ e.expiresAt = expires

structure Brings (N : Entry V → Prop) (L : ValuePtr V → ℕ → Prop) (σ σ' : State Tid V) : Prop where
  entry : ∀ {l e}, (σ'.slots l).entry = some e → (σ.slots l).entry = some e ∨ N e
  owner : (∀ l, (σ.slots l).owner = none) → ∀ l, (σ'.slots l).owner = none
  dirty : σ'.dirty = σ.dirty
  stores : ∀ {u v expires}, (σ'.l1 u).Stores v expires → (σ.l1 u).Stores v expires ∨ L v expires

section Effects

variable {N : Entry V → Prop} {L : ValuePtr V → ℕ → Prop} {σ σ' σ'' : State Tid V}

section

omit [DecidableEq Tid]

lemma Brings.refl (σ : State Tid V) : Brings N L σ σ :=
  ⟨.inl, fun h => h, rfl, .inl⟩

lemma Brings.trans (h : Brings N L σ σ') (h' : Brings N L σ' σ'') : Brings N L σ σ'' where
  entry he := (h'.entry he).elim h.entry .inr
  owner hσ := h'.owner (h.owner hσ)
  dirty := h'.dirty.trans h.dirty
  stores hv := (h'.stores hv).elim h.stores .inr

lemma brings_vacate (σ : State Tid V) (l : Loc) : Brings N L σ (σ.vacate l none) where
  entry he := .inl (entry_vacate he).1
  owner hσ l' := by
    by_cases hl : l' = l
    · subst hl
      simp [State.vacate]
    · simpa [State.vacate, hl] using hσ l'
  dirty := rfl
  stores := .inl

end

variable {cfg : CacheConfig V} {clock : ℕ} {t : Tid}

lemma brings_l1 {l : L1 V}
    (h : ∀ {v expires}, l.Stores v expires → (σ.l1 t).Stores v expires ∨ L v expires) :
    Brings N L σ (σ.setL1 t l) where
  entry := .inl
  owner hσ := hσ
  dirty := rfl
  stores := by
    intro u v expires hv
    by_cases hu : u = t
    · subst hu
      simp only [State.setL1, update_self] at hv
      exact h hv
    · simp only [State.setL1, update_of_ne hu] at hv
      exact .inl hv

lemma brings_of_plain {op : CacheOp V} {r : op.Res} (hop : Plain (.inl op : CacheOp V ⊕ Empty))
    (h : exec cfg clock t op σ = some (r, σ')) : Brings N L σ σ' := by
  cases op with
  | l1Init =>
    cases h
    refine brings_l1 fun hv => .inl ?_
    rwa [L1.Stores, L1.slots_init] at hv
  | eraseKey l =>
    simp only [exec] at h
    split_ifs at h
    · cases h
      exact brings_vacate σ l
    · cases h
      exact .refl σ
  | evict l =>
    simp only [exec] at h
    split_ifs at h
    cases h
    exact brings_vacate σ l
  | confirm | pinned =>
    simp only [exec] at h
    split_ifs at h
    cases h
    exact .refl σ
  | now | loadHash | loadLastUsed | shardBytes => cases h; exact .refl σ
  | _ => exact hop.elim

end Effects

section Programs

variable {α : Type} {cfg : CacheConfig V} {clock : ℕ} {t : Tid} {N : Entry V → Prop}
  {L : ValuePtr V → ℕ → Prop}

abbrev aloneAt (cfg : CacheConfig V) (clock : ℕ) (t : Tid) :
    Rely (State Tid V) (CacheOp V ⊕ Empty) (OpRes fun x : Empty => x.elim) :=
  Prog.alone (execAt cfg clock t)

variable {post : α → State Tid V → Prop} {σ σ₀ : State Tid V}

lemma under_alone {op : CacheOp V} {f : op.Res → Alone V α}
    (h : ∀ r σ', exec cfg clock t op σ = some (r, σ') → (f r).Under (aloneAt cfg clock t) post σ') :
    (atomic op >>= f).Under (aloneAt cfg clock t) post σ := by
  rintro _ rfl
  exact ⟨trivial, fun r σ' hexec => h r σ' hexec⟩

lemma under_alone_pure {a : α} (h : post a σ) :
    (pure a : Alone V α).Under (aloneAt cfg clock t) post σ := by
  rintro _ rfl
  exact h

lemma under_plain {p : Alone V α} (hp : p.Always Plain)
    (h : Brings N L σ₀ σ) : p.Under (aloneAt cfg clock t) (fun _ => Brings N L σ₀) σ := by
  refine Prog.Under.of_always (ρ := aloneAt cfg clock t) hp ?_ ?_ h
  · rintro s _ rfl hs
    exact hs
  · rintro op s hop hs
    refine ⟨trivial, fun r s' hexec => ?_⟩
    cases op with
    | inl => exact hs.trans (brings_of_plain hop hexec)
    | inr x => exact x.elim

def InSlot (σ : State Tid V) (v : ValuePtr V) (expires : ℕ) : Prop :=
  ∃ l e, (σ.slots l).entry = some e ∧ e.value = v ∧ e.expiresAt = expires

def Source (σ : State Tid V) (t : Tid) (key : Bytes) (v : ValuePtr V) : Prop :=
  (∃ i e, (σ.l1 t).slots i = some e ∧ e.key = key ∧ e.value = v) ∨
    ∃ l ∈ probes key, ∃ e, (σ.slots l).entry = some e ∧ e.value = v

/-- From one state to another, a call of `get` has brought nothing into slots, and into tables only
what is in slots. -/
abbrev Copies (σ σ' : State Tid V) : Prop := Brings (fun _ => False) (InSlot σ) σ σ'

omit [DecidableEq Tid] in
lemma brings_touch (σ : State Tid V) (l : Loc) : Brings N L σ (σ.touch l) where
  entry he := by
    rw [entry_touch] at he
    exact .inl he
  owner hσ l' := by
    by_cases hl : l' = l
    · subst hl
      simpa [State.touch] using hσ l'
    · simpa [State.touch, hl] using hσ l'
  dirty := rfl
  stores := .inl

variable {e : Entry V} {key : Bytes} {l : Loc}

omit [DecidableEq Tid] in
lemma lookup_eq_some (h : (σ.slots l).lookup key = some e) : (σ.slots l).entry = some e := by
  exact (filter_eq_some_iff.1 h).1

lemma under_getL2 {ls : List Loc} (hls : ls ⊆ probes key)
    (h : Copies σ₀ σ) : (getL2 key ls : Alone V _).Under (aloneAt cfg clock t)
      (fun r σ' => Copies σ₀ σ' ∧ ∀ v, r = some v → Source σ₀ t key v) σ := by
  induction ls with
  | nil => exact under_alone_pure ⟨h, fun v hv => (by cases hv)⟩
  | cons l ls ih =>
    have hls' : ls ⊆ probes key := fun l' hl' => hls (mem_cons_of_mem _ hl')
    refine under_alone fun hash _ hexec => ?_
    cases hexec
    split_ifs
    · exact under_alone_pure ⟨h, fun v hv => (by cases hv)⟩
    · exact ih hls'
    · refine under_alone fun r σ' hexec => ?_
      simp only [exec] at hexec
      split_ifs at hexec
      split at hexec
      · cases hexec
        exact ih hls'
      · rename_i e he
        cases hexec
        -- The entry was in the slot before: `get` fills none.
        have he₀ : (σ₀.slots l).entry = some e := (h.entry (lookup_eq_some he)).resolve_right id
        refine under_alone fun _ σ' hexec => ?_
        cases hexec
        refine under_alone_pure ⟨(h.trans (brings_touch σ l)).trans (brings_l1 ?_), ?_⟩
        · rintro v expires ⟨i, e', hi, rfl, rfl⟩
          rcases L1.entry_put hi with hi | ⟨-, hv, hexp⟩
          · exact .inl ⟨i, e', hi, rfl, rfl⟩
          · exact .inr ⟨l, e, he₀, hv.symm, hexp.symm⟩
        · rintro v ⟨⟩
          exact .inr ⟨l, hls mem_cons_self, e, he₀, rfl⟩

lemma under_get (key : Bytes) (σ : State Tid V) : (get key : Alone V _).Under (aloneAt cfg clock t)
    (fun r σ' => Copies σ σ' ∧ ∀ v, r = some v → Source σ t key v) σ := by
  refine under_alone fun _ σ₁ hexec => ?_
  have h₁ : Copies σ σ₁ := brings_of_plain
    (show Plain (.inl .l1Init : CacheOp V ⊕ Empty) from trivial) hexec
  cases hexec
  refine under_alone fun hit σ₂ hexec => ?_
  cases hexec
  have h₂ := h₁.trans (brings_l1 (t := t) (L := InSlot σ) (N := fun _ => False)
    (l := (((σ.setL1 t ((σ.l1 t).init cfg.l1Capacity)).l1 t).findRaw key).2) fun hv => ?_)
  · split
    · rename_i v hv
      refine under_alone_pure ⟨h₂, ?_⟩
      rintro _ ⟨⟩
      obtain ⟨i, e, he, hkey, hval⟩ := L1.holds_of_findRaw hv
      simp only [State.setL1, update_self, L1.slots_init] at he
      exact .inl ⟨i, e, he, hkey, hval⟩
    · exact under_getL2 (List.Subset.refl _) h₂
  · obtain ⟨i, e, he, rfl, rfl⟩ := hv
    obtain ⟨e', he', -, hval, hexp⟩ := L1.entry_findRaw he
    exact .inl ⟨i, e', he', hval, hexp⟩

omit [DecidableEq Tid] in
lemma brings_overwrite (σ : State Tid V) (he : N e) :
    Brings N L σ ((σ.vacate l (some t)).fill l e) where
  entry h := by
    rcases entry_fill h with ⟨h, -⟩ | ⟨-, rfl⟩
    · exact .inl (entry_vacate h).1
    · exact .inr he
  owner hσ l' := by
    by_cases hl : l' = l
    · subst hl
      simp [State.fill]
    · simpa [State.fill, State.vacate, hl] using hσ l'
  dirty := rfl
  stores := .inl

lemma under_writeSlot_alone (he : N e)
    (h : Brings N L σ₀ σ) : (writeSlot l e : Alone V _).Under (aloneAt cfg clock t)
      (fun _ => Brings N L σ₀) σ := by
  refine under_alone fun _ _ hexec => ?_
  simp only [exec] at hexec
  split_ifs at hexec
  cases hexec
  refine under_alone fun _ _ hexec => ?_
  cases hexec
  have h' := h.trans (brings_overwrite (t := t) (L := L) σ (l := l) he)
  split_ifs
  · rintro _ rfl
    refine ⟨trivial, fun _ _ hexec => ?_⟩
    cases hexec
    rintro _ rfl
    exact ⟨h'.entry, h'.owner, h'.dirty, h'.stores⟩
  · exact under_alone_pure h'

def Written (serial : ℕ) (tag : Bytes) (expires : ℕ) (e : Entry V) : Prop :=
  e.value.id = serial ∧ e.tableTag = tag ∧ e.expiresAt = expires

lemma under_put_alone (serial fuel : ℕ) (key : Bytes) (value : V) (ttl : ℕ) (tag : Bytes)
    (σ : State Tid V) : (put cfg serial fuel key value ttl tag : Alone V _).Under
      (aloneAt cfg clock t)
      (fun _ => Brings (Written serial tag (clock + ttl)) (fun _ _ => False) σ) σ := by
  refine under_alone fun now _ hexec => ?_
  cases hexec
  have h₀ : Brings (Written serial tag (clock + ttl)) (fun _ _ => False) σ σ := .refl σ
  refine Prog.Under.bind ((under_plain (plain_scan _ _ _ _ _) h₀).mono fun found σ₁ h₁ => ?_)
  refine Prog.Under.bind ((under_plain (plain_chooseTarget _ _) h₁).mono fun target σ₂ h₂ => ?_)
  cases target with
  | none => exact under_alone_pure h₂
  | some =>
    refine Prog.Under.bind ((under_writeSlot_alone ⟨rfl, rfl, rfl⟩ h₂).mono fun _ σ₃ h₃ => ?_)
    refine under_plain ((plain_enforceQuota _ _ _).bind fun within => ?_) h₃
    split_ifs
    · exact always_atomic trivial fun _ => trivial
    · trivial

abbrev Thins (σ σ' : State Tid V) : Prop := Brings (fun _ => False) (fun _ _ => False) σ σ'

section

omit [DecidableEq Tid]

lemma thins_sweepErase (σ : State Tid V) (l : Loc) :
    Thins σ ((σ.setOwner l (some t)).vacate l none) where
  entry h := by
    have h' := (entry_vacate h).1
    rw [entry_setOwner] at h'
    exact .inl h'
  owner hσ l' := by
    by_cases hl : l' = l
    · subst hl
      simp [State.vacate]
    · simpa [State.vacate, State.setOwner, hl] using hσ l'
  dirty := rfl
  stores := .inl

def Kept (clock : ℕ) (σ : State Tid V) (l : Loc) : Prop :=
  ∀ e, (σ.slots l).entry = some e → clock < e.expiresAt ∨ σ.isDirty e.tableTag = true

lemma Kept.mono {σ' : State Tid V} (h : Kept clock σ l) (hσ : Thins σ σ') : Kept clock σ' l := by
  intro e he
  rw [State.isDirty, hσ.dirty]
  exact h e ((hσ.entry he).resolve_right id)

lemma entry_eq_none_of_hash (h : (σ.slots l).hash = 0) : (σ.slots l).entry = none := by
  cases he : (σ.slots l).entry with
  | none => rfl
  | some e =>
    rw [Slot.hash, he] at h
    exact absurd h (keyHash_ne_zero e.key)

end

lemma runOn_sweepSlots (cfg : CacheConfig V) (clock : ℕ) (t : Tid) (ls : List Loc) (σ : State Tid V)
    (hσ : ∀ l, (σ.slots l).owner = none) :
    ∃ σ', (sweepSlots clock ls : Alone V _).runOn (execAt cfg clock t) σ = some ((), σ') ∧
      Thins σ σ' ∧
      σ'.l1 = σ.l1 ∧ ∀ l ∈ ls, Kept clock σ' l := by
  induction ls generalizing σ with
  | nil => exact ⟨σ, rfl, .refl σ, rfl, fun l hl => (by cases hl)⟩
  | cons l ls ih =>
    -- The slot is put in order first, and the rest of the sweep leaves it so.
    suffices hfirst : ∃ σ₁, (sweepSlots clock (l :: ls) : Alone V _).runOn (execAt cfg clock t) σ =
        (sweepSlots clock ls : Alone V _).runOn (execAt cfg clock t) σ₁ ∧ Thins σ σ₁ ∧
          σ₁.l1 = σ.l1 ∧
          Kept clock σ₁ l by
      obtain ⟨σ₁, hrun, honly, hl1, hkept⟩ := hfirst
      obtain ⟨σ', hrun', honly', hl1', hkept'⟩ := ih σ₁ (honly.owner hσ)
      refine ⟨σ', hrun.trans hrun', honly.trans honly', hl1'.trans hl1, fun l' hl' => ?_⟩
      rcases mem_cons.1 hl' with rfl | hl'
      · exact hkept.mono honly'
      · exact hkept' l' hl'
    by_cases hhash : (σ.slots l).hash = 0
    · refine ⟨σ, ?_, .refl σ, rfl, fun e he => ?_⟩
      · show (if (σ.slots l).hash = 0 then _ else _ : Alone V Unit).runOn _ σ = _
        rw [if_pos hhash]
      · rw [entry_eq_none_of_hash hhash] at he
        cases he
    · obtain ⟨e, he⟩ : ∃ e, (σ.slots l).entry = some e := by
        cases he : (σ.slots l).entry with
        | none => simp [Slot.hash, he] at hhash
        | some e => exact ⟨e, rfl⟩
      have hstep : (sweepSlots clock (l :: ls) : Alone V _).runOn (execAt cfg clock t) σ =
          (exec cfg clock t (.sweepLock l clock) σ).bind fun x =>
            (if x.1 then atomic (.sweepErase l) >>= fun _ => sweepSlots clock ls
              else sweepSlots clock ls : Alone V Unit).runOn (execAt cfg clock t) x.2 := by
        show (if (σ.slots l).hash = 0 then _ else _ : Alone V Unit).runOn _ σ = _
        rw [if_neg hhash]
        rfl
      rw [hstep]
      by_cases hkeep : (clock < e.expiresAt || σ.isDirty e.tableTag)
      · refine ⟨σ, ?_, .refl σ, rfl, fun e' he' => ?_⟩
        · simp [exec, hσ l, he, hkeep]
        · rw [he] at he'
          cases he'
          simpa using hkeep
      · refine ⟨_, ?_, thins_sweepErase (t := t) σ l, rfl, fun e' he' => ?_⟩
        · simp only [exec, hσ l, he, if_neg hkeep]
          rfl
        · simp [State.vacate] at he'

lemma mem_shardSlots (h : l.slot < kSlotsPerShard) : l ∈ shardSlots l.shard := by
  unfold shardSlots
  exact List.mem_map.2 ⟨l.slot, List.mem_range.2 h, rfl⟩

lemma mem_swept (h : l ∈ probes key) : l ∈ (List.range kShards).flatMap shardSlots := by
  obtain ⟨i, -, rfl⟩ := mem_map.1 h
  refine mem_flatMap.2 ⟨shardFor (keyHash key), List.mem_range.2 ?_, mem_shardSlots ?_⟩
  · exact mod_lt _ (by decide)
  · exact mod_lt _ (by decide)

lemma runOn_alone (op : CacheOp V) (f : op.Res → Alone V α) (σ : State Tid V) :
    (atomic op >>= f).runOn (execAt cfg clock t) σ =
      (exec cfg clock t op σ).bind fun x => (f x.1).runOn (execAt cfg clock t) x.2 := rfl

lemma runOn_now (f : ℕ → Alone V α) (σ : State Tid V) :
    (atomic .now >>= f).runOn (execAt cfg clock t) σ = (f clock).runOn (execAt cfg clock t) σ :=
  runOn_alone _ _ _

lemma runOn_sweep (cfg : CacheConfig V) (clock : ℕ) (t : Tid) (σ : State Tid V)
    (hσ : ∀ l, (σ.slots l).owner = none) :
    ∃ σ', (sweep : Alone V _).runOn (execAt cfg clock t) σ = some ((), σ') ∧ Thins σ σ' ∧
      σ'.l1 = σ.l1 ∧ ∀ key, ∀ l ∈ probes key, Kept clock σ' l := by
  obtain ⟨σ', hrun, honly, hl1, hkept⟩ :=
    runOn_sweepSlots cfg clock t ((List.range kShards).flatMap shardSlots) σ hσ
  refine ⟨σ', ?_, honly, hl1, fun key l hl => hkept l (mem_swept hl)⟩
  rw [sweep, runOn_now, hrun]

end Programs

namespace Timed

variable {cfg : CacheConfig V} {interval : ℕ} {x y : Timed Tid V}

structure Sound (interval : ℕ) (x : Timed Tid V) : Prop where
  unlocked : ∀ l, (x.cache.slots l).owner = none
  entries : ∀ {l e}, (x.cache.slots l).entry = some e →
    ⟨e.value.id, e.tableTag, e.expiresAt⟩ ∈ x.puts
  stored : ∀ {t v expires}, (x.cache.l1 t).Stores v expires → ∃ p ∈ x.puts, p.id = v.id ∧
    p.expires = expires
  fresh : ∀ p ∈ x.puts, p.id < x.puts.length
  unique : ∀ p ∈ x.puts, ∀ q ∈ x.puts, p.id = q.id → p = q
  lasting : ∀ {key l e}, l ∈ probes key → (x.cache.slots l).entry = some e →
    x.cache.isDirty e.tableTag = false → x.lastSweep ≤ e.expiresAt
  swept : x.lastSweep ≤ x.now
  soon : x.now ≤ x.lastSweep + interval
  known : ∀ g ∈ x.got, ∃ p ∈ x.puts, p.id = g.id
  within : x.Within interval

section

omit [DecidableEq Tid]

lemma sound_start (dirty : Bytes → ℕ) : Sound interval (start dirty : Timed Tid V) where
  unlocked _ := rfl
  entries he := by cases he
  stored := by
    rintro t v expires ⟨i, e, he, -⟩
    cases he
  fresh _ hp := by cases hp
  unique _ hp := by cases hp
  lasting _ he := by cases he
  swept := le_rfl
  soon := zero_le _
  known _ hg := by cases hg
  within _ hg := by cases hg

variable {σ : State Tid V}

lemma Sound.calls {L : ValuePtr V → ℕ → Prop} (h : Sound interval x)
    (hσ : Brings (fun _ => False) L x.cache σ)
    (hL : ∀ {v expires}, L v expires → ∃ p ∈ x.puts, p.id = v.id ∧ p.expires = expires) :
    Sound interval { x with cache := σ } where
  unlocked := hσ.owner h.unlocked
  entries he := h.entries ((hσ.entry he).resolve_right id)
  stored hv := (hσ.stores hv).elim h.stored hL
  fresh := h.fresh
  unique := h.unique
  lasting hl he hdirty := by
    rw [State.isDirty, hσ.dirty] at hdirty
    exact h.lasting hl ((hσ.entry he).resolve_right id) hdirty
  swept := h.swept
  soon := h.soon
  known := h.known
  within g hg p hp hid hdirty := by
    rw [State.isDirty, hσ.dirty] at hdirty
    exact h.within g hg p hp hid hdirty

lemma Sound.get (h : Sound interval x) (hσ : Copies x.cache σ) :
    Sound interval { x with cache := σ } := by
  refine h.calls hσ ?_
  rintro v expires ⟨l, e, he, rfl, rfl⟩
  exact ⟨_, h.entries he, rfl, rfl⟩

lemma Sound.sweep (h : Sound interval x) (hσ : Thins x.cache σ)
    (hkept : ∀ key, ∀ l ∈ probes key, Kept x.now σ l) :
    Sound interval { x with cache := σ, lastSweep := x.now } :=
  { h.calls hσ fun hv => hv.elim with
    lasting := by
      intro key l e hl he hdirty
      rcases hkept key l hl e he with hlt | hdirty'
      · exact hlt.le
      · rw [hdirty'] at hdirty
        cases hdirty
    swept := le_rfl
    soon := le_add_right _ _ }

lemma Sound.returned (h : Sound interval x) {g : GetNote} (hput : ∃ p ∈ x.puts, p.id = g.id)
    (htime : ∀ p ∈ x.puts, p.id = g.id → x.cache.isDirty p.tag = false →
      g.time ≤ p.expires + interval) : Sound interval { x with got := g :: x.got } :=
  { h with
    known := by
      intro g' hg'
      rcases mem_cons.1 hg' with rfl | hg'
      · exact hput
      · exact h.known g' hg'
    within := by
      intro g' hg' p hp hid hdirty
      rcases mem_cons.1 hg' with rfl | hg'
      · exact htime p hp hid hdirty
      · exact h.within g' hg' p hp hid hdirty }

lemma Sound.put (h : Sound interval x) {tag : Bytes} {ttl : ℕ}
    (hσ : Brings (Written x.puts.length tag (x.now + ttl)) (fun _ _ => False) x.cache σ) :
    Sound interval { x with
      cache := σ
      puts := ⟨x.puts.length, tag, x.now + ttl⟩ :: x.puts } where
  unlocked := hσ.owner h.unlocked
  entries he := by
    rcases hσ.entry he with he | ⟨hid, htag, hexp⟩
    · exact mem_cons_of_mem _ (h.entries he)
    · rw [hid, htag, hexp]
      exact mem_cons_self
  stored hv := by
    obtain ⟨p, hp, hid⟩ := h.stored ((hσ.stores hv).resolve_right id)
    exact ⟨p, mem_cons_of_mem _ hp, hid⟩
  fresh p hp := by
    rcases mem_cons.1 hp with rfl | hp
    · simp
    · exact (h.fresh p hp).trans (by simp)
  unique p hp q hq hid := by
    -- The new identity is one that no earlier value has.
    rcases mem_cons.1 hp with rfl | hp
    · rcases mem_cons.1 hq with rfl | hq
      · rfl
      · exact absurd hid (h.fresh q hq).ne'
    · rcases mem_cons.1 hq with rfl | hq
      · exact absurd hid (h.fresh p hp).ne
      · exact h.unique p hp q hq hid
  lasting hl he hdirty := by
    rw [State.isDirty, hσ.dirty] at hdirty
    rcases hσ.entry he with he | ⟨-, -, hexp⟩
    · exact h.lasting hl he hdirty
    · rw [hexp]
      exact h.swept.trans (le_add_right _ _)
  swept := h.swept
  soon := h.soon
  known g hg := by
    obtain ⟨p, hp, hid⟩ := h.known g hg
    exact ⟨p, mem_cons_of_mem _ hp, hid⟩
  within g hg p hp hid hdirty := by
    rw [State.isDirty, hσ.dirty] at hdirty
    rcases mem_cons.1 hp with rfl | hp
    · obtain ⟨q, hq, hqid⟩ := h.known g hg
      exact absurd (hid.trans hqid.symm) (h.fresh q hq).ne'
    · exact h.within g hg p hp hid hdirty

lemma Sound.source (h : Sound interval x) {t : Tid} {key : Bytes} {v : ValuePtr V}
    (hok : FreshTable interval x (.get t key)) (hv : Source x.cache t key v) :
    (∃ p ∈ x.puts, p.id = v.id) ∧
      ∀ p ∈ x.puts, p.id = v.id → x.cache.isDirty p.tag = false → x.now ≤ p.expires + interval := by
  rcases hv with ⟨i, e, he, hkey, rfl⟩ | ⟨l, hl, e, he, rfl⟩
  · obtain ⟨q, hq, hid, hexp⟩ := h.stored ⟨i, e, he, rfl, rfl⟩
    refine ⟨⟨q, hq, hid⟩, fun p hp hpid _ => ?_⟩
    rw [h.unique p hp q hq (hpid.trans hid.symm), hexp]
    exact hok i e he hkey
  · refine ⟨⟨_, h.entries he, rfl⟩, fun p hp hpid hdirty => ?_⟩
    rw [h.unique p hp _ (h.entries he) hpid] at hdirty ⊢
    have hlast := h.lasting hl he hdirty
    have hsoon := h.soon
    dsimp only
    omega

end

lemma Sound.step (h : Sound interval x) {e : TimedEvent Tid V} (hok : FreshTable interval x e)
    (hstep : x.step cfg interval e = some y) : Sound interval y := by
  cases e with
  | advance =>
    rw [Timed.step] at hstep
    split_ifs at hstep with hd
    cases hstep
    exact { h with
      swept := h.swept.trans (le_add_right _ _)
      soon := hd }
  | put =>
    rw [Timed.step] at hstep
    split at hstep
    · rename_i σ hrun
      cases hstep
      have hσ := (under_put_alone _ _ _ _ _ _ _).run hrun
      exact h.put hσ
    · cases hstep
  | get =>
    rw [Timed.step] at hstep
    split at hstep
    · rename_i v σ hrun
      cases hstep
      obtain ⟨hσ, hv⟩ := (under_get _ _).run hrun
      obtain ⟨hput, htime⟩ := h.source hok (hv v rfl)
      exact (h.returned (g := ⟨v.id, x.now⟩) hput htime).get hσ
    · rename_i σ hrun
      cases hstep
      exact h.get ((under_get _ _).run hrun).1
    · cases hstep
  | sweep t =>
    obtain ⟨σ, hrun, honly, hl1, hkept⟩ := runOn_sweep cfg x.now t x.cache h.unlocked
    rw [Timed.step, hrun] at hstep
    cases hstep
    exact h.sweep honly hkept

lemma step_get_hit (cfg : CacheConfig V) (interval : ℕ) (x : Timed Tid V) (t : Tid) (key : Bytes)
    {v : ValuePtr V} (h : (((x.cache.l1 t).init cfg.l1Capacity).findRaw key).1 = some v) :
    x.step cfg interval (.get t key) = some { x with
      cache := (x.cache.setL1 t ((x.cache.l1 t).init cfg.l1Capacity)).setL1 t
        (((x.cache.l1 t).init cfg.l1Capacity).findRaw key).2
      got := ⟨v.id, x.now⟩ :: x.got } := by
  have hl1 (l1 : L1 V) : (x.cache.setL1 t l1).l1 t = l1 := update_self _ _ _
  rw [Timed.step, Cache.get, runOn_alone]
  simp only [exec, bind_some]
  rw [runOn_alone]
  simp only [exec, bind_some, hl1, h]
  rfl

lemma sound_of_reached (h : Reached cfg interval (FreshTable interval) x) : Sound interval x := by
  induction h with
  | start dirty => exact sound_start dirty
  | step _ hok hstep ih => exact ih.step hok hstep

/-- No value is returned later than one interval after it has expired, if no thread looks for one in
its own table that has expired so long ago. -/
theorem within_interval (h : Reached cfg interval (FreshTable interval) x) : x.Within interval :=
  (sound_of_reached h).within

section Expired

def roomy : CacheConfig ℕ := ⟨8, 6400000, fun _ => 1⟩

def putOnce : TimedEvent Unit ℕ := .put () (str "k") 7 1 (str "t") 1

def getOnce : TimedEvent Unit ℕ := .get () (str "k")

def startClean : Timed Unit ℕ := start fun _ => 0

theorem within_interval_getOnce : ∃ x : Timed Unit ℕ, Reached roomy 5 (FreshTable 5) x ∧
    x.got = [⟨0, 3⟩] ∧ x.Within 5 := by
  have hfound : ((startClean.step roomy 5 putOnce).any fun x => (x.step roomy 5 (.advance 3)).any
      fun y => decide (y.now = 3) && (y.step roomy 5 getOnce).any fun z => z.got = [⟨0, 3⟩])
        = true := by
    decide +kernel
  simp only [Option.any_eq_true, Bool.and_eq_true, decide_eq_true_eq] at hfound
  obtain ⟨x, hx, y, hy, hnow, z, hz, hgot⟩ := hfound
  have hreached : Reached roomy 5 (FreshTable 5) z := by
    refine .step (e := getOnce)
      (.step (e := .advance 3) (.step (e := putOnce) (.start _) trivial hx)
      trivial hy) ?_ hz
    intro i e _ _
    rw [hnow]
    omega
  exact ⟨z, hreached, hgot, within_interval hreached⟩

theorem not_within_interval : ∃ x : Timed Unit ℕ, Reached roomy 5 (fun _ _ => True) x ∧
    ¬ x.Within 5 := by
  have hfound : ((startClean.step roomy 5 putOnce).any fun x => decide (x.now = 0) &&
      (x.step roomy 5 getOnce).any fun y => (y.step roomy 5 (.advance 5)).any fun z =>
        decide (z.now = 5 ∧ z.puts = [⟨0, str "t", 1⟩] ∧ z.cache.isDirty (str "t") = false) &&
          (((z.cache.l1 ()).init 8).findRaw (str "k")).1 == some ⟨0, 7⟩) = true := by
    decide +kernel
  simp only [Option.any_eq_true, Bool.and_eq_true, decide_eq_true_eq, beq_iff_eq] at hfound
  obtain ⟨x, hx, hxnow, y, hy, z, hz, ⟨hnow, hputs, hclean⟩, hhit⟩ := hfound
  -- Up to here no value has expired, so the slots are unlocked.
  have hsound : Sound 5 z := by
    refine sound_of_reached (.step (e := .advance 5) (.step (e := getOnce)
      (.step (e := putOnce) (.start _) trivial hx) ?_ hy) trivial hz)
    intro i e _ _
    rw [hxnow]
    exact Nat.zero_le _
  obtain ⟨σ, hrun, honly, hl1, -⟩ := runOn_sweep roomy z.now () z.cache hsound.unlocked
  have hsweep : z.step roomy 5 (.sweep ()) = some { z with cache := σ, lastSweep := z.now } := by
    rw [Timed.step, hrun]
  have hlater : ({ z with cache := σ, lastSweep := z.now } : Timed Unit ℕ).step roomy 5
    (.advance 5) =
      some { z with cache := σ, lastSweep := z.now, now := z.now + 5 } := if_pos le_rfl
  have hget := step_get_hit roomy 5 { z with cache := σ, lastSweep := z.now, now := z.now + 5 } ()
    (str "k") (v := ⟨0, 7⟩) (by rw [hl1]; exact hhit)
  refine ⟨_, .step (e := getOnce)
    (.step (.step (.step (.step (.step (.start _) trivial hx) trivial hy)
    trivial hz) trivial hsweep) trivial hlater) trivial hget, fun hwithin => ?_⟩
  have hle := hwithin ⟨0, z.now + 5⟩ mem_cons_self ⟨0, str "t", 1⟩ (by simp [hputs]) rfl ?_
  · dsimp only at hle
    omega
  · show (0 < σ.dirty (str "t") : Bool) = false
    rw [honly.dirty]
    exact hclean

end Expired

end Timed

end SpidoNG.Cache
