import SpidoNG.Cache.Origin

/-!
# One slot for a key

Two threads that put one key at a time can publish it in two slots.
-/

namespace SpidoNG.Cache

open Bytes Threads Prog.Under List

variable {Tid V E X Y Job : Type} {XRes : X → Type} {Out : Job → Type} [DecidableEq Tid]

def HasKey (σ : State Tid V) (key : Bytes) (l : Loc) : Prop :=
  ∃ e, (σ.slots l).entry = some e ∧ e.key = key

/-- Every key is in its own probe window and in one slot at most. -/
structure Placed (σ : State Tid V) : Prop where
  in_range : ∀ {l e}, (σ.slots l).entry = some e → l ∈ probes e.key
  unique : ∀ {key l l'}, HasKey σ key l → HasKey σ key l' → l = l'

/-- One key is in its own probe window and in one slot at most. -/
structure PlacedAt (key : Bytes) (σ : State Tid V) : Prop where
  mem_probes : ∀ {l}, HasKey σ key l → l ∈ probes key
  unique : ∀ {l l'}, HasKey σ key l → HasKey σ key l' → l = l'

abbrev PlacedState (Tid V : Type) (key : Bytes) := {σ : State Tid V // PlacedAt key σ}

variable {l : Loc}

section

omit [DecidableEq Tid]

lemma placed_empty : Placed (State.empty : State Tid V) where
  in_range := by
    intro l e h
    cases h
  unique := by
    rintro key l l' ⟨e, he, -⟩ -
    cases he

lemma Placed.mem_probes {σ : State Tid V} (h : Placed σ) {key : Bytes}
    (hl : HasKey σ key l) : l ∈ probes key := by
  obtain ⟨e, he, rfl⟩ := hl
  exact h.in_range he

lemma Placed.at {σ : State Tid V} (h : Placed σ) (key : Bytes) : PlacedAt key σ :=
  ⟨h.mem_probes, h.unique⟩

lemma placed_of_forall {σ : State Tid V} (h : ∀ key, PlacedAt key σ) : Placed σ :=
  ⟨fun {_ e} he => (h e.key).mem_probes ⟨e, he, rfl⟩, fun {key} => (h key).unique⟩

lemma hasKey_iff_lookup {σ : State Tid V} {key : Bytes} :
    HasKey σ key l ↔ ((σ.slots l).lookup key).isSome := by
  simp [HasKey, Slot.lookup, Option.isSome_filter, Option.any_eq_true]

lemma nonzero_ne_zero (h : UInt64) : nonzero h ≠ 0 := by
  unfold nonzero
  split_ifs with h0
  · decide
  · exact h0

lemma keyHash_ne_zero (key : Bytes) : keyHash key ≠ 0 := nonzero_ne_zero _

lemma not_hasKey_of_hash {σ : State Tid V} {key : Bytes}
    (h : (σ.slots l).hash ≠ keyHash key) : ¬ HasKey σ key l := by
  rintro ⟨e, he, rfl⟩
  simp [Slot.hash, he] at h

end

section Put

variable {cfg : CacheConfig V} {t : Tid} {key : Bytes} {α : Type}

def putRely (cfg : CacheConfig V) (t : Tid) (key : Bytes) :
    Rely (PlacedState Tid V key) (CacheOp V ⊕ X) (OpRes XRes) where
  rel σ σ' := ∀ l, HasKey σ'.1 key l → HasKey σ.1 key l
  refl _ _ hl := hl
  trans h h' l hl := h l (h' l hl)
  does op σ r σ' := Acts cfg t op σ.1 r σ'.1
  ok op σ := ∀ l e, op = .inl (.publish l e) → l ∈ probes key ∧ ∀ l', HasKey σ.1 key l' → l' = l

lemma hasKey_of_passive {op : CacheOp V ⊕ X} {σ σ' : State Tid V} {r : OpRes XRes op}
    (hop : Passive op) (h : Acts cfg t op σ r σ') (hl : HasKey σ' key l) : HasKey σ key l := by
  obtain ⟨e, he, hk⟩ := hl
  rcases h.entry he with he | rfl
  · exact ⟨e, he, hk⟩
  · exact hop.elim

variable {σ : PlacedState Tid V key}

lemma under_passive {post : α → PlacedState Tid V key → Prop} {op : CacheOp V}
    {f : op.Res → Code V XRes α} (hop : Passive (.inl op : CacheOp V ⊕ X))
    (h : ∀ clock r, ∀ σ' σ'' : PlacedState Tid V key, (∀ l, HasKey σ'.1 key l → HasKey σ.1 key l) →
      exec cfg clock t op σ'.1 = some (r, σ''.1) → (∀ l, HasKey σ''.1 key l → HasKey σ'.1 key l) →
        (f r).Under (putRely cfg t key) post σ'') :
    (atomic op >>= f).Under (putRely cfg t key) post σ := by
  refine under_atomic fun σ' hσ' => ⟨?_, fun r σ'' hdoes => ?_⟩
  · rintro l e heq
    cases heq
    exact hop.elim
  · obtain ⟨clock, hexec⟩ := id hdoes
    exact h clock r σ' σ'' hσ' hexec fun l hl => hasKey_of_passive hop hdoes hl

structure Found (key : Bytes) (found : Scan) (σ : State Tid V) : Prop where
  target : ∀ {l}, found.target = some l → l ∈ probes key ∧ ∀ l', HasKey σ key l' → l' = l
  absent : found.target = none → ∀ l, ¬ HasKey σ key l
  emptySlot : ∀ {l}, found.emptySlot = some l → l ∈ probes key
  lruVictim : ∀ {l}, found.lruVictim = some l → l ∈ probes key

omit [DecidableEq Tid] in
lemma Found.later {found : Scan} {σ σ' : State Tid V} (h : Found key found σ)
    (hσ : ∀ l, HasKey σ' key l → HasKey σ key l) : Found key found σ' where
  target hl := ⟨(h.target hl).1, fun l' hl' => (h.target hl).2 l' (hσ l' hl')⟩
  absent hnone l hl := h.absent hnone l (hσ l hl)
  emptySlot := h.emptySlot
  lruVictim := h.lruVictim

lemma exec_loadHash {clock : ℕ} {σ σ' : State Tid V} {h : UInt64}
    (hexec : exec cfg clock t (.loadHash l) σ = some (h, σ')) : h = (σ.slots l).hash ∧ σ' = σ := by
  cases hexec
  exact ⟨rfl, rfl⟩

lemma exec_confirm {clock : ℕ} {σ σ' : State Tid V} {found : Bool}
    (hexec : exec cfg clock t (.confirm l key) σ = some (found, σ')) :
    (found ↔ HasKey σ key l) ∧ σ' = σ := by
  simp only [exec] at hexec
  split_ifs at hexec
  cases hexec
  exact ⟨hasKey_iff_lookup.symm, rfl⟩

lemma under_hasKey {h : UInt64} (hhash : h ≠ keyHash key → ¬ HasKey σ.1 key l) :
    (hasKey key l h : Code V XRes Bool).Under (putRely cfg t key)
      (fun found σ' => (∀ l', HasKey σ'.1 key l' → HasKey σ.1 key l') ∧
        (found = true → ∀ l', HasKey σ'.1 key l' → l' = l) ∧ (found = false → ¬ HasKey σ'.1 key l))
      σ := by
  by_cases hk : h = keyHash key
  · rw [hasKey, if_pos hk]
    refine fun σ1 hσ1 => ⟨fun _ _ heq => (by cases heq), fun found σ2 hdoes σ3 hσ3 => ?_⟩
    obtain ⟨clock, hexec⟩ := hdoes
    obtain ⟨hfound, hσ⟩ := exec_confirm hexec
    obtain rfl : σ2 = σ1 := Subtype.ext hσ
    refine ⟨fun l' hl' => hσ1 l' (hσ3 l' hl'), fun htrue l' hl' => ?_, fun hfalse hl => ?_⟩
    · exact σ2.2.unique (hσ3 l' hl') (hfound.1 htrue)
    · rw [hfalse] at hfound
      exact absurd (hfound.2 (hσ3 l hl)) (by simp)
  · rw [hasKey, if_neg hk]
    refine fun σ1 hσ1 => ⟨hσ1, fun htrue => ?_, fun _ hl => hhash hk (hσ1 l hl)⟩
    cases htrue

lemma under_scan {ls : List Loc} {emptySlot lruVictim : Option Loc} {lruSeen : ℕ}
    (hls : ls ⊆ probes key) (hemp : ∀ l, emptySlot = some l → l ∈ probes key)
    (hlru : ∀ l, lruVictim = some l → l ∈ probes key) (hkey : ∀ l, HasKey σ.1 key l → l ∈ ls) :
    (scan key ls emptySlot lruVictim lruSeen : Code V XRes Scan).Under (putRely cfg t key)
      (fun found σ' => Found key found σ'.1) σ := by
  induction ls generalizing emptySlot lruVictim lruSeen σ with
  | nil =>
    refine fun σ' hσ' => ⟨fun hl => ?_, fun _ l hl => ?_, fun hl => hemp _ hl, fun hl => hlru _ hl⟩
    · cases hl
    · cases hkey l (hσ' l hl)
  | cons l ls ih =>
    have hl : l ∈ probes key := hls mem_cons_self
    have hls' : ls ⊆ probes key := fun l' hl' => hls (mem_cons_of_mem _ hl')
    -- When this slot does not have the key, the slots that have it are among the rest.
    have hrest : ∀ {σ' : PlacedState Tid V key}, (∀ l', HasKey σ'.1 key l' → HasKey σ.1 key l') →
        ¬ HasKey σ'.1 key l → ∀ l', HasKey σ'.1 key l' → l' ∈ ls := by
      intro σ' hσ' hnot l' hl'
      rcases mem_cons.1 (hkey l' (hσ' l' hl')) with rfl | hmem
      · exact absurd hl' hnot
      · exact hmem
    refine under_passive trivial fun clock h σ1 σ2 hσ1 hexec _ => ?_
    obtain ⟨rfl, hσ⟩ := exec_loadHash hexec
    obtain rfl : σ2 = σ1 := Subtype.ext hσ
    split_ifs with hzero
    · refine ih hls' (fun l' hl' => ?_) hlru (hrest hσ1 (not_hasKey_of_hash ?_))
      · cases emptySlot with
        | none =>
          cases hl'
          exact hl
        | some => exact hemp _ hl'
      · rw [hzero]
        exact (keyHash_ne_zero key).symm
    · refine bind ((under_hasKey not_hasKey_of_hash).mono ?_)
      rintro found σ3 ⟨hσ3, htrue, hfalse⟩
      have hσ' : ∀ l', HasKey σ3.1 key l' → HasKey σ.1 key l' := fun l' hl' => hσ1 l' (hσ3 l' hl')
      split_ifs with hfound
      · refine fun σ4 hσ4 => ⟨fun heq => ?_, fun hnone => ?_, fun he => hemp _ he,
          fun he => hlru _ he⟩
        · cases heq
          exact ⟨hl, fun l' hl' => htrue hfound l' (hσ4 l' hl')⟩
        · cases hnone
      · have hnot : ¬ HasKey σ3.1 key l := hfalse (by simpa using hfound)
        refine under_passive trivial fun clock lu σ4 σ5 hσ4 hexec hσ5 => ?_
        have hσ5' : ∀ l', HasKey σ5.1 key l' → HasKey σ3.1 key l' := fun l' hl' =>
          hσ4 l' (hσ5 l' hl')
        have hkey' := hrest (fun l' hl' => hσ' l' (hσ5' l' hl')) fun h => hnot (hσ5' l h)
        split_ifs
        · refine ih hls' hemp (fun l' hl' => ?_) hkey'
          cases hl'
          exact hl
        · exact ih hls' hemp hlru hkey'

lemma under_unpinned {victim : Loc} {ls : List Loc}
    (hls : ls ⊆ probes key) (hvic : victim ∈ probes key) (habs : ∀ l, ¬ HasKey σ.1 key l) :
    (unpinned victim ls : Code V XRes Loc).Under (putRely cfg t key)
      (fun l σ' => l ∈ probes key ∧ ∀ l', ¬ HasKey σ'.1 key l') σ := by
  induction ls generalizing σ with
  | nil => exact fun σ' hσ' => ⟨hvic, fun l' hl' => habs l' (hσ' l' hl')⟩
  | cons _ _ ih =>
    refine under_passive trivial fun clock dirty σ1 σ2 hσ1 _ hσ2 => ?_
    have habs' : ∀ l', ¬ HasKey σ2.1 key l' := fun l' hl' => habs l' (hσ1 l' (hσ2 l' hl'))
    split_ifs
    · exact ih (fun l' hl' => hls (mem_cons_of_mem _ hl')) habs'
    · exact fun σ3 hσ3 => ⟨hls mem_cons_self, fun l' hl' => habs' l' (hσ3 l' hl')⟩

lemma under_chooseTarget {found : Scan} (h : Found key found σ.1) :
    (chooseTarget key found : Code V XRes (Option Loc)).Under (putRely cfg t key)
      (fun target σ' => (∀ l, target = some l → l ∈ probes key ∧
        ∀ l', HasKey σ'.1 key l' → l' = l) ∧
        (target = none → ∀ l', ¬ HasKey σ'.1 key l')) σ := by
  unfold chooseTarget
  split
  · rename_i l hl
    refine fun σ' hσ' => ⟨?_, fun hnone => (by cases hnone)⟩
    rintro l' ⟨⟩
    have h' := h.later hσ'
    cases htarget : found.target with
    | some target =>
      rw [htarget] at hl
      cases hl
      exact h'.target htarget
    | none =>
      rw [htarget] at hl
      exact ⟨h.emptySlot hl, fun l' hl' => absurd hl' (h'.absent htarget l')⟩
  · rename_i hnone
    have habs : ∀ l, ¬ HasKey σ.1 key l := by
      refine h.absent ?_
      cases htarget : found.target with
      | some =>
        rw [htarget] at hnone
        cases hnone
      | none => rfl
    split
    · exact fun σ' hσ' => ⟨fun l hl => (by cases hl), fun _ l' hl' => habs l' (hσ' l' hl')⟩
    · rename_i victim hvic
      refine under_passive trivial fun clock dirty σ1 σ2 hσ1 _ hσ2 => ?_
      have habs' : ∀ l, ¬ HasKey σ2.1 key l := fun l hl => habs l (hσ1 l (hσ2 l hl))
      split_ifs
      · refine bind ((under_unpinned (List.Subset.refl _) (h.lruVictim hvic)
          habs').mono ?_)
        rintro l σ3 ⟨hl, habsent3⟩ σ4 hσ4
        refine ⟨?_, fun hnone => (by cases hnone)⟩
        rintro l' ⟨⟩
        exact ⟨hl, fun l' hl' => absurd (hσ4 l' hl') (habsent3 l')⟩
      · refine fun σ3 hσ3 => ⟨?_, fun hnone => (by cases hnone)⟩
        rintro l ⟨⟩
        exact ⟨h.lruVictim hvic, fun l' hl' => absurd (hσ3 l' hl') (habs' l')⟩

lemma under_of_passive {p : Code V XRes α} (h : p.Always Passive) :
    p.Under (putRely cfg t key) (fun _ _ => True) σ := by
  refine of_always h (fun _ _ => trivial) ?_ trivial
  rintro op σ hop -
  refine ⟨?_, fun _ _ _ => trivial⟩
  rintro l e rfl
  exact hop.elim

lemma under_writeSlot {e : Entry V} (hl : l ∈ probes key)
    (honly : ∀ l', HasKey σ.1 key l' → l' = l) :
    (writeSlot l e : Code V XRes Unit).Under (putRely cfg t key) (fun _ _ => True) σ := by
  refine under_passive trivial fun _ _ σ1 σ2 hσ1 _ hσ2 => ?_
  refine under_atomic fun σ3 hσ3 => ⟨?_, fun _ σ4 _ => ?_⟩
  · rintro l' e' heq
    cases heq
    exact ⟨hl, fun l' hl' => honly l' (hσ1 l' (hσ2 l' (hσ3 l' hl')))⟩
  · split_ifs
    · refine fun σ5 _ => ⟨?_, fun _ _ _ _ _ => trivial⟩
      rintro l' e' heq
      cases heq
    · exact fun _ _ => trivial

lemma under_put (serial fuel : ℕ) (value : V) (ttl : ℕ) (tableTag : Bytes)
    (σ : PlacedState Tid V key) :
    (put cfg serial fuel key value ttl tableTag : Code V XRes _).Under (putRely cfg t key)
      (fun _ _ => True) σ := by
  refine under_passive trivial fun _ now _ σ1 _ _ _ => ?_
  refine bind ((under_scan (List.Subset.refl _) (fun l hl => (by cases hl))
    (fun l hl => (by cases hl)) fun l hl => σ1.2.mem_probes hl).mono ?_)
  intro found σ2 hfound
  refine bind ((under_chooseTarget hfound).mono ?_)
  rintro (_ | l) σ3 htarget
  · exact fun _ _ => trivial
  · obtain ⟨hl, honly⟩ := htarget.1 l rfl
    refine bind ((under_writeSlot hl honly).mono ?_)
    intro _ σ4 _
    refine under_of_passive (((plain_enforceQuota _ _ _).mono Plain.passive).bind fun within => ?_)
    split_ifs
    · exact always_atomic trivial fun _ => trivial
    · trivial

end Put

def putKey : CacheCall V ⊕ X → Option Bytes
  | .inl (.put key _ _ _) => some key
  | _ => none

def putTag : CacheCall V ⊕ X → Option Bytes
  | .inl (.put _ _ _ tag) => some tag
  | _ => none

def invalidated : CacheCall V ⊕ X → Option Bytes
  | .inl (.invalidateTable table) => some table
  | _ => none

/-- Both calls put the key, or both invalidate the table. -/
def ClashOn (key table : Bytes) (c c' : CacheCall V ⊕ X) : Prop :=
  putKey c = some key ∧ putKey c' = some key ∨
    invalidated c = some table ∧ invalidated c' = some table

/-- Both calls put one key, or both invalidate one table. -/
def Clash (c c' : CacheCall V ⊕ X) : Prop :=
  (∃ key, putKey c = some key ∧ putKey c' = some key) ∨
    ∃ table, invalidated c = some table ∧ invalidated c' = some table

/-- No call begins while a call that clashes with it is going on. -/
def Calm (s : CacheSys Tid V Y XRes Out) : Event Tid (ℕ × E) Job → Prop
  | .enter t _ => ∀ c, s.next t = some c → ∀ u a, s.active u = some a → ¬ Clash c a.call
  | _ => True

/-- No two puts of the key overlap, and no two invalidations of the table. -/
def CalmOn (key table : Bytes) (s : CacheSys Tid V Y XRes Out) : Event Tid (ℕ × E) Job → Prop
  | .enter t _ => ∀ c, s.next t = some c → ∀ u a, s.active u = some a → ¬ ClashOn key table c a.call
  | _ => True

omit [DecidableEq Tid] in
lemma Calm.on {s : CacheSys Tid V Y XRes Out} {e : Event Tid (ℕ × E) Job} (h : Calm s e)
    (key table : Bytes) : CalmOn key table s e := by
  cases e with
  | enter t =>
    intro c hnext u a ha hclash
    exact h c hnext u a ha (hclash.imp (fun hkey => ⟨key, hkey⟩) fun htable => ⟨table, htable⟩)
  | _ => trivial

lemma calm_of_subsingleton [Subsingleton Tid] (cfg : CacheConfig V) (C : Client Tid V E Y XRes Out)
    (s : CacheSys Tid V Y XRes Out) (es : List (Event Tid (ℕ × E) Job)) :
    Meets (machine cfg C) Calm s es := by
  induction es generalizing s with
  | nil => trivial
  | cons e _ ih =>
    refine ⟨?_, fun s' _ => ih s'⟩
    cases e with
    | enter t =>
      intro c hnext u a ha
      rw [Subsingleton.elim u t, Sys.active_eq_none_of_next hnext] at ha
      cases ha
    | _ => trivial

/-- What holds of one key and one table along runs that are calm on them. -/
structure Sound (cfg : CacheConfig V) (key table : Bytes) (s : CacheSys Tid V Y XRes Out) :
    Prop where
  traced : Traced s
  apart : ∀ {t u a b}, s.active t = some a → s.active u = some b →
    ClashOn key table a.call b.call → t = u
  placed : PlacedAt key s.shared.1
  puts : ∀ {t a}, s.active t = some a → putKey a.call = some key →
    a.rest.Under (putRely cfg t key) (fun _ _ => True) ⟨s.shared.1, placed⟩

section Sound

variable {cfg : CacheConfig V} {C : Client Tid V E Y XRes Out} {key table : Bytes}
  {s s' : CacheSys Tid V Y XRes Out} {e : Event Tid (ℕ × E) Job}

lemma sound_init (y : Y) :
    Sound cfg key table (Sys.init (State.empty, y) : CacheSys Tid V Y XRes Out) where
  traced := traced_init y
  apart h := by cases h
  placed := placed_empty.at key
  puts h := by cases h

lemma Acts.placedAt {t : Tid} {op : CacheOp V ⊕ X} {σ σ' : State Tid V} {r : OpRes XRes op}
    (h : Acts cfg t op σ r σ') (hσ : PlacedAt key σ) (hpublish : ∀ {l e},
      op = .inl (.publish l e) → e.key = key → l ∈ probes key ∧ ∀ l', HasKey σ key l' → l' = l) :
    PlacedAt key σ' where
  mem_probes := by
    rintro l ⟨e, he, hkey⟩
    rcases h.entry he with he | hop
    · exact hσ.mem_probes ⟨e, he, hkey⟩
    · exact (hpublish hop hkey).1
  unique := by
    rintro l l' ⟨e, he, hkey⟩ ⟨e', he', hkey'⟩
    rcases h.entry he with hold | hop
    · rcases h.entry he' with hold' | hop'
      · exact hσ.unique ⟨e, hold, hkey⟩ ⟨e', hold', hkey'⟩
      · exact (hpublish hop' hkey').2 l ⟨e, hold, hkey⟩
    · rcases h.entry he' with hold' | hop'
      · exact ((hpublish hop hkey).2 l' ⟨e', hold', hkey'⟩).symm
      · rw [hop] at hop'
        cases hop'
        rfl

lemma Acts.placed {t : Tid} {op : CacheOp V ⊕ X} {σ σ' : State Tid V} {r : OpRes XRes op}
    (h : Acts cfg t op σ r σ') (hσ : Placed σ) (hpublish : ∀ {l e}, op = .inl (.publish l e) →
      l ∈ probes e.key ∧ ∀ l', HasKey σ e.key l' → l' = l) : Placed σ' := by
  refine placed_of_forall fun key => h.placedAt (hσ.at key) ?_
  rintro l e hop rfl
  exact hpublish hop

lemma Sound.placed_step (h : Sound cfg key table s) (hc : Change (machine cfg C) s e s') :
    PlacedAt key s'.shared.1 := by
  cases hc with
  | quiet hshared | enter _ _ _ _ _ hshared | leave _ _ _ _ _ hshared => exact hshared ▸ h.placed
  | act _ _ _ _ _ _ _ _ hbef hexec =>
    refine (acts_of_execBoth hexec).placedAt h.placed ?_
    rintro l e rfl hkey
    obtain ⟨-, ttl, rfl⟩ := h.traced.publish hbef
    exact (h.puts hbef (congrArg some hkey)).demand l e rfl

lemma under_callBody {t : Tid} {c : CacheCall V ⊕ X} {serial fuel : ℕ}
    (hkey : putKey c = some key) (σ : PlacedState Tid V key) :
    (callBody cfg serial fuel c : Code V XRes _).Under (putRely cfg t key) (fun _ _ => True) σ := by
  cases c with
  | inr => cases hkey
  | inl c =>
    cases c with
    | put _ value ttl tableTag =>
      cases hkey
      exact under_put serial fuel value ttl tableTag σ
    | _ => cases hkey

lemma Sound.puts_step (h : Sound cfg key table s) (hc : Change (machine cfg C) s e s') {t : Tid}
    {a : Active (OpRes XRes) (CallRet XRes)} (ha : s'.active t = some a)
    (hkey : putKey a.call = some key) : a.rest.Under (putRely cfg t key) (fun _ _ => True)
      ⟨s'.shared.1, h.placed_step hc⟩ := by
  refine hc.under_step (ρ := putRely cfg t key) (Q := fun c => putKey c = some key)
    (P := fun _ _ _ _ => True) (x := ⟨s.shared.1, h.placed⟩) (y := ⟨s'.shared.1, h.placed_step hc⟩)
    (fun c fuel hc _ => under_callBody hc _)
    (fun hshared l (hl : HasKey s'.shared.1 key l) =>
      show HasKey s.shared.1 key l from hshared ▸ hl)
    ?_ (fun _ _ hexec => acts_of_execBoth hexec) h.puts ha hkey
  -- Another thread does not publish the key, since it would be in a call of `put` for it.
  rintro b u env c b' op k r hb hbkey hu hbef hexec l ⟨y, hy, hyk⟩
  rcases (acts_of_execBoth hexec).entry hy with hy | rfl
  · exact ⟨y, hy, hyk⟩
  · obtain ⟨-, ttl, rfl⟩ := h.traced.publish hbef
    exact absurd (h.apart hbef hb (.inl ⟨congrArg some hyk, hbkey⟩)) hu

lemma Sound.step (h : Sound cfg key table s) (hcalm : CalmOn key table s e)
    (hc : Change (machine cfg C) s e s') (htime : s'.time = s.time + 1) :
    Sound cfg key table s' where
  traced := h.traced.step hc htime
  apart := by
    refine hc.apart (R := ClashOn key table) (fun hclash => hclash.imp And.symm And.symm)
      (fun hev hnext ha => ?_) h.apart
    subst hev
    exact hcalm _ hnext _ _ ha
  placed := h.placed_step hc
  puts := h.puts_step hc

end Sound

end SpidoNG.Cache
