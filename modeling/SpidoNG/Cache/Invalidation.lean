import SpidoNG.Cache.Slots

/-!
# What an invalidation reaches

`invalidate_table` empties the slots of the keys of a tag and clears the thread's own table.
-/

namespace SpidoNG.Cache

open Bytes Threads Prog.Under

variable {Tid V E X Y Job : Type} {XRes : X → Type} {Out : Job → Type} [DecidableEq Tid]

def At (σ : State Tid V) (n : ℕ) (l : Loc) : Prop :=
  ∃ e, (σ.slots l).entry = some e ∧ e.value.id = n

def Held (σ : State Tid V) (n : ℕ) : Prop := ∃ l, At σ n l

variable {op : CacheOp V ⊕ X}

lemma at_of_passive {cfg : CacheConfig V} {t : Tid} {σ σ' : State Tid V}
    {r : OpRes XRes op} (hop : Passive op) (h : Acts cfg t op σ r σ') {n : ℕ} {l : Loc}
    (hl : At σ' n l) : At σ n l := by
  obtain ⟨e, he, hn⟩ := hl
  rcases h.entry he with he | rfl
  · exact ⟨e, he, hn⟩
  · exact hop.elim

inductive Phase
  | fresh
  | tagging
  | settled

def Phase.next (tag key : Bytes) : CacheOp V ⊕ X → Phase → Phase
  | .inl (.publish _ _), _ => .tagging
  | .inl (.addTag tag' key'), .tagging => if tag' = tag ∧ key' = key then .settled else .tagging
  | _, q => q

def phaseRely (tag key : Bytes) : Rely Phase (CacheOp V ⊕ X) (OpRes XRes) where
  rel := Eq
  refl _ := rfl
  trans := Eq.trans
  does op q _ q' := q' = q.next tag key op
  ok op q := ∀ l e, op = .inl (.publish l e) → q = .fresh

section Phase

variable {α : Type} {tag key : Bytes}

lemma Phase.next_of_passive (hop : Passive op) (q : Phase) : q.next tag key op = q := by
  cases op with
  | inr => rfl
  | inl op =>
    cases op with
    | publish | addTag => exact hop.elim
    | _ => rfl

variable {q : Phase}

lemma Phase.next_eq_fresh (h : q.next tag key op = .fresh) : q = .fresh := by
  unfold Phase.next at h
  split at h
  · cases h
  · split_ifs at h
  · exact h

lemma Phase.next_eq_settled (h : q.next tag key op = .settled) :
    q = .settled ∨ op = .inl (.addTag tag key) := by
  unfold Phase.next at h
  split at h
  · cases h
  · split_ifs at h with heq
    rw [heq.1, heq.2]
    exact .inr rfl
  · exact .inl h

lemma under_phase_of_passive {p : Code V XRes α} (h : p.Always Passive) :
    p.Under (phaseRely tag key) (fun _ q' => q' = q) q := by
  refine of_always h (fun hrel hq => ?_) (fun {op q'} hop hq => ⟨?_, ?_⟩) rfl
  · cases hrel
    exact hq
  · rintro l e rfl
    exact hop.elim
  · rintro r q'' rfl
    rw [Phase.next_of_passive hop]
    exact hq

lemma under_phase_writeSlot {l : Loc} {e : Entry V} (htag : e.tableTag ≠ []) :
    (writeSlot l e : Code V XRes Unit).Under (phaseRely e.tableTag e.key)
      (fun _ q => q = .settled) .fresh := by
  rintro q rfl
  refine ⟨fun _ _ heq => (by cases heq), ?_⟩
  rintro _ q rfl q rfl
  refine ⟨fun _ _ _ => rfl, ?_⟩
  rintro _ q rfl
  rw [if_pos htag]
  rintro q rfl
  refine ⟨fun _ _ heq => (by cases heq), ?_⟩
  rintro _ q rfl q rfl
  simp [Phase.next]

lemma under_phase_put (cfg : CacheConfig V) (serial fuel : ℕ) (value : V) (ttl : ℕ)
    (htag : tag ≠ []) : (put cfg serial fuel key value ttl tag : Code V XRes _).Under
      (phaseRely tag key) (fun _ q => q ≠ .tagging) .fresh := by
  refine under_atomic ?_
  rintro q rfl
  refine ⟨fun _ _ heq => (by cases heq), ?_⟩
  rintro now q rfl
  refine bind ((under_phase_of_passive ((plain_scan _ _ _ _ _).mono Plain.passive)).mono ?_)
  rintro found q rfl
  refine bind ((under_phase_of_passive ((plain_chooseTarget _ _).mono Plain.passive)).mono ?_)
  rintro (_ | l) q rfl
  · rintro q rfl
    exact Phase.noConfusion
  · refine bind ((under_phase_writeSlot htag).mono ?_)
    rintro _ q rfl
    refine (under_phase_of_passive (((plain_enforceQuota _ _ _).mono Plain.passive).bind
      fun within => ?_)).mono ?_
    · split_ifs
      · exact always_atomic trivial fun _ => trivial
      · trivial
    · rintro _ q rfl
      exact Phase.noConfusion

end Phase

structure Tracked (n : ℕ) (key : Bytes) (σ : State Tid V) : Prop where
  placed : PlacedAt key σ
  under_key : ∀ {l}, At σ n l → HasKey σ key l

abbrev TrackedState (Tid V : Type) (n : ℕ) (key : Bytes) := {σ : State Tid V // Tracked n key σ}

def coverRely (cfg : CacheConfig V) (t : Tid) (n : ℕ) (key : Bytes) :
    Rely (TrackedState Tid V n key) (CacheOp V ⊕ X) (OpRes XRes) where
  rel σ σ' := ∀ l, At σ'.1 n l → At σ.1 n l
  refl _ _ hl := hl
  trans h h' l hl := h l (h' l hl)
  does op σ r σ' := Acts cfg t op σ.1 r σ'.1
  ok _ _ := True

section Cover

variable {cfg : CacheConfig V} {t : Tid} {n : ℕ} {key : Bytes} {α : Type}
  {σ : TrackedState Tid V n key}

lemma under_cover_passive {post : α → TrackedState Tid V n key → Prop} {op : CacheOp V}
    {f : op.Res → Code V XRes α} (hop : Passive (.inl op : CacheOp V ⊕ X))
    (h : ∀ clock r, ∀ σ' σ'' : TrackedState Tid V n key, (∀ l, At σ'.1 n l → At σ.1 n l) →
      exec cfg clock t op σ'.1 = some (r, σ''.1) → (∀ l, At σ''.1 n l → At σ'.1 n l) →
        (f r).Under (coverRely cfg t n key) post σ'') :
    (atomic op >>= f).Under (coverRely cfg t n key) post σ := by
  refine under_atomic fun σ' hσ' => ⟨trivial, fun r σ'' hdoes => ?_⟩
  obtain ⟨clock, hexec⟩ := id hdoes
  exact h clock r σ' σ'' hσ' hexec fun l hl => at_of_passive hop hdoes hl

lemma under_cover_gone {p : Code V XRes α} (h : p.Always Passive) (hgone : ¬ Held σ.1 n) :
    p.Under (coverRely cfg t n key) (fun _ σ' => ¬ Held σ'.1 n) σ := by
  refine of_always h ?_ ?_ hgone
  · rintro σ σ' hrel hgone ⟨l, hl⟩
    exact hgone ⟨l, hrel l hl⟩
  · rintro op σ hop hgone
    refine ⟨trivial, ?_⟩
    rintro r σ' hdoes ⟨l, hl⟩
    exact hgone ⟨l, at_of_passive hop hdoes hl⟩

lemma exec_eraseKey {clock : ℕ} {σ σ' : State Tid V} {l : Loc} {erased : Bool}
    (hexec : exec cfg clock t (.eraseKey l key) σ = some (erased, σ')) :
    (erased → HasKey σ key l ∧ ¬ HasKey σ' key l) ∧ (erased = false → ¬ HasKey σ key l) := by
  simp only [exec] at hexec
  split_ifs at hexec with _ hkey
  · cases hexec
    refine ⟨fun _ => ⟨hasKey_iff_lookup.2 hkey, ?_⟩, fun hfalse => (by cases hfalse)⟩
    rintro ⟨e, he, -⟩
    exact (entry_vacate he).2 rfl
  · cases hexec
    exact ⟨fun htrue => (by cases htrue), fun _ hl => hkey (hasKey_iff_lookup.1 hl)⟩

lemma under_eraseFrom {ls : List Loc} (hls : ∀ l, At σ.1 n l → l ∈ ls) :
    (eraseFrom key ls : Code V XRes Unit).Under (coverRely cfg t n key)
      (fun _ σ' => ¬ Held σ'.1 n) σ := by
  induction ls generalizing σ with
  | nil =>
    rintro σ' hσ' ⟨l, hl⟩
    cases hls l (hσ' l hl)
  | cons l ls ih =>
    -- When this slot does not have the key, the value is in one of the rest.
    have hrest : ∀ {σ1 σ2 : TrackedState Tid V n key}, (∀ l', At σ1.1 n l' → At σ.1 n l') →
        (∀ l', At σ2.1 n l' → At σ1.1 n l') → ¬ HasKey σ1.1 key l → ∀ l', At σ2.1 n l' →
        l' ∈ ls := by
      intro σ1 σ2 hσ1 hσ2 hnot l' hl'
      rcases List.mem_cons.1 (hls l' (hσ1 l' (hσ2 l' hl'))) with rfl | hmem
      · exact absurd (σ1.2.under_key (hσ2 l' hl')) hnot
      · exact hmem
    refine under_cover_passive trivial fun clock h σ1 σ2 hσ1 hexec hσ2 => ?_
    obtain ⟨rfl, -⟩ := exec_loadHash hexec
    split_ifs with hhash
    · exact ih (hrest hσ1 hσ2 (not_hasKey_of_hash hhash))
    · refine under_cover_passive trivial fun clock erased σ3 σ4 hσ3 hexec hσ4 => ?_
      obtain ⟨htrue, hfalse⟩ := exec_eraseKey hexec
      have hσ3' : ∀ l', At σ3.1 n l' → At σ.1 n l' := fun l' hl' => hσ1 l' (hσ2 l' (hσ3 l' hl'))
      split_ifs with hers
      · -- The value was in this slot, since no other slot has its key.
        rintro σ5 hσ5 ⟨l', hl'⟩
        have hkey : HasKey σ3.1 key l' := σ3.2.under_key (hσ4 l' (hσ5 l' hl'))
        obtain rfl := σ3.2.placed.unique hkey (htrue hers).1
        exact (htrue hers).2 (σ4.2.under_key (hσ5 l' hl'))
      · exact ih (hrest hσ3' hσ4 (hfalse (by simpa using hers)))

lemma under_eraseKeys {keys : List Bytes} (hkey : key ∈ keys) (σ : TrackedState Tid V n key) :
    (eraseKeys keys : Code V XRes Unit).Under (coverRely cfg t n key)
      (fun _ σ' => ¬ Held σ'.1 n) σ := by
  induction keys generalizing σ with
  | nil => cases hkey
  | cons key' keys ih =>
    rcases List.mem_cons.1 hkey with rfl | hkey
    · refine bind ((under_eraseFrom fun l hl => ?_).mono ?_)
      · exact σ.2.placed.mem_probes (σ.2.under_key hl)
      · exact fun _ σ' hgone => under_cover_gone ((plain_eraseKeys keys).mono Plain.passive) hgone
    · refine bind ?_
      refine (of_always (I := fun _ => True)
        ((plain_eraseFrom key' (probes key')).mono Plain.passive)
        (fun _ _ => trivial) (fun _ _ => ⟨trivial, fun _ _ _ => trivial⟩) trivial).mono ?_
      exact fun _ σ' _ => ih hkey σ'

def afterPop (keys : List Bytes) : Code V XRes (Option Unit) :=
  some <$> (do
    eraseKeys keys
    atomic .l1Clear)

lemma passive_afterPop (keys : List Bytes) :
    (afterPop keys : Code V XRes (Option Unit)).Always Passive := by
  refine Prog.Always.bind ?_ fun _ => trivial
  exact ((plain_eraseKeys keys).mono Plain.passive).bind fun _ => ⟨trivial, fun _ => trivial⟩

lemma under_afterPop {keys : List Bytes} (hkey : Held σ.1 n → key ∈ keys) :
    (afterPop keys : Code V XRes (Option Unit)).Under (coverRely cfg t n key)
      (fun _ σ' => ¬ Held σ'.1 n) σ := by
  by_cases hheld : Held σ.1 n
  · refine bind (bind ((under_eraseKeys (hkey hheld) σ).mono ?_))
    intro _ σ1 hgone
    refine (under_cover_gone (p := atomic .l1Clear) ⟨trivial, fun _ => trivial⟩ hgone).mono ?_
    rintro _ σ2 hgone2 σ3 hσ3 ⟨l, hl⟩
    exact hgone2 ⟨l, hσ3 l hl⟩
  · exact under_cover_gone (passive_afterPop keys) hheld

end Cover

def clears : CacheCall V ⊕ X → Bool
  | .inl (.invalidateTable _) => true
  | .inl .resetThreadL1 => true
  | _ => false

def clearRely (cfg : CacheConfig V) (t : Tid) :
    Rely (State Tid V) (CacheOp V ⊕ X) (OpRes XRes) where
  rel σ σ' := σ'.l1 t = σ.l1 t
  refl _ := rfl
  trans h h' := h'.trans h
  does op σ r σ' := Acts cfg t op σ r σ'
  ok _ _ := True

section Clear

variable {cfg : CacheConfig V} {t : Tid}

lemma under_l1Clear (n : ℕ) (σ : State Tid V) :
    (atomic .l1Clear : Code V XRes Unit).Under (clearRely cfg t)
      (fun _ σ' => ¬ (σ'.l1 t).Has n) σ := by
  refine fun σ1 _ => ⟨trivial, fun r σ2 hdoes => ?_⟩
  obtain ⟨clock, hexec⟩ := hdoes
  cases hexec
  intro σ3 hσ3
  rw [hσ3]
  simp only [State.setL1, Function.update_self]
  rintro ⟨key, v, hv, -⟩
  exact L1.not_holds_clear _ _ _ hv

lemma under_clear {c : CacheCall V ⊕ X} (hc : clears c) (serial fuel n : ℕ)
    (σ : State Tid V) : (callBody cfg serial fuel c : Code V XRes _).Under (clearRely cfg t)
      (fun _ σ' => ¬ (σ'.l1 t).Has n) σ := by
  -- Returning changes nothing.
  have hretain : ∀ {σ1 σ2 : State Tid V}, ¬ (σ1.l1 t).Has n → σ2.l1 t = σ1.l1 t →
      ¬ (σ2.l1 t).Has n := fun hnot heq => heq ▸ hnot
  cases c with
  | inr => cases hc
  | inl c =>
    cases c with
    | resetThreadL1 =>
      refine bind ((under_l1Clear n σ).mono ?_)
      exact fun _ σ1 hnot σ2 hσ2 => hretain hnot hσ2
    | invalidateTable =>
      refine under_atomic fun σ1 _ => ⟨trivial, fun keys σ2 _ => ?_⟩
      show (afterPop keys : Code V XRes (Option Unit)).Under (clearRely cfg t) _ σ2
      refine bind (bind ?_)
      refine (of_always (I := fun _ => True) ((plain_eraseKeys keys).mono Plain.passive)
        (fun _ _ => trivial) (fun _ _ => ⟨trivial, fun _ _ _ => trivial⟩) trivial).mono ?_
      intro _ σ3 _
      refine (under_l1Clear n σ3).mono ?_
      exact fun _ σ4 hnot σ5 hσ5 => hretain hnot hσ5
    | _ => cases hc

end Clear

def safeRely (n : ℕ) : Rely Unit (CacheOp V ⊕ X) (OpRes XRes) where
  rel _ _ := True
  refl _ := trivial
  trans _ _ := trivial
  does op _ r _ := ∀ v, yields op r = some v → v.id ≠ n
  ok op _ := ∀ key v expires, op = .inl (.l1Put key v expires) → v.id ≠ n

def Apart (n : ℕ) (c : CacheCall V ⊕ X) (r : Option (CallRet XRes c)) : Prop :=
  ∀ x v, r = some x → gotten c x = some v → v.id ≠ n

lemma under_safe {n : ℕ} (cfg : CacheConfig V) (serial fuel : ℕ) (c : CacheCall V ⊕ X) :
    (callBody cfg serial fuel c : Code V XRes _).Under (safeRely n)
      (fun r _ => Apart n c r) () := by
  -- what is known of every value is that another call put it
  let K : Lore V := fun _ v => v.id ≠ n
  have hlore : (callBody cfg serial fuel c : Code V XRes _).Under loreRely (Told c) K :=
    under_lore cfg serial fuel c K
  have hsafe : (callBody cfg serial fuel c : Code V XRes _).Under (safeRely n)
    (fun r _ => Told c r K) () :=
    transfer (fun _ => K) hlore (fun _ _ _ hv => hv)
      (fun hd => ⟨fun _ _ hv => hv, fun _ v _ hv => hd v hv⟩) fun h => h
  refine hsafe.mono ?_
  intro r _ htold x v hr hv
  cases c with
  | inr => cases hv
  | inl c =>
    cases c with
    | get key => exact htold key x v rfl hr hv
    | _ => cases hv

end SpidoNG.Cache
