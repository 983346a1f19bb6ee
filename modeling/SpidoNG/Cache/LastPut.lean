import SpidoNG.Cache.Expiry

/-!
# The value that was put last

`put` leaves the thread's own table as it is, and `get` looks there first.
-/

namespace SpidoNG.Cache

open Bytes Option Function

variable {l : Loc}

section Reading

variable {Tid V α : Type} [DecidableEq Tid] {cfg : CacheConfig V} {clock : ℕ} {t : Tid}
  {σ : State Tid V}
  {key : Bytes} {ls : List Loc}

/-- A program that only reads. -/
abbrev Sees (cfg : CacheConfig V) (clock : ℕ) (t : Tid) (σ : State Tid V) (p : Alone V α)
    (Q : α → Prop) : Prop :=
  p.Under (aloneAt cfg clock t) (fun r σ' => σ' = σ ∧ Q r) σ

lemma sees_hasKey (key : Bytes) (l : Loc) :
    Sees cfg clock t σ (hasKey key l (σ.slots l).hash) fun found => found ↔ HasKey σ key l := by
  unfold hasKey
  split_ifs with hhash
  · rintro _ rfl
    refine ⟨trivial, fun found σ' hexec => ?_⟩
    obtain ⟨hfound, rfl⟩ := exec_confirm (show exec cfg clock t (.confirm l key) _ = _ from hexec)
    exact under_alone_pure ⟨rfl, hfound⟩
  · exact under_alone_pure ⟨rfl, fun h => (by cases h), fun h =>
      absurd h (not_hasKey_of_hash hhash)⟩

structure Scanned (key : Bytes) (ls : List Loc) (σ : State Tid V) (found : Scan) : Prop where
  target : ∀ l, found.target = some l → HasKey σ key l
  absent : found.target = none → ∀ l ∈ ls, ¬ HasKey σ key l
  emptySlot : ∀ l, found.emptySlot = some l → l ∈ probes key ∧ (σ.slots l).entry = none
  lruVictim : ∀ l, found.lruVictim = some l → l ∈ probes key

omit [DecidableEq Tid] in
lemma Scanned.cons {found : Scan} (h : Scanned key ls σ found) (hl : ¬ HasKey σ key l) :
    Scanned key (l :: ls) σ found :=
  { h with absent := fun htarget => List.forall_mem_cons.2 ⟨hl, h.absent htarget⟩ }

lemma sees_scan (hls : ls ⊆ probes key) {emptySlot lruVictim : Option Loc} {lruSeen : ℕ}
    (hemp : ∀ l, emptySlot = some l → l ∈ probes key ∧ (σ.slots l).entry = none)
    (hlru : ∀ l, lruVictim = some l → l ∈ probes key) :
    Sees cfg clock t σ (scan key ls emptySlot lruVictim lruSeen) (Scanned key ls σ) := by
  induction ls generalizing emptySlot lruVictim lruSeen with
  | nil => exact under_alone_pure ⟨rfl, fun _ h => (by cases h), fun _ _ h => (by cases h),
    hemp, hlru⟩
  | cons l ls ih =>
    obtain ⟨hl, hls⟩ := List.cons_subset.1 hls
    refine under_alone fun hash _ hexec => ?_
    cases hexec
    split_ifs with hzero
    · have hnone := entry_eq_none_of_hash hzero
      refine (ih hls (fun l' hl' => ?_) hlru).mono fun found σ' h => ⟨h.1, h.2.cons ?_⟩
      · cases emptySlot with
        | none => exact some_inj.1 hl' ▸ ⟨hl, hnone⟩
        | some => exact hemp l' hl'
      · rintro ⟨e, he, -⟩
        cases hnone.symm.trans he
    · refine Prog.Under.bind ((sees_hasKey key l).mono ?_)
      rintro found _ ⟨rfl, hfound⟩
      split_ifs with hf
      · refine under_alone_pure ⟨rfl, ?_, fun h => (by cases h), hemp, hlru⟩
        rintro _ ⟨⟩
        exact hfound.1 hf
      · refine under_alone fun lu _ hexec => ?_
        cases hexec
        split_ifs
        · refine (ih hls hemp ?_).mono fun found σ' h => ⟨h.1, h.2.cons (mt hfound.2 hf)⟩
          rintro _ ⟨⟩
          exact hl
        · exact (ih hls hemp hlru).mono fun found σ' h => ⟨h.1, h.2.cons (mt hfound.2 hf)⟩

lemma exec_pinned {locked dirty : Bool} {σ' : State Tid V}
    (h : exec cfg clock t (.pinned l locked) σ = some (dirty, σ')) :
    dirty = σ.slotDirty l ∧ σ' = σ := by
  simp only [exec] at h
  split_ifs at h
  cases h
  exact ⟨rfl, rfl⟩

lemma sees_unpinned (hls : ls ⊆ probes key) {victim : Loc} (hvic : victim ∈ probes key) :
    Sees cfg clock t σ (unpinned victim ls) fun l' =>
      l' ∈ probes key ∧ ((∃ l ∈ ls, σ.slotDirty l = false) → σ.slotDirty l' = false) := by
  induction ls with
  | nil => exact under_alone_pure ⟨rfl, hvic, fun ⟨_, h, _⟩ => (by cases h)⟩
  | cons l ls ih =>
    obtain ⟨hl, hls⟩ := List.cons_subset.1 hls
    refine under_alone fun dirty _ hexec => ?_
    obtain ⟨hdirty, rfl⟩ := exec_pinned hexec
    split_ifs with hd
    · refine (ih hls).mono fun l' σ' h => ⟨h.1, h.2.1, fun ⟨l₁, hl₁, hclean⟩ => ?_⟩
      rcases List.mem_cons.1 hl₁ with rfl | hl₁
      · cases (hdirty.symm.trans hd).symm.trans hclean
      · exact h.2.2 ⟨l₁, hl₁, hclean⟩
    · exact under_alone_pure ⟨rfl, hl, fun _ => hdirty ▸ eq_false_of_ne_true hd⟩

/-- The slot has the key; or no slot of the range has it, and this one is clean if any is. -/
def Chosen (key : Bytes) (σ : State Tid V) (l : Loc) : Prop :=
  HasKey σ key l ∨ l ∈ probes key ∧ (∀ l' ∈ probes key, ¬ HasKey σ key l') ∧
    ((∃ l' ∈ probes key, σ.slotDirty l' = false) → σ.slotDirty l = false)

lemma sees_chosen {l : Loc} (h : Chosen key σ l) :
    Sees cfg clock t σ (pure (some l)) fun r =>
      (r = none → ∀ l ∈ probes key, ¬ HasKey σ key l) ∧ ∀ l, r = some l → Chosen key σ l := by
  refine under_alone_pure ⟨rfl, fun hnone => (by cases hnone), ?_⟩
  rintro _ ⟨⟩
  exact h

lemma sees_chooseTarget {found : Scan} (h : Scanned key (probes key) σ found) :
    Sees cfg clock t σ (chooseTarget key found) fun r =>
      (r = none → ∀ l ∈ probes key, ¬ HasKey σ key l) ∧ ∀ l, r = some l → Chosen key σ l := by
  unfold chooseTarget
  cases ht : found.target with
  | some l => exact sees_chosen (.inl (h.target l ht))
  | none =>
    have habs := h.absent ht
    cases hslot : found.emptySlot with
    | some l =>
      obtain ⟨hl, hnone⟩ := h.emptySlot l hslot
      exact sees_chosen (.inr ⟨hl, habs, fun _ => by rw [State.slotDirty, hnone]⟩)
    | none =>
      cases hlru : found.lruVictim with
      | none => exact under_alone_pure ⟨rfl, fun _ => habs, fun _ hl => (by cases hl)⟩
      | some victim =>
        have hvic := h.lruVictim victim hlru
        refine under_alone fun dirty _ hexec => ?_
        obtain ⟨hdirty, rfl⟩ := exec_pinned hexec
        split_ifs with hd
        · refine Prog.Under.bind ((sees_unpinned (List.Subset.refl _) hvic).mono ?_)
          rintro l _ ⟨rfl, hl, hclean⟩
          exact sees_chosen (.inr ⟨hl, habs, hclean⟩)
        · exact sees_chosen (.inr ⟨hvic, habs, fun _ => hdirty ▸ eq_false_of_ne_true hd⟩)

end Reading

variable {V : Type}

structure Solo (V : Type) where
  cache : State Unit V := State.empty
  last : Bytes → Option (ValuePtr V) := fun _ => none
  serial : ℕ := 0

namespace Solo

/-- What a call returns and the cache behind it; nothing if it does not end within the fuel. -/
def perform (cfg : CacheConfig V) (x : Solo V) (clock fuel : ℕ) (c : CacheCall V) :
    Option (c.Ret × State Unit V) :=
  ((c.body cfg x.serial fuel : Alone V _).runOn (execAt cfg clock ()) x.cache).bind fun y =>
    y.1.map fun r => (r, y.2)

def noted (x : Solo V) : CacheCall V → Bytes → Option (ValuePtr V)
  | .put key value _ _ => update x.last key (some ⟨x.serial, value⟩)
  | _ => x.last

def after (x : Solo V) (c : CacheCall V) (σ : State Unit V) : Solo V := ⟨σ, x.noted c, x.serial + 1⟩

inductive Reached (cfg : CacheConfig V) (ok : Solo V → CacheCall V → Prop) : Solo V → Prop
  | start : Reached cfg ok {}
  | call {x : Solo V} {clock fuel : ℕ} {c : CacheCall V} {r : c.Ret} {σ : State Unit V}
      (hx : Reached cfg ok x) (hok : ok x c) (hrun : x.perform cfg clock fuel c = some (r, σ)) :
      Reached cfg ok (x.after c σ)

/-- The keys fit into the slots of the thread's own table. -/
def Short : CacheCall V → Prop
  | .get key => key.length ≤ L1.kKeyMax
  | .put key _ _ _ => key.length ≤ L1.kKeyMax
  | _ => True

/-- `put` is called only for keys that the thread does not have in its own table. -/
def Unheld (x : Solo V) : CacheCall V → Prop
  | .put key _ _ _ => ∀ v, ¬ (x.cache.l1 ()).Holds key v
  | _ => True

/-- Whatever `get` returns is the value of the latest `put` of the key. -/
def LastPutWins (cfg : CacheConfig V) (x : Solo V) : Prop :=
  ∀ key clock fuel v σ, key.length ≤ L1.kKeyMax →
    x.perform cfg clock fuel (.get key) = some (some v, σ) → x.last key = some v

structure Agrees (last : Bytes → Option (ValuePtr V)) (σ : State Unit V) : Prop where
  placed : Placed σ
  slots : ∀ {l e}, (σ.slots l).entry = some e → last e.key = some e.value
  table : ∀ {key v}, (σ.l1 ()).Holds key v → last key = some v

variable {cfg : CacheConfig V} {last : Bytes → Option (ValuePtr V)} {σ σ' : State Unit V}
  {clock fuel serial : ℕ} {α : Type} {key : Bytes} {x : Solo V} {value : V} {ttl : ℕ} {tag : Bytes}

lemma agrees_empty : Agrees (fun _ => none) (State.empty : State Unit V) where
  placed := placed_empty
  slots h := by cases h
  table := by
    rintro key v ⟨i, e, he, -⟩
    cases he

variable {op : CacheOp V ⊕ Empty} {r : OpRes (fun x : Empty => x.elim) op}

lemma Agrees.acts
    (h : Agrees last σ) (hacts : Acts cfg () op σ r σ') (hslot : ∀ l e, op ≠ .inl (.publish l e))
    (htable : ∀ key v expires, op = .inl (.l1Put key v expires) →
      last (key.take L1.kKeyMax) = some v) : Agrees last σ' where
  placed := hacts.placed h.placed fun hop => absurd hop (hslot _ _)
  slots he := (hacts.entry he).elim h.slots fun hop => absurd hop (hslot _ _)
  table hv := by
    rcases hacts.holds hv with hv | ⟨key', expires, hop, rfl⟩
    · exact h.table hv
    · exact htable key' _ expires hop

lemma acts_of_execAt (h : execAt cfg clock () op σ = some (r, σ')) : Acts cfg () op σ r σ' := by
  cases op with
  | inl => exact ⟨clock, h⟩
  | inr x => exact x.elim

variable {c : CacheCall V}

lemma Agrees.run {p : Alone V α} {post : α → Lore V → Prop} {a : α}
    (h : Agrees last σ) (hshort : Short c) (hput : putKey (.inl c : CacheCall V ⊕ Empty) = none)
    (hp : p.Under loreRely post fun key v => last key = some v)
    (hsigned : p.Always (Signed (.inl c) serial))
    (hrun : p.runOn (execAt cfg clock ()) σ = some (a, σ')) :
    Agrees last σ' ∧ post a fun key v => last key = some v := by
  induction p generalizing σ with
  | pure =>
    cases hrun
    exact ⟨h, hp.done⟩
  | call op k ih =>
    obtain ⟨⟨r, σ₁⟩, hexec, hrun⟩ := bind_eq_some_iff.1 hrun
    have hacts := acts_of_execAt hexec
    refine ih r (h.acts hacts ?_ ?_) (hp.own ⟨fun _ _ hv => hv, fun key v hkey hv => ?_⟩)
      (hsigned.2 r) hrun
    · rintro l e rfl
      obtain ⟨-, ttl, hc⟩ := hsigned.1
      cases hc
      cases hput
    · rintro key v expires rfl
      have hc : (.inl c : CacheCall V ⊕ Empty) = .inl (.get key) := hsigned.1
      cases hc
      rw [List.take_of_length_le hshort]
      exact hp.demand key v expires rfl
    · rcases hacts.yields hkey hv with hv | ⟨l, e, he, rfl, rfl⟩
      · exact h.table hv
      · exact h.slots he

lemma perform_eq_some {r : c.Ret} (h : x.perform cfg clock fuel c = some (r, σ)) :
    (callBody cfg x.serial fuel (.inl c) : Alone V _).runOn (execAt cfg clock ()) x.cache
      = some (some r, σ) := by
  obtain ⟨⟨a, σ₁⟩, hrun, hret⟩ := bind_eq_some_iff.1 h
  obtain ⟨r', hr, heq⟩ := map_eq_some_iff.1 hret
  cases heq
  cases hr
  exact hrun

lemma Agrees.other {r : c.Ret} (h : Agrees x.last x.cache) (hshort : Short c)
    (hput : putKey (.inl c : CacheCall V ⊕ Empty) = none)
    (hrun : x.perform cfg clock fuel c = some (r, σ)) : Agrees x.last σ :=
  (h.run hshort hput (under_lore cfg x.serial fuel _ _) (signed_callBody cfg fuel _)
    (perform_eq_some hrun)).1

lemma Agrees.lastPutWins (h : Agrees x.last x.cache) : x.LastPutWins cfg := by
  intro key clock fuel v σ hshort hrun
  have htold := (h.run (c := .get key) hshort rfl (under_lore cfg x.serial fuel _ _)
    (signed_callBody cfg fuel _) (perform_eq_some hrun)).2
  exact htold key (some v) v rfl rfl rfl

def Only (key : Bytes) (v : ValuePtr V) (σ : State Unit V) : Prop :=
  ∀ l e, (σ.slots l).entry = some e → e.key = key → e.value = v

lemma only_overwrite {e : Entry V} {owner : Option Unit}
    (honly : ∀ l', HasKey σ e.key l' → l' = l) : Only e.key e.value
      ((σ.vacate l owner).fill l e) := by
  intro l' e' he hkey
  rcases entry_fill he with ⟨he, hl⟩ | ⟨-, rfl⟩
  · exact absurd (honly l' ⟨e', (entry_vacate he).1, hkey⟩) hl
  · rfl

lemma Only.passive {v : ValuePtr V} {p : Alone V α} (hp : p.Always Passive)
    (h : Placed σ ∧ Only key v σ) :
    p.Under (aloneAt cfg clock ()) (fun _ σ' => Placed σ' ∧ Only key v σ') σ := by
  refine Prog.Under.of_always (ρ := aloneAt cfg clock ()) hp ?_ ?_ h
  · rintro σ _ rfl hσ
    exact hσ
  · intro op σ hop hσ
    refine ⟨trivial, fun r σ' hexec =>
      ⟨(acts_of_execAt hexec).placed hσ.1 ?_, fun l e he hkey => ?_⟩⟩
    · rintro l e rfl
      exact hop.elim
    · rcases (acts_of_execAt hexec).entry he with he | rfl
      · exact hσ.2 l e he hkey
      · exact hop.elim

lemma under_solo_writeSlot {e : Entry V} (hσ : Placed σ) (hl : l ∈ probes e.key)
    (honly : ∀ l', HasKey σ e.key l' → l' = l) : (writeSlot l e : Alone V _).Under
      (aloneAt cfg clock ()) (fun _ σ' => Placed σ' ∧ Only e.key e.value σ') σ := by
  refine under_alone fun _ σ₁ hexec => ?_
  have hclaim := acts_of_execAt (show execAt cfg clock () (.inl (.claim l)) σ
    = some ((), σ₁) from hexec)
  have hσ₁ : Placed σ₁ := hclaim.placed hσ fun hop => (by cases hop)
  simp only [exec] at hexec
  split_ifs at hexec
  cases hexec
  refine under_alone fun _ σ₂ hexec => ?_
  have hpublish := acts_of_execAt (show execAt cfg clock () (.inl (.publish l e)) _
    = some ((), σ₂) from hexec)
  have hσ₂ : Placed σ₂ := by
    refine hpublish.placed hσ₁ ?_
    rintro _ _ ⟨⟩
    refine ⟨hl, ?_⟩
    rintro l' ⟨e', he', hkey⟩
    exact honly l' ⟨e', (entry_vacate he').1, hkey⟩
  cases hexec
  split_ifs
  · refine under_alone fun _ _ hexec => ?_
    cases hexec
    exact under_alone_pure ⟨⟨hσ₂.in_range, hσ₂.unique⟩, only_overwrite honly⟩
  · exact under_alone_pure ⟨hσ₂, only_overwrite honly⟩

lemma under_solo_put (hσ : Placed σ) : (put cfg serial fuel key value ttl tag : Alone V _).Under
    (aloneAt cfg clock ()) (fun _ σ' => Placed σ' ∧ Only key ⟨serial, value⟩ σ') σ := by
  refine under_alone fun _ _ hexec => ?_
  cases hexec
  refine Prog.Under.bind ((sees_scan (List.Subset.refl _) (fun _ h => (by cases h))
    fun _ h => (by cases h)).mono ?_)
  rintro found σ ⟨rfl, hfound⟩
  refine Prog.Under.bind ((sees_chooseTarget hfound).mono ?_)
  rintro (_ | l) σ ⟨rfl, hnone, hchosen⟩
  · refine under_alone_pure ⟨hσ, fun l e he hkey => ?_⟩
    have hl : HasKey σ key l := ⟨e, he, hkey⟩
    exact absurd hl (hnone rfl l (hσ.mem_probes hl))
  · have honly : l ∈ probes key ∧ ∀ l', HasKey σ key l' → l' = l := by
      rcases hchosen l rfl with hl | ⟨hl, habs, -⟩
      · exact ⟨hσ.mem_probes hl, fun l' hl' => hσ.unique hl' hl⟩
      · exact ⟨hl, fun l' hl' => absurd hl' (habs l' (hσ.mem_probes hl'))⟩
    refine Prog.Under.bind ((under_solo_writeSlot
      (e := ⟨key, tag, ⟨serial, value⟩, clock + ttl, cfg.resultSizeBytes value⟩) hσ honly.1
        honly.2).mono fun _ σ₁ hwritten => ?_)
    refine Only.passive (((plain_enforceQuota _ _ _).mono Plain.passive).bind fun within =>
      ?_) hwritten
    split_ifs
    · exact always_atomic trivial fun _ => trivial
    · trivial

structure Gains (key : Bytes) (v : ValuePtr V) (σ σ' : State Unit V) : Prop where
  slots : ∀ {l e}, (σ'.slots l).entry = some e → (σ.slots l).entry = some e ∨ e.key = key ∧
    e.value = v
  table : ∀ {key v}, (σ'.l1 ()).Holds key v → (σ.l1 ()).Holds key v

lemma gains_put {r : Option (ValuePtr V)}
    (hrun : (put cfg serial fuel key value ttl tag : Alone V _).runOn (execAt cfg clock ()) σ
      = some (r, σ')) : Gains key ⟨serial, value⟩ σ σ' := by
  have hsigned : (put cfg serial fuel key value ttl tag : Alone V _).Always
      (Signed (.inl (.put key value ttl tag)) serial) := signed_put cfg fuel key value ttl tag
  refine (Prog.Under.of_always (ρ := aloneAt cfg clock ())
    (I := Gains key ⟨serial, value⟩ σ) hsigned
    ?_ ?_ ⟨fun he => .inl he, fun hv => hv⟩).run hrun
  · rintro s _ rfl hs
    exact hs
  · intro op s hop hs
    refine ⟨trivial, fun r s' hexec => ⟨fun he => ?_, fun hv => ?_⟩⟩
    · rcases (acts_of_execAt hexec).entry he with he | rfl
      · exact hs.slots he
      · obtain ⟨hid, ttl', hc⟩ := hop
        cases hc
        exact .inr ⟨rfl, by rw [← hid]⟩
    · rcases (acts_of_execAt hexec).holds hv with hv | ⟨key', expires, rfl, -⟩
      · exact hs.table hv
      · cases (show (.inl (.put key value ttl tag) : CacheCall V ⊕ Empty)
          = .inl (.get key') from hop)

lemma Agrees.put {r : ValuePtr V} (h : Agrees x.last x.cache)
    (hheld : ∀ v, ¬ (x.cache.l1 ()).Holds key v)
    (hrun : x.perform cfg clock fuel (.put key value ttl tag) = some (r, σ)) :
    Agrees (x.noted (.put key value ttl tag)) σ := by
  have hrun' := perform_eq_some hrun
  have hgains : Gains key ⟨x.serial, value⟩ x.cache σ := gains_put hrun'
  obtain ⟨hplaced, honly⟩ : Placed σ ∧ Only key ⟨x.serial, value⟩ σ :=
    (under_solo_put h.placed).run hrun'
  refine ⟨hplaced, fun {l e} he => ?_, fun {key' v} hv => ?_⟩
  · by_cases hkey : e.key = key
    · rw [honly l e he hkey, hkey]
      exact update_self ..
    · have hold := (hgains.slots he).resolve_right fun hnew => hkey hnew.1
      exact (update_of_ne hkey ..).trans (h.slots hold)
  · have hne : key' ≠ key := by
      rintro rfl
      exact hheld v (hgains.table hv)
    exact (update_of_ne hne ..).trans (h.table (hgains.table hv))

lemma agrees_of_reached (h : Reached cfg (fun x c => Short c ∧ x.Unheld c) x) :
    Agrees x.last x.cache := by
  induction h with
  | start => exact agrees_empty
  | @call x clock fuel c r σ _ hok hrun ih =>
    cases c with
    | put => exact ih.put hok.2 hrun
    | _ => exact ih.other hok.1 rfl hrun

/-- If a key is put only while the thread does not have it in its own table, then `get` returns
nothing or what was put last. -/
theorem lastPutWins_of_reached (h : Reached cfg (fun x c => Short c ∧ x.Unheld c) x) :
    x.LastPutWins cfg := (agrees_of_reached h).lastPutWins

section Overwritten

def putSeven : CacheCall ℕ := .put (str "k") 7 60 (str "t")

def putEight : CacheCall ℕ := .put (str "k") 8 60 (str "t")

def getIt : CacheCall ℕ := .get (str "k")

def found (x : Solo ℕ) : Option (ValuePtr ℕ) :=
  (x.perform Timed.roomy 0 0 (.get (str "k"))).bind fun y => y.1

theorem lastPutWins_putTwice : ∃ x : Solo ℕ, x.LastPutWins Timed.roomy ∧ x.found = some ⟨1, 8⟩ := by
  have hput : ((({} : Solo ℕ).perform Timed.roomy 0 1 putSeven).any fun y =>
      ((({} : Solo ℕ).after putSeven y.2).perform Timed.roomy 0 1 putEight).any fun z =>
        ((({} : Solo ℕ).after putSeven y.2).after putEight z.2).found == some ⟨1, 8⟩) = true := by
    decide +kernel
  simp only [any_eq_true, beq_iff_eq] at hput
  obtain ⟨y, hy, z, hz, hfound⟩ := hput
  have hshort : (str "k").length ≤ L1.kKeyMax := by decide
  have hempty : ({} : Solo ℕ).Unheld putSeven := by
    rintro v ⟨i, e, he, -⟩
    cases he
  refine ⟨_, lastPutWins_of_reached (.call (c := putEight)
    (.call (c := putSeven) .start ⟨hshort, hempty⟩ hy) ⟨hshort, fun v hv => ?_⟩ hz), hfound⟩
  exact hempty v ((gains_put (perform_eq_some hy)).table hv)

theorem not_lastPutWins : ∃ x : Solo ℕ, Reached Timed.roomy (fun _ c => Short c) x ∧
    ¬ x.LastPutWins Timed.roomy := by
  have hput : ((({} : Solo ℕ).perform Timed.roomy 0 1 putSeven).any fun y =>
      ((({} : Solo ℕ).after putSeven y.2).perform Timed.roomy 0 0 getIt).any fun z =>
        (((({} : Solo ℕ).after putSeven y.2).after getIt z.2).perform Timed.roomy 0 1 putEight).any
          fun w => (((({} : Solo ℕ).after putSeven y.2).after getIt z.2).after putEight w.2).found
            == some ⟨0, 7⟩) = true := by
    decide +kernel
  simp only [any_eq_true, beq_iff_eq] at hput
  obtain ⟨y, hy, z, hz, w, hw, hfound⟩ := hput
  obtain ⟨⟨r, σ⟩, hget, hr⟩ := bind_eq_some_iff.1 hfound
  have hshort : (str "k").length ≤ L1.kKeyMax := by decide
  refine ⟨_, .call (c := putEight)
    (.call (c := getIt) (.call (c := putSeven) .start hshort hy) hshort
    hz) hshort hw, fun hlast => ?_⟩
  cases hr
  have heq := hlast (str "k") 0 0 ⟨0, 7⟩ σ hshort hget
  simp [after, noted, putEight] at heq

end Overwritten

end Solo

end SpidoNG.Cache
