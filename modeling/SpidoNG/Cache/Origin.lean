import SpidoNG.Cache.System

/-!
# Where values come from

A value in the cache is the value of a call of `put` that has begun.
-/

namespace SpidoNG.Cache

open Bytes Threads

variable {Tid V E X Y Job : Type} {XRes : X → Type} {Out : Job → Type} [DecidableEq Tid]

def gotten : (c : CacheCall V ⊕ X) → CallRet XRes c → Option (ValuePtr V)
  | .inl (.get _), r => r
  | _, _ => none

def getKey : CacheCall V ⊕ X → Option Bytes
  | .inl (.get key) => some key
  | _ => none

def yields : (op : CacheOp V ⊕ X) → OpRes XRes op → Option (ValuePtr V)
  | .inl (.l1Find _), r => r
  | .inl (.readSlot _ _), r => r.map Prod.fst
  | _, _ => none

def soughtKey : CacheOp V ⊕ X → Option Bytes
  | .inl (.l1Find key) => some key
  | .inl (.readSlot _ key) => some key
  | _ => none

variable {v : ValuePtr V}

lemma soughtKey_of_yields {op : CacheOp V ⊕ X} {r : OpRes XRes op}
    (h : yields op r = some v) : ∃ key, soughtKey op = some key := by
  cases op with
  | inr => cases h
  | inl op =>
    cases op with
    | l1Find key | readSlot l key => exact ⟨key, rfl⟩
    | _ => cases h

abbrev Lore (V : Type) := Bytes → ValuePtr V → Prop

def loreRely : Rely (Lore V) (CacheOp V ⊕ X) (OpRes XRes) where
  rel K K' := ∀ key v, K key v → K' key v
  refl _ _ _ hv := hv
  trans h h' key v hv := h' key v (h key v hv)
  does op K r K' := (∀ key v, K key v → K' key v) ∧
    ∀ key v, soughtKey op = some key → yields op r = some v → K' key v
  ok op K := ∀ key v expires, op = .inl (.l1Put key v expires) → K key v

def Told (c : CacheCall V ⊕ X) (r : Option (CallRet XRes c)) (K : Lore V) : Prop :=
  ∀ key x v, getKey c = some key → r = some x → gotten c x = some v → K key v

section Programs

variable {α : Type}

lemma under_atomic {σ : Type} {ρ : Rely σ (CacheOp V ⊕ X) (OpRes XRes)} {post : α → σ → Prop}
    {op : CacheOp V} {f : op.Res → Code V XRes α} {s : σ}
    (h : ∀ s', ρ.rel s s' → ρ.ok (.inl op) s' ∧
      ∀ r s'', ρ.does (.inl op) s' r s'' → (f r).Under ρ post s'') :
    (atomic op >>= f).Under ρ post s := h

lemma under_lore_getL2 (key : Bytes) (ls : List Loc) (K : Lore V) :
    (getL2 key ls : Code V XRes (Option (ValuePtr V))).Under loreRely
      (fun r K' => ∀ v, r = some v → K' key v) K := by
  induction ls generalizing K with
  | nil =>
    rintro K' - v ⟨⟩
  | cons _ _ ih =>
    refine under_atomic fun K1 _ => ⟨fun _ _ _ heq => (by cases heq), fun h K2 _ => ?_⟩
    split_ifs
    · rintro K' - v ⟨⟩
    · exact ih K2
    · refine under_atomic fun K3 _ => ⟨fun _ _ _ heq => (by cases heq), fun r K4 hr => ?_⟩
      cases r with
      | none => exact ih K4
      | some r =>
        obtain ⟨v, expires⟩ := r
        have hv : K4 key v := hr.2 key v rfl rfl
        refine under_atomic fun K5 hK5 => ⟨?_, fun _ K6 hK6 => ?_⟩
        · rintro _ _ _ ⟨⟩
          exact hK5 key v hv
        · rintro K7 hK7 v' ⟨⟩
          exact hK7 key v (hK6.1 key v (hK5 key v hv))

lemma under_lore_get (key : Bytes) (K : Lore V) :
    (get key : Code V XRes (Option (ValuePtr V))).Under loreRely
      (fun r K' => ∀ v, r = some v → K' key v) K := by
  refine under_atomic fun K1 _ => ⟨fun _ _ _ heq => (by cases heq), fun _ K2 _ => ?_⟩
  refine under_atomic fun K3 _ => ⟨fun _ _ _ heq => (by cases heq), fun hit K4 hhit => ?_⟩
  cases hit with
  | some v =>
    rintro K5 hK5 v' ⟨⟩
    exact hK5 key v (hhit.2 key v rfl rfl)
  | none => exact under_lore_getL2 key (probes key) K4

lemma under_lore (cfg : CacheConfig V) (serial fuel : ℕ) (c : CacheCall V ⊕ X) (K : Lore V) :
    (callBody cfg serial fuel c : Code V XRes _).Under loreRely (Told c) K := by
  by_cases hget : ∃ key, c = .inl (.get key)
  · obtain ⟨key, rfl⟩ := hget
    refine Prog.Under.bind ((under_lore_get key K).mono ?_)
    rintro r K1 hr K2 hK2 key' x v ⟨⟩ ⟨⟩ hv
    exact hK2 key v (hr v hv)
  · -- Only `get` puts values into the table of its thread.
    refine (Prog.Under.of_always (I := fun _ => True) (signed_callBody cfg fuel c)
      (fun _ _ => trivial) (fun {op _} hop _ => ⟨?_, fun _ _ _ => trivial⟩) trivial).mono ?_
    · rintro key v expires rfl
      exact absurd ⟨key, hop⟩ hget
    · rintro r K' - key x v hkey
      cases c with
      | inr => cases hkey
      | inl c =>
        cases c with
        | get key => exact absurd ⟨key, rfl⟩ hget
        | _ => cases hkey

end Programs

def Known (s : CacheSys Tid V Y XRes Out) (key : Bytes) (v : ValuePtr V) : Prop :=
  ∃ key' ttl tag, Began s v.id (.inl (.put key' v.value ttl tag)) ∧
    key'.take L1.kKeyMax = key.take L1.kKeyMax

structure Traced (s : CacheSys Tid V Y XRes Out) : Prop where
  stamped : Stamped s
  signed : ∀ {t a}, s.active t = some a → a.rest.Always (Signed a.call a.began)
  origin : ∀ {l e}, (s.shared.1.slots l).entry = some e →
    ∃ ttl, Began s e.value.id (.inl (.put e.key e.value.value ttl e.tableTag))
  tables : ∀ {t key v}, (s.shared.1.l1 t).Holds key v → Known s key v
  gets : ∀ {t a}, s.active t = some a → a.rest.Under loreRely (Told a.call) (Known s)
  got : ∀ {r key v}, r ∈ s.calls → getKey r.call = some key → gotten r.call r.ret = some v →
    Known s key v

omit [DecidableEq Tid] in
lemma traced_init (y : Y) : Traced (Sys.init (State.empty, y) : CacheSys Tid V Y XRes Out) where
  stamped := stamped_init _
  signed h := by cases h
  origin h := by cases h
  tables := by
    rintro t key v ⟨i, e, he, -⟩
    cases he
  gets h := by cases h
  got h := by cases h

section Steps

variable {cfg : CacheConfig V} {C : Client Tid V E Y XRes Out}
  {s s' : CacheSys Tid V Y XRes Out} {e : Event Tid (ℕ × E) Job}

omit [DecidableEq Tid] in
lemma Traced.publish (h : Traced s) {t : Tid} {c : CacheCall V ⊕ X} {b : ℕ} {l : Loc} {y : Entry V}
    {k : Unit → Code V XRes (Option (CallRet XRes c))}
    (ht : s.active t = some ⟨c, b, .call (.inl (.publish l y)) k⟩) :
    y.value.id = b ∧ ∃ ttl, c = .inl (.put y.key y.value.value ttl y.tableTag) := (h.signed ht).1

variable {key : Bytes}

lemma Known.step (h : Known s key v) (hc : Change (machine cfg C) s e s') : Known s' key v := by
  obtain ⟨key', ttl, tag, hbeg, hkey⟩ := h
  exact ⟨key', ttl, tag, hbeg.step hc, hkey⟩

section

variable (h : Traced s) (hc : Change (machine cfg C) s e s')
include h hc

lemma Traced.origin_step {l : Loc} {x : Entry V} (hx : (s'.shared.1.slots l).entry = some x) :
    ∃ ttl, Began s' x.value.id (.inl (.put x.key x.value.value ttl x.tableTag)) := by
  have hold : (s.shared.1.slots l).entry = some x →
      ∃ ttl, Began s' x.value.id (.inl (.put x.key x.value.value ttl x.tableTag)) := by
    intro hx
    obtain ⟨ttl, hbeg⟩ := h.origin hx
    exact ⟨ttl, hbeg.step hc⟩
  cases hc with
  | quiet hshared | enter _ _ _ _ _ hshared | leave _ _ _ _ _ hshared => exact hold (hshared ▸ hx)
  | act t _ _ _ _ _ _ _ hbef hexec haft =>
    rcases (acts_of_execBoth hexec).entry hx with hx | rfl
    · exact hold hx
    · obtain ⟨hid, ttl, rfl⟩ := h.publish hbef
      exact ⟨ttl, .inl ⟨t, _, haft, hid.symm, rfl⟩⟩

lemma Traced.tables_step {t : Tid} (hv : (s'.shared.1.l1 t).Holds key v) : Known s' key v := by
  cases id hc with
  | quiet hshared => exact (h.tables (hshared ▸ hv)).step hc
  | enter _ _ _ _ _ hshared | leave _ _ _ _ _ hshared =>
    exact (h.tables (hshared ▸ hv)).step hc
  | act u _ _ _ _ _ _ _ hbef hexec =>
    have hacts := acts_of_execBoth hexec
    by_cases ht : t = u
    · subst ht
      rcases hacts.holds hv with hv | ⟨key', expires, hop, rfl⟩
      · exact (h.tables hv).step hc
      · -- The table keeps the beginning of the key.
        obtain ⟨key'', ttl, tag, hbeg, hkey⟩ := (h.gets hbef).demand key' v expires hop
        exact ⟨key'', ttl, tag, hbeg.step hc, by rw [hkey, List.take_take, Nat.min_self]⟩
    · rw [hacts.l1_of_ne ht] at hv
      exact (h.tables hv).step hc

omit h hc in
lemma Acts.yields {t : Tid} {op : CacheOp V ⊕ X} {σ σ' : State Tid V} {r : OpRes XRes op}
    (h : Acts cfg t op σ r σ') (hkey : soughtKey op = some key)
    (hv : yields op r = some v) : (σ.l1 t).Holds key v ∨
      ∃ l x, (σ.slots l).entry = some x ∧ x.key = key ∧ x.value = v := by
  cases op with
  | inr => cases hv
  | inl op =>
    obtain ⟨clock, hexec⟩ := h
    cases op with
    | l1Find key' =>
      cases hkey
      cases hexec
      exact .inl (L1.holds_of_findRaw hv)
    | readSlot l =>
      cases hkey
      simp only [exec] at hexec
      split_ifs at hexec
      split at hexec
      · cases hexec
        cases hv
      · rename_i x hx
        cases hexec
        cases hv
        obtain ⟨hx, hkey⟩ := Option.filter_eq_some_iff.1 hx
        exact .inr ⟨l, x, hx, by simpa using hkey, rfl⟩
    | _ => cases hv

lemma Traced.step (htime : s'.time = s.time + 1) : Traced s' where
  stamped := h.stamped.step hc htime
  signed := by
    refine hc.active_forall (fun c b fuel => ?_) (fun hk => ?_) h.signed
    · exact signed_callBody cfg fuel c
    · exact hk.2 _
  origin := h.origin_step hc
  tables := h.tables_step hc
  gets := by
    intro t a ha
    have hmono : ∀ key v, Known s key v → Known s' key v := fun key v hv => hv.step hc
    refine hc.under_step (ρ := loreRely) (Q := fun _ => True) (P := fun c _ => Told c)
      (x := Known s)
      (y := Known s') (fun c fuel _ _ => under_lore cfg _ fuel c _) (fun _ => hmono)
      (fun _ _ _ _ _ => hmono) (fun _ _ hexec => ⟨hmono, fun key v hkey hv => ?_⟩)
      (fun hb _ => h.gets hb) ha trivial
    rcases (acts_of_execBoth hexec).yields hkey hv with hv | ⟨l, x, hx, rfl, rfl⟩
    · exact (h.tables hv).step hc
    · obtain ⟨ttl, hbeg⟩ := h.origin hx
      exact ⟨x.key, ttl, x.tableTag, hbeg.step hc, rfl⟩
  got := by
    intro r key v hr hkey hv
    rcases hc.record_cases hr with hr | ⟨⟨a, ha, -, -⟩, hend, hnone⟩
    · exact (h.got hr hkey hv).step hc
    · obtain ⟨job, c, b, x, rfl, -, hcalls⟩ := hc.left ha hnone
      rcases List.mem_cons.1 (hcalls ▸ hr) with heq | hr
      · have htold : Told c (some x) (Known s) := (h.gets ha).done
        rw [heq] at hkey hv
        exact (htold key x v hkey rfl hv).step hc
      · exact (h.got hr hkey hv).step hc

end

lemma traced_of_run {y : Y} {es : List (Event Tid (ℕ × E) Job)}
    (hrun : run (machine cfg C) (Sys.init (State.empty, y)) es = some s) : Traced s :=
  run_induction (fun h _ hstep => h.step hstep.change hstep.time) (traced_init y)
    (meets_true _ es) hrun

end Steps

end SpidoNG.Cache
