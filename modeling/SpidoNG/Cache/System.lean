import SpidoNG.Cache.QueryCache
import SpidoNG.Lib.Threads
import SpidoNG.Lib.Interference

/-!
# Threads that use the cache

Any number of threads call the functions of the cache, in programs of their own that also do other
things.
-/

namespace SpidoNG.Cache

open Bytes Threads Option Function State

variable {Tid V E X Y Job : Type} {XRes : X → Type} {Out : Job → Type} [DecidableEq Tid]

@[reducible] def CallRet (XRes : X → Type) : CacheCall V ⊕ X → Type
  | .inl c => c.Ret
  | .inr x => XRes x

/-- What threads do besides calling the cache. -/
structure Client (Tid V E Y : Type) {X Job : Type} (XRes : X → Type) (Out : Job → Type) where
  exec : ℕ → E → Tid → (x : X) → Y → Option (XRes x × Y)
  script : ℕ → (j : Job) → Prog (CacheCall V ⊕ X) (CallRet XRes) (Option (Out j))
  runsOn : Tid → Job → Bool

def callBody (cfg : CacheConfig V) (serial fuel : ℕ) :
    (c : CacheCall V ⊕ X) → Code V XRes (Option (CallRet XRes c))
  | .inl c => c.body cfg serial fuel
  | .inr x => some <$> (Prog.perform (Sum.inr x) : Code V XRes (XRes x))

def execBoth (cfg : CacheConfig V) (C : Client Tid V E Y XRes Out) (time : ℕ) (env : ℕ × E)
    (t : Tid) : (op : CacheOp V ⊕ X) → State Tid V × Y → Option (OpRes XRes op × State Tid V × Y)
  | .inl op, s => (exec cfg env.1 t op s.1).map fun x => (x.1, x.2, s.2)
  | .inr x, s => (C.exec time env.2 t x s.2).map fun y => (y.1, s.1, y.2)

def machine (cfg : CacheConfig V) (C : Client Tid V E Y XRes Out) :
    Machine Tid (State Tid V × Y) (ℕ × E) (OpRes (V := V) XRes) (CallRet (V := V) XRes) Out where
  exec := execBoth cfg C
  body := callBody cfg
  script := C.script
  runsOn := C.runsOn

abbrev CacheSys (Tid V Y : Type) {X Job : Type} (XRes : X → Type) (Out : Job → Type) :=
  Sys Tid (State Tid V × Y) (OpRes (V := V) XRes) (CallRet (V := V) XRes) Out

abbrev CacheRecord (Tid V : Type) {X : Type} (XRes : X → Type) :=
  CallRecord Tid (CallRet (V := V) XRes)

def Client.calls (Tid V : Type) :
    Client Tid V Unit Unit (fun x : Empty => x.elim) (CacheCall.Ret (V := V)) where
  exec _ _ _ x _ := x.elim
  script _ c := .call (.inl c) fun r => .pure (some r)
  runsOn _ _ := true

def Acts (cfg : CacheConfig V) (t : Tid) :
    (op : CacheOp V ⊕ X) → State Tid V → OpRes XRes op → State Tid V → Prop
  | .inl op, σ, r, σ' => ∃ clock, exec cfg clock t op σ = some (r, σ')
  | .inr _, σ, _, σ' => σ' = σ

lemma acts_of_execBoth {cfg : CacheConfig V} {C : Client Tid V E Y XRes Out} {time : ℕ}
    {env : ℕ × E} {t : Tid} {op : CacheOp V ⊕ X} {s s' : State Tid V × Y} {r : OpRes XRes op}
    (h : execBoth cfg C time env t op s = some (r, s')) : Acts cfg t op s.1 r s'.1 := by
  cases op with
  | inl =>
    obtain ⟨⟨r', σ⟩, hexec, heq⟩ := map_eq_some_iff.1 h
    cases heq
    exact ⟨env.1, hexec⟩
  | inr =>
    obtain ⟨y, -, heq⟩ := map_eq_some_iff.1 h
    cases heq
    rfl

variable {e : Entry V} {tag key : Bytes}

section Effects

variable {cfg : CacheConfig V} {clock : ℕ} {t : Tid} {op : CacheOp V} {σ σ' : State Tid V}
  {r : op.Res}

section

omit [DecidableEq Tid]

lemma entry_vacate {l l' : Loc} {owner : Option Tid}
    (h : ((σ.vacate l owner).slots l').entry = some e) : (σ.slots l').entry = some e ∧ l' ≠ l := by
  by_cases hl : l' = l
  · subst hl
    simp [vacate] at h
  · simpa [vacate, hl] using h

lemma entry_touch (l l' : Loc) : ((σ.touch l).slots l').entry = (σ.slots l').entry := by
  by_cases hl : l' = l
  · subst hl
    simp [touch]
  · simp [touch, hl]

lemma entry_setOwner (l l' : Loc) (owner : Option Tid) :
    ((σ.setOwner l owner).slots l').entry = (σ.slots l').entry := by
  by_cases hl : l' = l
  · subst hl
    simp [setOwner]
  · simp [setOwner, hl]

lemma entry_fill {l l' : Loc} {e' : Entry V} (h : ((σ.fill l e).slots l').entry = some e') :
    (σ.slots l').entry = some e' ∧ l' ≠ l ∨ l' = l ∧ e' = e := by
  by_cases hl : l' = l
  · subst hl
    simp only [fill, update_self, some.injEq] at h
    exact .inr ⟨rfl, h.symm⟩
  · left
    simpa [fill, hl] using h

end

variable (h : exec cfg clock t op σ = some (r, σ'))
include h

lemma exec_entry {l : Loc}
    (he : (σ'.slots l).entry = some e) : (σ.slots l).entry = some e ∨ op = .publish l e := by
  cases op with
  | readSlot =>
    simp only [exec] at h
    split_ifs at h
    split at h
    · cases h
      exact .inl he
    · cases h
      rw [entry_touch] at he
      exact .inl he
  | claim | evict =>
    simp only [exec] at h
    split_ifs at h
    cases h
    exact .inl (entry_vacate he).1
  | publish =>
    cases h
    rcases entry_fill he with ⟨he, -⟩ | ⟨rfl, rfl⟩
    · exact .inl he
    · exact .inr rfl
  | eraseKey =>
    simp only [exec] at h
    split_ifs at h
    · cases h
      exact .inl (entry_vacate he).1
    · cases h
      exact .inl he
  | sweepLock =>
    simp only [exec] at h
    split at h
    · split_ifs at h
      · cases h
        exact .inl he
      · cases h
        rw [entry_setOwner] at he
        exact .inl he
    · cases h
      exact .inl he
  | sweepErase =>
    cases h
    exact .inl (entry_vacate he).1
  | confirm | pinned =>
    simp only [exec] at h
    split_ifs at h
    cases h
    exact .inl he
  | _ =>
    cases h
    exact .inl he

lemma exec_rest :
    (σ'.tags = σ.tags ∧ σ'.l1 = σ.l1) ∨ (∃ tag key, op = .addTag tag key) ∨
      (∃ tag, op = .popTag tag) ∨
      op = .l1Init ∨ (∃ key, op = .l1Find key) ∨ (∃ key v expires, op = .l1Put key v expires) ∨
        op = .l1Clear := by
  cases op with
  | l1Init | l1Find key | l1Put key v expires | l1Clear | addTag | popTag => simp
  | readSlot =>
    simp only [exec] at h
    split_ifs at h
    split at h
    · cases h
      exact .inl ⟨rfl, rfl⟩
    · cases h
      exact .inl ⟨rfl, rfl⟩
  | eraseKey =>
    simp only [exec] at h
    split_ifs at h
    · cases h
      exact .inl ⟨rfl, rfl⟩
    · cases h
      exact .inl ⟨rfl, rfl⟩
  | sweepLock =>
    simp only [exec] at h
    split at h
    · split_ifs at h
      · cases h
        exact .inl ⟨rfl, rfl⟩
      · cases h
        exact .inl ⟨rfl, rfl⟩
    · cases h
      exact .inl ⟨rfl, rfl⟩
  | claim | evict | confirm | pinned =>
    simp only [exec] at h
    split_ifs at h
    cases h
    exact .inl ⟨rfl, rfl⟩
  | _ =>
    cases h
    exact .inl ⟨rfl, rfl⟩

lemma exec_tags (hk : key ∈ σ.tags tag) : key ∈ σ'.tags tag ∨ op = .popTag tag := by
  rcases exec_rest h with ⟨htags, -⟩ | ⟨tag', key', rfl⟩ | ⟨tag', rfl⟩ | rfl | ⟨key', rfl⟩ |
    ⟨key', v, expires, rfl⟩ | rfl
  · left
    rwa [htags]
  · cases h
    left
    by_cases htag : tag = tag'
    · subst htag
      simp [hk]
    · simpa [htag] using hk
  · cases h
    by_cases htag : tag = tag'
    · exact .inr (by rw [htag])
    · left
      simpa [htag] using hk
  all_goals
    cases h
    exact .inl hk

lemma exec_l1_of_ne {u : Tid} (hu : u ≠ t) : σ'.l1 u = σ.l1 u := by
  rcases exec_rest h with ⟨-, hl1⟩ | ⟨tag', key', rfl⟩ | ⟨tag', rfl⟩ | rfl | ⟨key', rfl⟩ |
    ⟨key', v, expires, rfl⟩ | rfl
  · rw [hl1]
  all_goals
    cases h
    simp [setL1, hu]

lemma exec_holds {v : ValuePtr V} (hv : (σ'.l1 t).Holds key v) : (σ.l1 t).Holds key v ∨
      ∃ key' expires, op = .l1Put key' v expires ∧ key = key'.take L1.kKeyMax := by
  rcases exec_rest h with ⟨-, hl1⟩ | ⟨tag', key', rfl⟩ | ⟨tag', rfl⟩ | rfl | ⟨key', rfl⟩ |
    ⟨key', v', expires, rfl⟩ | rfl
  · left
    rwa [← hl1]
  · cases h
    exact .inl hv
  · cases h
    exact .inl hv
  · cases h
    simp only [setL1, update_self] at hv
    exact .inl (L1.holds_init hv)
  · cases h
    simp only [setL1, update_self] at hv
    exact .inl (L1.holds_findRaw hv)
  · cases h
    simp only [setL1, update_self] at hv
    rcases L1.holds_put hv with hv | ⟨hkey, rfl⟩
    · exact .inl hv
    · exact .inr ⟨key', expires, rfl, hkey⟩
  · cases h
    simp only [setL1, update_self] at hv
    exact absurd hv (L1.not_holds_clear _ _ _)

end Effects

section Acts

variable {cfg : CacheConfig V} {t : Tid} {op : CacheOp V ⊕ X} {σ σ' : State Tid V}
  {r : OpRes XRes op} (h : Acts cfg t op σ r σ')
include h

lemma Acts.entry {l : Loc}
    (he : (σ'.slots l).entry = some e) : (σ.slots l).entry = some e ∨ op = .inl (.publish l e) := by
  cases op with
  | inl =>
    obtain ⟨clock, h⟩ := h
    rcases exec_entry h he with he | rfl
    · exact .inl he
    · exact .inr rfl
  | inr =>
    cases h
    exact .inl he

lemma Acts.tags (hk : key ∈ σ.tags tag) : key ∈ σ'.tags tag ∨ op = .inl (.popTag tag) := by
  cases op with
  | inl =>
    obtain ⟨clock, h⟩ := h
    rcases exec_tags h hk with hk | rfl
    · exact .inl hk
    · exact .inr rfl
  | inr =>
    cases h
    exact .inl hk

lemma Acts.l1_of_ne {u : Tid} (hu : u ≠ t) : σ'.l1 u = σ.l1 u := by
  cases op with
  | inl =>
    obtain ⟨clock, h⟩ := h
    exact exec_l1_of_ne h hu
  | inr =>
    cases h
    rfl

lemma Acts.holds {v : ValuePtr V} (hv : (σ'.l1 t).Holds key v) : (σ.l1 t).Holds key v ∨
      ∃ key' expires, op = .inl (.l1Put key' v expires) ∧ key = key'.take L1.kKeyMax := by
  cases op with
  | inl =>
    obtain ⟨clock, h⟩ := h
    rcases exec_holds h hv with hv | ⟨key', expires, rfl, hkey⟩
    · exact .inl hv
    · exact .inr ⟨key', expires, rfl, hkey⟩
  | inr =>
    cases h
    exact .inl hv

lemma Acts.has {n : ℕ} (hn : (σ'.l1 t).Has n) :
    (σ.l1 t).Has n ∨ ∃ key v expires, op = .inl (.l1Put key v expires) ∧ v.id = n := by
  obtain ⟨key, v, hv, hid⟩ := hn
  rcases h.holds hv with hv | ⟨key', expires, hop, -⟩
  · exact .inl ⟨key, v, hv, hid⟩
  · exact .inr ⟨key', v, expires, hop, hid⟩

end Acts

/-- An operation of the cache that adds nothing to it. -/
def Passive : CacheOp V ⊕ X → Prop
  | .inl (.publish _ _) => False
  | .inl (.l1Put _ _ _) => False
  | .inl (.addTag _ _) => False
  | .inl (.popTag _) => False
  | .inl _ => True
  | .inr _ => False

def Plain : CacheOp V ⊕ X → Prop
  | .inl .now => True
  | .inl .l1Init => True
  | .inl (.loadHash _) => True
  | .inl (.loadLastUsed _) => True
  | .inl (.confirm _ _) => True
  | .inl (.pinned _ _) => True
  | .inl (.eraseKey _ _) => True
  | .inl (.evict _) => True
  | .inl (.shardBytes _) => True
  | _ => False

lemma Plain.passive (op : CacheOp V ⊕ X) (h : Plain op) : Passive op := by
  cases op with
  | inr => exact h
  | inl op => cases op <;> trivial

section Passive

variable {α : Type} {P : CacheOp V ⊕ X → Prop}

lemma always_atomic {op : CacheOp V} {f : op.Res → Code V XRes α} (h : P (.inl op))
    (hf : ∀ r, (f r).Always P) : (atomic op >>= f).Always P := Prog.Always.perform_bind h hf

lemma plain_hasKey (key : Bytes) (l : Loc) (h : UInt64) :
    (hasKey key l h : Code V XRes Bool).Always Plain := by
  by_cases hk : h = keyHash key
  · rw [hasKey, if_pos hk]
    exact ⟨trivial, fun _ => trivial⟩
  · rw [hasKey, if_neg hk]
    trivial

lemma plain_scan (key : Bytes) (ls : List Loc) (emptySlot lruVictim : Option Loc) (lruSeen : ℕ) :
    (scan key ls emptySlot lruVictim lruSeen : Code V XRes Scan).Always Plain := by
  induction ls generalizing emptySlot lruVictim lruSeen with
  | nil => trivial
  | cons l _ ih =>
    refine always_atomic trivial fun h => ?_
    split_ifs
    · exact ih _ _ _
    · refine (plain_hasKey key l h).bind fun found => ?_
      split_ifs
      · trivial
      · refine always_atomic trivial fun lu => ?_
        split_ifs
        · exact ih _ _ _
        · exact ih _ _ _

lemma plain_unpinned (victim : Loc) (ls : List Loc) :
    (unpinned victim ls : Code V XRes Loc).Always Plain := by
  induction ls with
  | nil => trivial
  | cons _ _ ih =>
    refine always_atomic trivial fun dirty => ?_
    split_ifs
    · exact ih
    · trivial

lemma plain_chooseTarget (key : Bytes) (found : Scan) :
    (chooseTarget key found : Code V XRes (Option Loc)).Always Plain := by
  unfold chooseTarget
  split
  · trivial
  · split
    · trivial
    · refine always_atomic trivial fun dirty => ?_
      split_ifs
      · exact (plain_unpinned _ _).bind fun l => trivial
      · trivial

lemma plain_oldestSlot (ls : List Loc) (victim : Option Loc) (oldest : ℕ) :
    (oldestSlot ls victim oldest : Code V XRes (Option Loc)).Always Plain := by
  induction ls generalizing victim oldest with
  | nil => trivial
  | cons _ _ ih =>
    refine always_atomic trivial fun h => ?_
    split_ifs
    · exact ih _ _
    · refine always_atomic trivial fun dirty => ?_
      split_ifs
      · exact ih _ _
      · refine always_atomic trivial fun lu => ?_
        split_ifs
        · exact ih _ _
        · exact ih _ _

lemma plain_enforceQuota (shard quota fuel : ℕ) :
    (enforceQuota shard quota fuel : Code V XRes Bool).Always Plain := by
  induction fuel with
  | zero => trivial
  | succ _ ih =>
    refine always_atomic trivial fun bytes => ?_
    split_ifs
    · trivial
    · refine (plain_oldestSlot (shardSlots shard) none uint64Max).bind fun victim => ?_
      cases victim with
      | none => trivial
      | some => exact always_atomic trivial fun _ => ih

lemma plain_eraseFrom (key : Bytes) (ls : List Loc) :
    (eraseFrom key ls : Code V XRes Unit).Always Plain := by
  induction ls with
  | nil => trivial
  | cons _ _ ih =>
    refine always_atomic trivial fun h => ?_
    split_ifs
    · exact ih
    · refine always_atomic trivial fun erased => ?_
      split_ifs
      · trivial
      · exact ih

lemma plain_eraseKeys (keys : List Bytes) : (eraseKeys keys : Code V XRes Unit).Always Plain := by
  induction keys with
  | nil => trivial
  | cons key _ ih => exact (plain_eraseFrom key (probes key)).bind fun _ => ih

lemma passive_sweepSlots (now : ℕ) (ls : List Loc) :
    (sweepSlots now ls : Code V XRes Unit).Always Passive := by
  induction ls with
  | nil => trivial
  | cons _ _ ih =>
    refine always_atomic trivial fun h => ?_
    split_ifs
    · exact ih
    · refine always_atomic trivial fun expired => ?_
      split_ifs
      · exact always_atomic trivial fun _ => ih
      · exact ih

end Passive

/-- What an operation tells of the call that it is part of. -/
def Signed (c : CacheCall V ⊕ X) (serial : ℕ) : CacheOp V ⊕ X → Prop
  | .inl (.publish _ e) =>
    e.value.id = serial ∧ ∃ ttl, c = .inl (.put e.key e.value.value ttl e.tableTag)
  | .inl (.l1Put key _ _) => c = .inl (.get key)
  | .inl (.popTag tag) => c = .inl (.invalidateTable tag)
  | .inl _ => True
  | .inr x => c = .inr x

section Signed

variable {c : CacheCall V ⊕ X} {serial : ℕ}

lemma signed_of_passive (op : CacheOp V ⊕ X) (h : Passive op) : Signed c serial op := by
  cases op with
  | inr => exact h.elim
  | inl op => cases op <;> trivial

lemma signed_of_plain (op : CacheOp V ⊕ X) (h : Plain op) : Signed c serial op :=
  signed_of_passive op (Plain.passive op h)

lemma signed_getL2 (key : Bytes) (ls : List Loc) :
    (getL2 key ls : Code V XRes (Option (ValuePtr V))).Always
      (Signed (.inl (.get key) : CacheCall V ⊕ X) serial) := by
  induction ls with
  | nil => trivial
  | cons _ _ ih =>
    refine always_atomic trivial fun h => ?_
    split_ifs
    · trivial
    · exact ih
    · refine always_atomic trivial fun r => ?_
      cases r with
      | none => exact ih
      | some => exact always_atomic rfl fun _ => trivial

lemma signed_writeSlot (l : Loc) (hid : e.value.id = serial)
    (hput : ∃ ttl, c = .inl (.put e.key e.value.value ttl e.tableTag)) :
    (writeSlot l e : Code V XRes Unit).Always (Signed c serial) := by
  refine always_atomic trivial fun _ => always_atomic ⟨hid, hput⟩ fun _ => ?_
  split_ifs
  · exact ⟨trivial, fun _ => trivial⟩
  · trivial

lemma signed_put (cfg : CacheConfig V) (fuel : ℕ) (key : Bytes) (value : V) (ttl : ℕ)
    (tableTag : Bytes) : (put cfg serial fuel key value ttl tableTag :
      Code V XRes (Option (ValuePtr V))).Always
        (Signed (.inl (.put key value ttl tableTag) : CacheCall V ⊕ X) serial) := by
  refine always_atomic trivial fun now => ?_
  refine ((plain_scan _ _ _ _ _).mono signed_of_plain).bind fun found => ?_
  refine ((plain_chooseTarget _ _).mono signed_of_plain).bind fun target => ?_
  cases target with
  | none => trivial
  | some l =>
    refine (signed_writeSlot l rfl ⟨ttl, rfl⟩).bind fun _ => ?_
    refine ((plain_enforceQuota _ _ _).mono signed_of_plain).bind fun within => ?_
    split_ifs
    · exact always_atomic trivial fun _ => trivial
    · trivial

lemma signed_callBody (cfg : CacheConfig V) (fuel : ℕ) (c : CacheCall V ⊕ X) :
    (callBody cfg serial fuel c : Code V XRes _).Always (Signed c serial) := by
  cases c with
  | inr => exact ⟨rfl, fun _ => trivial⟩
  | inl c =>
    cases c with
    | get key =>
      refine Prog.Always.bind ?_ fun _ => trivial
      refine always_atomic trivial fun _ => always_atomic trivial fun hit => ?_
      cases hit with
      | some => trivial
      | none => exact signed_getL2 key (probes key)
    | put key value ttl tableTag => exact signed_put cfg fuel key value ttl tableTag
    | invalidateTable =>
      refine Prog.Always.bind ?_ fun _ => trivial
      refine always_atomic rfl fun keys => ?_
      exact ((plain_eraseKeys keys).mono signed_of_plain).bind fun _ => ⟨trivial, fun _ => trivial⟩
    | sweep =>
      refine Prog.Always.bind ?_ fun _ => trivial
      exact always_atomic trivial fun now => (passive_sweepSlots now _).mono signed_of_passive
    | resetThreadL1 | markDirty | markClean | isDirty => exact ⟨trivial, fun _ => trivial⟩

end Signed

end SpidoNG.Cache
