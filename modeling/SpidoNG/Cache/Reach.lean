import SpidoNG.Cache.Invalidation

/-!
# What an invalidation reaches, over whole runs

`Follows` is what holds of one value along a calm run, from the `put` to the invalidations behind
it.
-/

namespace SpidoNG.Cache

open Bytes Threads

variable {Tid V E X Y Job : Type} {XRes : X → Type} {Out : Job → Type} [DecidableEq Tid]

structure Target (V : Type) where
  serial : ℕ
  key : Bytes
  tag : Bytes
  value : V
  ttl : ℕ
  tagged : tag ≠ []

def Target.call (x : Target V) : CacheCall V ⊕ X := .inl (.put x.key x.value x.ttl x.tag)

def Target.drop (x : Target V) : CacheCall V ⊕ X := .inl (.invalidateTable x.tag)

section Steps

variable {cfg : CacheConfig V} {C : Client Tid V E Y XRes Out} {x : Target V}
  {s s' : CacheSys Tid V Y XRes Out} {e : Event Tid (ℕ × E) Job} {n : ℕ}

def Only (x : Target V) (s : CacheSys Tid V Y XRes Out) : Prop :=
  ∀ c, Began s x.serial c → c = x.call

lemma Sound.tracked (h : Sound cfg x.key x.tag s) (honly : Only x s) :
    Tracked x.serial x.key s.shared.1 where
  placed := h.placed
  under_key := by
    rintro l ⟨y, hy, hid⟩
    obtain ⟨ttl, hbeg⟩ := h.traced.origin hy
    rw [hid] at hbeg
    have hcall := honly _ hbeg
    simp only [Target.call, Sum.inl.injEq, CacheCall.put.injEq] at hcall
    exact ⟨y, hy, hcall.1⟩

variable {op : CacheOp V ⊕ X} {σ σ' : State Tid V}

lemma Sound.at_of_acts (h : Sound cfg x.key x.tag s) {u : Tid} {c : CacheCall V ⊕ X} {b : ℕ}
    {k : OpRes XRes op → Code V XRes (Option (CallRet XRes c))}
    {r : OpRes XRes op} (hu : s.active u = some ⟨c, b, .call op k⟩)
    (hacts : Acts cfg u op s.shared.1 r σ) (hb : b ≠ n) {l : Loc} (hl : At σ n l) :
    At s.shared.1 n l := by
  obtain ⟨y, hy, hid⟩ := hl
  rcases hacts.entry hy with hy | rfl
  · exact ⟨y, hy, hid⟩
  · exact absurd ((h.traced.publish hu).1.symm.trans hid) hb

def Steady (n : ℕ) (s s' : CacheSys Tid V Y XRes Out) : Prop :=
  ∀ l, At s'.shared.1 n l → At s.shared.1 n l

def PopState (a : Active (OpRes (V := V) XRes) (CallRet (V := V) XRes)) : Prop :=
  ∀ tag b rest, a = ⟨.inl (.invalidateTable tag), b, rest⟩ →
    rest = .call (.inl (.popTag tag)) afterPop ∨ rest.Always Passive

variable {t : Tid}

def Covered (cfg : CacheConfig V) (x : Target V) (s : CacheSys Tid V Y XRes Out) (u : Tid) : Prop :=
  ∃ b rest, s.active u = some ⟨.inl (.invalidateTable x.tag), b, rest⟩ ∧
    ∃ h : Tracked x.serial x.key s.shared.1,
      rest.Under (coverRely cfg u x.serial x.key) (fun _ σ => ¬ Held σ.1 x.serial) ⟨s.shared.1, h⟩

def Registered (cfg : CacheConfig V) (x : Target V) (s : CacheSys Tid V Y XRes Out) : Prop :=
  Held s.shared.1 x.serial → x.key ∈ s.shared.1.tags x.tag ∨ ∃ u, Covered cfg x s u

lemma acts_popTag {tag : Bytes} {keys : List Bytes}
    (h : ∃ clock, exec cfg clock t (.popTag tag) σ = some (keys, σ')) : keys = σ.tags tag := by
  obtain ⟨clock, hexec⟩ := h
  cases hexec
  rfl

lemma acts_addTag {tag key : Bytes} {r : Unit}
    (h : ∃ clock, exec cfg clock t (.addTag tag key) σ = some (r, σ')) : key ∈ σ'.tags tag := by
  obtain ⟨clock, hexec⟩ := h
  cases hexec
  simp

structure Away (n : ℕ) (s : CacheSys Tid V Y XRes Out) (t : Tid) : Prop where
  gone : ¬ Held s.shared.1 n
  l1 : ¬ (s.shared.1.l1 t).Has n
  safe : ∀ {a}, s.active t = some a → a.rest.Under (safeRely n) (fun r _ => Apart n a.call r) ()

structure Cut (x : Target V) (p : CacheRecord Tid V XRes) (s : CacheSys Tid V Y XRes Out)
    (c : CacheRecord Tid V XRes) : Prop where
  mem : c ∈ s.calls
  clears : clears c.call = true
  dropped : ∃ i ∈ s.calls, i.call = x.drop ∧ p.ended < i.began ∧ (c = i ∨ i.ended ≤ c.began)

structure Settled (cfg : CacheConfig V) (x : Target V) (p : CacheRecord Tid V XRes)
    (s : CacheSys Tid V Y XRes Out) : Prop where
  registered : Registered cfg x s
  pending : ∀ {u b rest}, s.active u = some ⟨.inl (.invalidateTable x.tag), b, rest⟩ → p.ended < b →
    rest = .call (.inl (.popTag x.tag)) afterPop ∨ Covered cfg x s u
  gone : ∀ {i}, i ∈ s.calls → i.call = x.drop → p.ended < i.began → ¬ Held s.shared.1 x.serial
  away : ∀ {c}, Cut x p s c → Away x.serial s c.thread
  silent : ∀ {c g}, Cut x p s c → g ∈ s.calls → g.thread = c.thread → c.ended ≤ g.began →
    ∀ v, gotten g.call g.ret = some v → v.id ≠ x.serial

def Clearing (cfg : CacheConfig V) (n : ℕ) (s : CacheSys Tid V Y XRes Out) : Prop :=
  ∀ t a, s.active t = some a → clears a.call = true →
    a.rest.Under (clearRely cfg t) (fun _ σ => ¬ (σ.l1 t).Has n) s.shared.1

variable {p c : CacheRecord Tid V XRes}

lemma settled_of_registered (hstamped : Stamped s) (hp : s.time = p.ended + 1)
    (hreg : Registered cfg x s) : Settled cfg x p s := by
  -- No call that threads are in or have returned from began later.
  have hlate : ∀ {i : CacheRecord Tid V XRes}, i ∈ s.calls → ¬ p.ended < i.began := by
    intro i hi hlt
    have := hstamped.record_lt hi
    omega
  refine ⟨hreg, fun hu hb => ?_, fun hi _ hlt => absurd hlt (hlate hi), fun hcut => ?_,
    fun hcut => ?_⟩
  · have := hstamped.active_lt hu
    dsimp only at this
    omega
  · obtain ⟨i, hi, -, hlt, -⟩ := hcut.dropped
    exact absurd hlt (hlate hi)
  · obtain ⟨i, hi, -, hlt, -⟩ := hcut.dropped
    exact absurd hlt (hlate hi)

def Progress (cfg : CacheConfig V) (x : Target V) (s : CacheSys Tid V Y XRes Out) {α : Type}
    (rest : Code V XRes α) : Prop :=
  ∃ q, rest.Under (phaseRely x.tag x.key) (fun _ q => q ≠ .tagging) q ∧
    (q = .fresh → ¬ Held s.shared.1 x.serial) ∧ (q = .settled → Registered cfg x s)

structure Follows (cfg : CacheConfig V) (x : Target V) (s : CacheSys Tid V Y XRes Out) : Prop where
  sound : Sound cfg x.key x.tag s
  pops : ∀ {t a}, s.active t = some a → PopState a
  clearing : Clearing cfg x.serial s
  running : ∀ {t c b rest}, s.active t = some ⟨c, b, rest⟩ → b = x.serial → Progress cfg x s rest
  settled : ∀ {p}, p ∈ s.calls → p.began = x.serial → Settled cfg x p s

lemma follows_init (x : Target V) (y : Y) :
    Follows cfg x (Sys.init (State.empty, y) : CacheSys Tid V Y XRes Out) where
  sound := sound_init y
  pops h := by cases h
  clearing _ _ h := by cases h
  running h := by cases h
  settled h := by cases h

section Change

variable (hc : Change (machine cfg C) s e s')
include hc

lemma Only.before (h : Only x s') : Only x s :=
  fun c hbeg => h c (hbeg.step hc)

lemma Sound.steady (h : Sound cfg x.key x.tag s) {p : CallRecord Tid (CallRet (V := V) XRes)}
    (hp : p ∈ s.calls) (hn : p.began = n) : Steady n s s' := by
  intro l hl
  cases hc with
  | quiet hshared | enter _ _ _ _ _ hshared | leave _ _ _ _ _ hshared => exact hshared ▸ hl
  | act _ _ _ _ _ _ _ _ hbef hexec =>
    refine h.at_of_acts hbef (acts_of_execBoth hexec) ?_ hl
    exact fun hb => h.traced.stamped.active_ne hbef hp (hn.trans hb.symm)

lemma popState_step (h : ∀ {t a}, s.active t = some a → PopState a)
    {a : Active (OpRes (V := V) XRes) (CallRet (V := V) XRes)} (ha : s'.active t = some a) :
    PopState a := by
  refine hc.active_forall (Q := PopState) (fun c b fuel => ?_) (fun {c b op k r} hk => ?_) h ha
  · intro tag b' rest heq
    cases heq
    exact .inl rfl
  · intro tag b' rest heq
    cases heq
    rcases hk tag b _ rfl with hk | hk
    · cases hk
      exact .inr (passive_afterPop r)
    · exact .inr (hk.2 r)

lemma Cut.cases (h : Cut x p s' c) (hstamped : Stamped s) : Cut x p s c ∨
      (∃ a, s.active c.thread = some a ∧ a.call = c.call ∧ a.began = c.began) ∧ c.ended = s.time ∧
        s'.active c.thread = none := by
  rcases hc.record_cases h.mem with hmem | hnew
  · left
    obtain ⟨i, hi, hdrop, hlt, haft⟩ := h.dropped
    refine ⟨hmem, h.clears, i, ?_, hdrop, hlt, haft⟩
    rcases hc.record_cases hi with hi | ⟨-, hend, -⟩
    · exact hi
    · rcases haft with rfl | haft
      · exact hmem
      · have := hstamped.record_lt hmem
        omega
  · exact .inr hnew

lemma Clearing.step (h : Clearing cfg n s) : Clearing cfg n s' := by
  intro t a ha hclear
  refine hc.under_step (ρ := clearRely cfg t) (Q := fun c => clears c)
    (P := fun _ _ _ σ => ¬ (σ.l1 t).Has n) (x := s.shared.1) (y := s'.shared.1)
    (fun c fuel hc _ => under_clear hc _ fuel n _) (fun hshared => ?_) ?_
    (fun _ _ hexec => acts_of_execBoth hexec) (fun hb => h t _ hb) ha hclear
  · show s'.shared.1.l1 t = s.shared.1.l1 t
    rw [hshared]
  · intro b u env c b' op k r _ _ hu _ hexec
    exact (acts_of_execBoth hexec).l1_of_ne (Ne.symm hu)

lemma Settled.silent_step (h : Settled cfg x p s) (hstamped : Stamped s)
    {g : CacheRecord Tid V XRes} (hcut : Cut x p s' c) (hg : g ∈ s'.calls)
    (hthread : g.thread = c.thread) (haft : c.ended ≤ g.began) :
    ∀ v, gotten g.call g.ret = some v → v.id ≠ x.serial := by
  rcases hcut.cases hc hstamped with hold | ⟨-, hend, -⟩
  · rcases hc.record_cases hg with hg' | ⟨⟨a, ha, -, -⟩, hend, hnone⟩
    · exact h.silent hold hg' hthread haft
    · obtain ⟨job, c', b, r, rfl, -, hcalls⟩ := hc.left ha hnone
      rcases List.mem_cons.1 (hcalls ▸ hg) with heq | hg'
      · -- The thread returns from a call in which it did not get the value.
        have hsafe : Apart x.serial c' (some r) := ((h.away hold).safe (hthread ▸ ha)).done
        rw [heq]
        exact fun v hv => hsafe r v rfl hv
      · have := hstamped.record_lt hg'
        omega
  · -- Nothing has begun after the call that has just returned.
    rcases hc.record_cases hg with hg' | ⟨⟨a, ha, -, hbeg⟩, -, -⟩
    · have := hstamped.record_lt hg'
      omega
    · have := hstamped.active_lt ha
      omega

section Steady

variable (hsteady : Steady x.serial s s')
include hsteady

lemma Away.step (h : Away x.serial s t) : Away x.serial s' t where
  gone := by
    rintro ⟨l, hl⟩
    exact h.gone ⟨l, hsteady l hl⟩
  l1 := by
    cases hc with
    | quiet hshared | enter _ _ _ _ _ hshared | leave _ _ _ _ _ hshared => exact hshared ▸ h.l1
    | act u _ _ _ _ _ _ _ hbef hexec =>
      have hacts := acts_of_execBoth hexec
      by_cases ht : t = u
      · subst ht
        intro hhas
        rcases hacts.has hhas with hhas | ⟨key, v, expires, hop, hv⟩
        · exact h.l1 hhas
        · exact (h.safe hbef).demand key v expires hop hv
      · rw [hacts.l1_of_ne ht]
        exact h.l1
  safe := by
    intro a ha
    refine hc.under_step (ρ := safeRely x.serial) (Q := fun _ => True)
      (P := fun c _ r _ => Apart x.serial c r) (x := ()) (y := ()) (fun c fuel _ _ =>
        under_safe cfg s.time fuel c) (fun _ => trivial)
      (fun _ _ _ _ _ => trivial) (fun _ _ hexec v hv hid => ?_) (fun hb _ => h.safe hb) ha trivial
    obtain ⟨key, hkey⟩ := soughtKey_of_yields hv
    rcases (acts_of_execBoth hexec).yields hkey hv with hholds | ⟨l, y, hy, -, rfl⟩
    · exact h.l1 ⟨key, v, hholds, hid⟩
    · exact h.gone ⟨l, y, hy, hid⟩

lemma Settled.gone_step (h : Settled cfg x p s) {i : CacheRecord Tid V XRes} (hi : i ∈ s'.calls)
    (hdrop : i.call = x.drop) (hlt : p.ended < i.began) : ¬ Held s'.shared.1 x.serial := by
  have hgone : ¬ Held s.shared.1 x.serial → ¬ Held s'.shared.1 x.serial := by
    rintro hgone ⟨l, hl⟩
    exact hgone ⟨l, hsteady l hl⟩
  cases hc with
  | quiet _ _ hcalls => exact hgone (h.gone (hcalls ▸ hi) hdrop hlt)
  | enter _ _ _ _ _ _ _ _ _ hcalls | act _ _ _ _ _ _ _ _ _ _ _ _ hcalls =>
    exact hgone (h.gone (hcalls ▸ hi) hdrop hlt)
  | leave _ _ _ _ _ _ hbef _ _ hcalls =>
    rcases List.mem_cons.1 (hcalls ▸ hi) with rfl | hi
    · -- The invalidation that has just returned has taken the value from its slot.
      dsimp only at hdrop
      subst hdrop
      rcases h.pending hbef hlt with hrest | ⟨b', rest, hu, htr, hcover⟩
      · cases hrest
      · cases hbef.symm.trans hu
        exact hgone hcover.done
    · exact hgone (h.gone hi hdrop hlt)

lemma Settled.away_step (h : Settled cfg x p s) (hstamped : Stamped s)
    (hclear : Clearing cfg x.serial s) (hcut : Cut x p s' c) : Away x.serial s' c.thread := by
  rcases hcut.cases hc hstamped with hold | ⟨⟨a, ha, hcall, -⟩, -, hnone⟩
  · exact (h.away hold).step hc hsteady
  · obtain ⟨i, hi, hdrop, hlt, -⟩ := hcut.dropped
    refine ⟨h.gone_step hc hsteady hi hdrop hlt, ?_, fun ha' => ?_⟩
    · obtain ⟨job, c', b, r, rfl, hshared, -⟩ := hc.left ha hnone
      rw [hshared]
      exact (hclear _ _ ha (hcall ▸ hcut.clears)).done
    · cases hnone.symm.trans ha'

variable (htracked : Tracked x.serial x.key s'.shared.1)
include htracked

lemma Covered.step {u : Tid} (h : Covered cfg x s u) :
    Covered cfg x s' u ∨ s'.active u = none ∧ ¬ Held s.shared.1 x.serial := by
  obtain ⟨b, rest, hu, htr, hcover⟩ := h
  -- If the thread does not move, then only others have acted.
  have hsame : s'.active u = s.active u → Covered cfg x s' u :=
    fun heq => ⟨b, rest, heq.trans hu, htracked, hcover.later hsteady⟩
  cases hc with
  | quiet _ hact => exact .inl (hsame (hact u))
  | enter _ _ _ _ _ _ hbef _ hoth =>
    refine .inl (hsame (hoth u ?_))
    rintro rfl
    cases hbef.symm.trans hu
  | act t _ _ _ _ k r _ hbef hexec haft hoth =>
    by_cases ht : u = t
    · subst ht
      cases hbef.symm.trans hu
      exact .inl ⟨b, k r, haft, htracked, hcover.own (acts_of_execBoth hexec)⟩
    · exact .inl (hsame (hoth u ht))
  | leave t _ _ _ _ _ hbef haft hoth =>
    by_cases ht : u = t
    · subst ht
      cases hbef.symm.trans hu
      exact .inr ⟨haft, hcover.done⟩
    · exact .inl (hsame (hoth u ht))

lemma Registered.step (h : Sound cfg x.key x.tag s)
    (hpops : ∀ {t a}, s.active t = some a → PopState a)
    (hreg : Registered cfg x s) : Registered cfg x s' := by
  rintro ⟨l, hl⟩
  have hheld : Held s.shared.1 x.serial := ⟨l, hsteady l hl⟩
  rcases hreg hheld with hkey | ⟨u, hu⟩
  · cases hc with
    | quiet hshared | leave _ _ _ _ _ hshared => exact .inl (hshared ▸ hkey)
    | enter _ _ _ _ _ hshared =>
      exact .inl (hshared ▸ hkey)
    | act t _ c b _ _ r _ hbef hexec haft =>
      have hacts := acts_of_execBoth hexec
      rcases hacts.tags hkey with hkey' | rfl
      · exact .inl hkey'
      · -- The thread has just taken the keys of the tag.
        obtain rfl : c = .inl (.invalidateTable x.tag) := (h.traced.signed hbef).1
        rcases hpops hbef x.tag b _ rfl with hrest | hrest
        · cases hrest
          have hkeys : r = s.shared.1.tags x.tag := acts_popTag hacts
          exact .inr ⟨t, b, _, haft, htracked, under_afterPop fun _ => hkeys ▸ hkey⟩
        · exact hrest.1.elim
  · rcases hu.step hc hsteady htracked with hu | ⟨-, hgone⟩
    · exact .inr ⟨u, hu⟩
    · exact absurd hheld hgone

lemma Settled.pending_step (h : Settled cfg x p s) (hsound : Sound cfg x.key x.tag s)
    {u : Tid} {b : ℕ}
    {rest : Code V XRes (Option (CallRet (V := V) XRes (.inl (.invalidateTable x.tag))))}
    (hu : s'.active u = some ⟨.inl (.invalidateTable x.tag), b, rest⟩) (hb : p.ended < b) :
    rest = .call (.inl (.popTag x.tag)) afterPop ∨ Covered cfg x s' u := by
  have hcover : Covered cfg x s u → Covered cfg x s' u := by
    intro hcov
    rcases hcov.step hc hsteady htracked with hcov | ⟨hnone, -⟩
    · exact hcov
    · cases hnone.symm.trans hu
  have hsame : s'.active u = s.active u →
      rest = .call (.inl (.popTag x.tag)) afterPop ∨ Covered cfg x s' u :=
    fun heq => (h.pending (heq.symm.trans hu) hb).imp_right hcover
  cases hc with
  | quiet _ hact => exact hsame (hact u)
  | enter t _ _ _ _ _ _ haft hoth =>
    by_cases ht : u = t
    · subst ht
      cases haft.symm.trans hu
      exact .inl rfl
    · exact hsame (hoth u ht)
  | leave t _ _ _ _ _ _ haft hoth =>
    by_cases ht : u = t
    · subst ht
      cases haft.symm.trans hu
    · exact hsame (hoth u ht)
  | act t _ _ b' _ _ r _ hbef hexec haft hoth =>
    by_cases ht : u = t
    · subst ht
      cases haft.symm.trans hu
      have hacts := acts_of_execBoth hexec
      rcases h.pending hbef hb with hrest | hcov
      · -- The thread has just taken the keys of the tag.
        cases hrest
        by_cases hcov : Covered cfg x s u
        · exact .inr (hcover hcov)
        · refine .inr ⟨b, _, haft, htracked, under_afterPop fun hheld => ?_⟩
          obtain ⟨l, hl⟩ := hheld
          have hkeys : r = s.shared.1.tags x.tag := acts_popTag hacts
          rcases h.registered ⟨l, hsteady l hl⟩ with hkey | ⟨w, hw⟩
          · exact hkeys ▸ hkey
          · obtain ⟨b', rest', hw', -⟩ := id hw
            have hcalls : ClashOn x.key x.tag (.inl (.invalidateTable x.tag) : CacheCall V ⊕ X)
                (.inl (.invalidateTable x.tag)) := .inr ⟨rfl, rfl⟩
            obtain rfl := hsound.apart hw' hbef hcalls
            exact absurd hw hcov
      · exact .inr (hcover hcov)
    · exact hsame (hoth u ht)

lemma Settled.step (h : Settled cfg x p s) (hsound : Sound cfg x.key x.tag s)
    (hpops : ∀ {t a}, s.active t = some a → PopState a) (hclear : Clearing cfg x.serial s) :
    Settled cfg x p s' where
  registered := h.registered.step hc hsteady htracked hsound hpops
  pending := h.pending_step hc hsteady htracked hsound
  gone := h.gone_step hc hsteady
  away := h.away_step hc hsteady hsound.traced.stamped hclear
  silent := h.silent_step hc hsound.traced.stamped

lemma Follows.progress_of_steady (h : Follows cfg x s) {α : Type} {rest : Code V XRes α}
    (hrest : Progress cfg x s rest) : Progress cfg x s' rest := by
  obtain ⟨q, hund, hfresh, hset⟩ := hrest
  refine ⟨q, hund, fun hq => ?_, fun hq => ?_⟩
  · rintro ⟨l, hl⟩
    exact hfresh hq ⟨l, hsteady l hl⟩
  · exact (hset hq).step hc hsteady htracked h.sound h.pops

end Steady

section Tracked

variable (h : Follows cfg x s) (htracked : Tracked x.serial x.key s'.shared.1)
include h htracked

lemma Follows.progress_own {α : Type} {k : OpRes XRes op → Code V XRes α} {r : OpRes XRes op}
    (hacts : Acts cfg t op s.shared.1 r s'.shared.1) (hrest : Progress cfg x s (.call op k)) :
    Progress cfg x s' (k r) := by
  obtain ⟨q, hund, hfresh, hset⟩ := hrest
  refine ⟨q.next x.tag x.key op, hund.own rfl, fun hq => ?_, fun hq => ?_⟩
  · rintro ⟨l, y, hy, hid⟩
    rcases hacts.entry hy with hy | rfl
    · exact hfresh (Phase.next_eq_fresh hq) ⟨l, y, hy, hid⟩
    · cases hq
  · rcases Phase.next_eq_settled hq with rfl | rfl
    · refine (hset rfl).step hc ?_ htracked h.sound h.pops
      rintro l ⟨y, hy, hid⟩
      rcases hacts.entry hy with hy | rfl
      · exact ⟨y, hy, hid⟩
      · cases hund.demand l y rfl
    · -- The key has just been noted.
      exact fun _ => .inl (acts_addTag hacts)

lemma Follows.running_step (honly : Only x s') {c : CacheCall V ⊕ X} {b : ℕ}
    {rest : Code V XRes (Option (CallRet XRes c))}
    (ha : s'.active t = some ⟨c, b, rest⟩) (hb : b = x.serial) : Progress cfg x s' rest := by
  have hsame : s'.active t = s.active t → Steady x.serial s s' → Progress cfg x s' rest :=
    fun heq hsteady =>
      h.progress_of_steady hc hsteady htracked (h.running (heq.symm.trans ha) hb)
  cases id hc with
  | quiet hshared hact => exact hsame (hact t) fun l hl => hshared ▸ hl
  | enter u _ fuel _ _ hshared _ haft hoth =>
    by_cases ht : t = u
    · subst ht
      cases haft.symm.trans ha
      obtain rfl := honly c (.inl ⟨t, _, haft, hb, rfl⟩)
      refine ⟨.fresh, under_phase_put cfg _ fuel _ _ x.tagged, fun _ => ?_, fun hq => ?_⟩
      · -- A value in a slot is of a call that has begun before.
        rintro ⟨l, y, hy, hid⟩
        rw [hshared] at hy
        obtain ⟨ttl, hbeg⟩ := h.sound.traced.origin hy
        have := h.sound.traced.stamped.began_lt hbeg
        omega
      · cases hq
    · exact hsame (hoth t ht) fun l hl => hshared ▸ hl
  | leave u _ _ _ _ hshared _ haft hoth =>
    by_cases ht : t = u
    · subst ht
      cases haft.symm.trans ha
    · exact hsame (hoth t ht) fun l hl => hshared ▸ hl
  | act u _ _ _ _ _ _ _ hbef hexec haft hoth =>
    have hacts := acts_of_execBoth hexec
    by_cases ht : t = u
    · subst ht
      cases haft.symm.trans ha
      exact h.progress_own hc htracked hacts (h.running hbef hb)
    · refine hsame (hoth t ht) fun l hl => h.sound.at_of_acts hbef hacts (fun hb' => ht ?_) hl
      exact h.sound.traced.stamped.active_inj ((hoth t ht).symm.trans ha) hbef (hb.trans hb'.symm)

lemma Follows.settled_step (htime : s'.time = s.time + 1)
    (hp : p ∈ s'.calls) (hn : p.began = x.serial) : Settled cfg x p s' := by
  rcases hc.record_cases hp with hold | ⟨⟨a, ha, -, hbeg⟩, hend, hnone⟩
  · exact (h.settled hold hn).step hc (h.sound.steady hc hold hn) htracked h.sound h.pops h.clearing
  · obtain ⟨job, c, b, r, rfl, hshared, -⟩ := hc.left ha hnone
    obtain ⟨q, hund, hfresh, hset⟩ := h.running ha (hbeg.trans hn)
    refine settled_of_registered (h.sound.traced.stamped.step hc htime) (by omega) ?_
    cases q with
    | fresh =>
      intro hheld
      exact absurd (hshared ▸ hheld) (hfresh rfl)
    | tagging => exact absurd rfl hund.done
    | settled =>
      exact (hset rfl).step hc (fun l hl => hshared ▸ hl) htracked h.sound h.pops

end Tracked

lemma Follows.step (h : Follows cfg x s) (hcalm : CalmOn x.key x.tag s e)
    (htime : s'.time = s.time + 1) (honly : Only x s') : Follows cfg x s' :=
  have hsound := h.sound.step hcalm hc htime
  have htracked := hsound.tracked honly
  { sound := hsound
    pops := popState_step hc h.pops
    clearing := h.clearing.step hc
    running := h.running_step hc htracked honly
    settled := h.settled_step hc htracked htime }

end Change

end Steps

variable {cfg : CacheConfig V} {C : Client Tid V E Y XRes Out} {s : CacheSys Tid V Y XRes Out}
  {y : Y} {es : List (Event Tid (ℕ × E) Job)}

section

variable {x : Target V}
  (hcalm : Meets (machine cfg C) (CalmOn x.key x.tag) (Sys.init (State.empty, y)) es)
  (hrun : run (machine cfg C) (Sys.init (State.empty, y)) es = some s)

include hcalm hrun

lemma follows_of_run (honly : Only x s) : Follows cfg x s := by
  refine run_induction (I := fun s => Only x s → Follows cfg x s) ?_ (fun _ => follows_init x y)
    hcalm hrun honly
  intro s e s' h hok hstep honly'
  exact (h (honly'.before hstep.change)).step hstep.change hok hstep.time honly'

lemma silent_of_run {p c g : CacheRecord Tid V XRes} (hp : p ∈ s.calls) (hput : p.call = x.call)
    (hn : p.began = x.serial) (hcut : Cut x p s c) (hg : g ∈ s.calls)
    (hthread : g.thread = c.thread) (haft : c.ended ≤ g.began) {v : ValuePtr V}
    (hv : gotten g.call g.ret = some v) : v.id ≠ x.serial := by
  have honly : Only x s := by
    intro c hbeg
    rw [← hput]
    exact (stamped_of_run hrun).began_unique hbeg (.inr ⟨p, hp, hn, rfl⟩)
  exact ((follows_of_run hcalm hrun honly).settled hp hn).silent hcut hg hthread haft v hv

end

variable {c : CacheCall V ⊕ X}

lemma exists_of_putTag {tag : Bytes} (h : putTag c = some tag) :
    ∃ key value ttl, c = .inl (.put key value ttl tag) := by
  cases c with
  | inr => cases h
  | inl c =>
    cases c with
    | put key value ttl =>
      cases h
      exact ⟨key, value, ttl, rfl⟩
    | _ => cases h

lemma eq_of_invalidated {table : Bytes} (h : invalidated c = some table) :
    c = .inl (.invalidateTable table) := by
  cases c with
  | inr => cases h
  | inl c =>
    cases c with
    | invalidateTable =>
      cases h
      rfl
    | _ => cases h

def Reached (s : CacheSys Tid V Y XRes Out) : Prop :=
  ∀ p ∈ s.calls, ∀ i ∈ s.calls, ∀ g ∈ s.calls, ∀ tag ∈ putTag p.call, tag ≠ [] →
    invalidated i.call = some tag → p.ended < i.began → i.ended ≤ g.began →
      (gotten g.call g.ret).map ValuePtr.id ≠ some p.began

/-- If no two puts of the key and no two invalidations of the table overlap, then a thread that has
run an invalidation, or has cleared its table since, gets no value that was put under the tag
before. -/
theorem get_ne_of_invalidated (cfg : CacheConfig V) (C : Client Tid V E Y XRes Out)
    {key tag : Bytes}
    (hcalm : Meets (machine cfg C) (CalmOn key tag) (Sys.init (State.empty, y)) es)
    (hrun : run (machine cfg C) (Sys.init (State.empty, y)) es = some s)
    {p i c g : CacheRecord Tid V XRes} (hp : p ∈ s.calls) (hkey : putKey p.call = some key)
    (hput : putTag p.call = some tag) (htag : tag ≠ []) (hi : i ∈ s.calls)
    (hdrop : invalidated i.call = some tag) (hbefore : p.ended < i.began) (hc : c ∈ s.calls)
    (hclear : c = i ∨ clears c.call = true ∧ i.ended ≤ c.began) (hg : g ∈ s.calls)
    (hthread : g.thread = c.thread) (hafter : c.ended ≤ g.began) :
    (gotten g.call g.ret).map ValuePtr.id ≠ some p.began := by
  obtain ⟨key', value, ttl, hcall⟩ := exists_of_putTag hput
  obtain rfl : key' = key := by
    rw [hcall] at hkey
    exact Option.some.inj hkey
  have hicall : i.call = .inl (.invalidateTable tag) := eq_of_invalidated hdrop
  intro heq
  obtain ⟨v, hv, hid⟩ := Option.map_eq_some_iff.1 heq
  refine silent_of_run (x := ⟨p.began, key', tag, value, ttl, htag⟩) hcalm hrun hp hcall rfl
    ⟨hc, ?_, i, hi, hicall, hbefore, hclear.imp_right And.right⟩ hg hthread hafter hv hid
  rcases hclear with rfl | hclear
  · rw [hicall]
    rfl
  · exact hclear.1

/-- Whatever the interleaving, no value comes out of thin air; calm runs keep each key in one
slot. -/
theorem got_put_and_placed (hrun : run (machine cfg C) (Sys.init (State.empty, y)) es = some s) :
    (∀ r ∈ s.calls, ∀ key v, getKey r.call = some key → gotten r.call r.ret = some v →
      ∃ key' ttl tag, Began s v.id (.inl (.put key' v.value ttl tag)) ∧
        key'.take L1.kKeyMax = key.take L1.kKeyMax) ∧
      (Meets (machine cfg C) Calm (Sys.init (State.empty, y)) es → Placed s.shared.1) :=
  ⟨fun _ hr _ _ => (traced_of_run hrun).got hr, fun hcalm => placed_of_forall fun key =>
    (run_induction (I := Sound cfg key []) (fun h hok hstep =>
      h.step (hok.on key []) hstep.change hstep.time) (sound_init y) hcalm hrun).placed⟩

section Runs

/-- A cache of 4 entries a shard, with the hash that sends every key to slot 1. -/
def plain : CacheConfig ℕ := ⟨4, 6400, fun _ => 1⟩

/-- A whole call of one thread, `steps` steps long. -/
def callEvents (t : Tid) (c : CacheCall ℕ) (steps : ℕ) :
    List (Event Tid (ℕ × Unit) (CacheCall ℕ)) :=
  .start t c 1 :: .enter t 1 :: (List.replicate steps (.step t (0, ())) ++ [.leave t, .finish t])

/-- Put, invalidate, put again, get. -/
def replaced : List (Event Unit (ℕ × Unit) (CacheCall ℕ)) :=
  callEvents () (.put (str "k") 1 60 (str "t")) 22 ++
    callEvents () (.invalidateTable (str "t")) 4 ++
    callEvents () (.put (str "k") 2 60 (str "t")) 22 ++ callEvents () (.get (str "k")) 5

theorem get_ne_of_invalidated_replaced :
    ∃ s p i g, run (machine plain (Client.calls Unit ℕ)) (Sys.init (State.empty, ())) replaced
      = some s ∧
      p ∈ s.calls ∧ i ∈ s.calls ∧ g ∈ s.calls ∧ putKey p.call = some (str "k") ∧
        putTag p.call = some (str "t") ∧ invalidated i.call = some (str "t") ∧
          p.ended < i.began ∧ i.ended ≤ g.began ∧ (gotten g.call g.ret).isSome ∧
          (gotten g.call g.ret).map ValuePtr.id ≠ some p.began := by
  have hfound : (run (machine plain (Client.calls Unit ℕ)) (Sys.init (State.empty, ()))
    replaced).any
      (fun s => s.calls.any fun p => s.calls.any fun i => s.calls.any fun g =>
        putKey p.call = some (str "k") && putTag p.call = some (str "t") &&
          invalidated i.call = some (str "t") &&
          (p.ended < i.began && (i.ended ≤ g.began && (gotten g.call g.ret).isSome))) = true := by
    decide +kernel
  simp only [Option.any_eq_true, List.any_eq_true, Bool.and_eq_true, decide_eq_true_eq] at hfound
  obtain ⟨s, hrun, p, hp, i, hi, g, hg, ⟨⟨hkey, hput⟩, hdrop⟩, hbefore, hafter, hsome⟩ := hfound
  refine ⟨s, p, i, g, hrun, hp, hi, hg, hkey, hput, hdrop, hbefore, hafter, hsome, ?_⟩
  exact get_ne_of_invalidated plain (Client.calls Unit ℕ)
    ((calm_of_subsingleton _ _ _ _).mono fun _ _ h => h.on _ _) hrun hp hkey hput (by decide) hi
      hdrop hbefore hi (.inl rfl) hg (Subsingleton.elim _ _) hafter

def keptByReader : List (Event Bool (ℕ × Unit) (CacheCall ℕ)) :=
  callEvents false (.put (str "k") 1 60 (str "t")) 22 ++ callEvents true (.get (str "k")) 5 ++
    callEvents false (.invalidateTable (str "t")) 4 ++ callEvents true (.get (str "k")) 2

theorem not_get_ne_of_invalidated :
    ¬ ∀ es s, run (machine plain (Client.calls Bool ℕ)) (Sys.init (State.empty, ())) es = some s →
      Reached s := by
  have hfound : (run (machine plain (Client.calls Bool ℕ)) (Sys.init (State.empty, ()))
      keptByReader).any (fun s => s.calls.any fun p => s.calls.any fun i => s.calls.any fun g =>
        putTag p.call = some (str "t") && invalidated i.call = some (str "t") &&
          (p.ended < i.began && (i.ended ≤ g.began &&
            (gotten g.call g.ret).map ValuePtr.id = some p.began))) = true := by
    decide +kernel
  simp only [Option.any_eq_true, List.any_eq_true, Bool.and_eq_true, decide_eq_true_eq] at hfound
  obtain ⟨s, hrun, p, hp, i, hi, g, hg, ⟨hput, hdrop⟩, hbefore, hafter, heq⟩ := hfound
  intro h
  exact h _ s hrun p hp i hi g hg _ hput (by decide) hdrop hbefore hafter heq

theorem got_put_and_placed_replaced :
    ∃ s g v, run (machine plain (Client.calls Unit ℕ)) (Sys.init (State.empty, ())) replaced
      = some s ∧
      g ∈ s.calls ∧ gotten g.call g.ret = some v ∧ v.value = 2 ∧
        (∃ key ttl tag, Began s v.id (.inl (.put key v.value ttl tag)) ∧
          key.take L1.kKeyMax = (str "k").take L1.kKeyMax) ∧ Placed s.shared.1 := by
  have hfound : (run (machine plain (Client.calls Unit ℕ)) (Sys.init (State.empty, ()))
    replaced).any
      (fun s => s.calls.any fun g => getKey g.call = some (str "k") &&
        (gotten g.call g.ret).any fun v => v.value = 2) = true := by
    decide +kernel
  simp only [Option.any_eq_true, List.any_eq_true, Bool.and_eq_true, decide_eq_true_eq] at hfound
  obtain ⟨s, hrun, g, hg, hkey, v, hv, htwo⟩ := hfound
  obtain ⟨hgot, hplaced⟩ := got_put_and_placed hrun
  exact ⟨s, g, v, hrun, hg, hv, htwo, hgot g hg _ v hkey hv,
    hplaced (calm_of_subsingleton _ _ _ _)⟩

end Runs

end SpidoNG.Cache
