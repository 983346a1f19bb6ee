import SpidoNG.Pg.Pool

/-!
# The statement cache

A Bind is sound if it names a statement that was parsed, in the same backend session and with the
SQL of the call, before.
-/

namespace SpidoNG.Pg

open Bytes PgConnection List Function

def Parsed (wire : List Sent) (session : ℕ) (name sql : Bytes) : Prop :=
  ∃ x ∈ wire, x.msg = .parse session name sql true

instance (wire : List Sent) (session : ℕ) (name sql : Bytes) :
    Decidable (Parsed wire session name sql) := by
  unfold Parsed
  infer_instance

def Sent.Sound (earlier : List Sent) (x : Sent) : Prop :=
  match x.msg with
  | .bind session name _ => Parsed earlier session name x.sql
  | _ => True

instance (earlier : List Sent) (x : Sent) : Decidable (x.Sound earlier) := by
  unfold Sent.Sound
  split <;> infer_instance

def Grounded : List Sent → Prop
  | [] => True
  | x :: earlier => x.Sound earlier ∧ Grounded earlier

instance decidableGrounded : (wire : List Sent) → Decidable (Grounded wire)
  | [] => .isTrue trivial
  | x :: earlier => by
    unfold Grounded
    have := decidableGrounded earlier
    infer_instance

variable {wire' : List Sent}

lemma Parsed.mono {wire : List Sent} (hsub : wire ⊆ wire') {session : ℕ} {name sql : Bytes}
    (h : Parsed wire session name sql) : Parsed wire' session name sql := by
  obtain ⟨x, hx, hmsg⟩ := h
  exact ⟨x, hsub hx, hmsg⟩

def PrepCache.Unseen (cache : PrepCache) (c : PgConnection) : Prop :=
  ∀ sql info, cache sql = some info → info.lastEpoch c.fd ≠ some c.epoch

namespace Pool

/-- Each SQL text is called under one name only, a new connection does not get a descriptor under
which the cache knows a statement, and no Parse is answered with an error. -/
def GoodEvent (nameOf : Bytes → Bytes) (p : Pool) : Event → Prop
  | .checkout call sock => (∀ k, call = some k → k.name = nameOf k.sql) ∧
      ∀ c, p.createOne sock = some c → p.prepCache.Unseen c
  | .topUp sock => ∀ c, p.createOne sock = some c → p.prepCache.Unseen c
  | .prepare _ (.ready r) => r.hadError = false
  | _ => True

def GoodRun (nameOf : Bytes → Bytes) : Pool → List Event → Prop
  | _, [] => True
  | p, ev :: evs => p.GoodEvent nameOf ev ∧ GoodRun nameOf (p.step ev) evs

end Pool

abbrev Slot := PgConnection × Option Bytes

variable {nameOf : Bytes → Bytes} {cache : PrepCache} {wire : List Sent} {c c' : PgConnection}
  {x y : Slot} {xs : List Slot} {sql : Bytes}

def Covered (nameOf : Bytes → Bytes) (cache : PrepCache) (wire : List Sent) (x : Slot) : Prop :=
  x.1.state = .Ready → ∀ sql info, cache sql = some info →
    info.lastEpoch x.1.fd = some x.1.epoch → x.2 = some sql ∨
      Parsed wire x.1.session (nameOf sql) sql

structure Held (nameOf : Bytes → Bytes) (cache : PrepCache) (wire : List Sent) (xs : List Slot) :
    Prop where
  distinct : (xs.map fun x => x.1.fd).Nodup
  covered : ∀ x ∈ xs, Covered nameOf cache wire x

lemma Held.perm {ys : List Slot} (h : Held nameOf cache wire xs) (hp : ys.Perm xs) :
    Held nameOf cache wire ys :=
  ⟨(hp.map _).nodup_iff.2 h.distinct, fun x hx => h.covered x (hp.subset hx)⟩

lemma Held.tail (h : Held nameOf cache wire (x :: xs)) : Held nameOf cache wire xs :=
  ⟨(nodup_cons.1 h.distinct).2, fun y hy => h.covered y (mem_cons_of_mem _ hy)⟩

lemma Held.mono (h : Held nameOf cache wire xs) (hsub : wire ⊆ wire') :
    Held nameOf cache wire' xs := by
  refine ⟨h.distinct, fun x hx hready sql info hinfo hepoch => ?_⟩
  exact (h.covered x hx hready sql info hinfo hepoch).imp id (Parsed.mono hsub)

lemma Held.parsed (h : Held nameOf cache wire (x :: xs)) (hc : c'.Follows x.1)
    (hprepared : ∀ sql, x.2 = some sql → c'.state = .Ready →
      Parsed wire x.1.session (nameOf sql) sql) : Held nameOf cache wire ((c', none) :: xs) := by
  refine ⟨?_, ?_⟩
  · have hd := h.distinct
    rw [map_cons] at hd ⊢
    rwa [hc.fd]
  · intro y hy
    rcases mem_cons.1 hy with rfl | hy
    · intro hready sql info hinfo hepoch
      rw [hc.fd, hc.epoch] at hepoch
      rw [hc.session]
      rcases h.covered x (by simp) (hc.ready hready) sql info hinfo hepoch with heq | hp
      · exact .inr (hprepared sql heq hready)
      · exact .inr hp
    · exact h.covered y (mem_cons_of_mem _ hy)

lemma Held.follow (h : Held nameOf cache wire ((c, none) :: xs)) (hc : c'.Follows c) :
    Held nameOf cache wire ((c', none) :: xs) := h.parsed hc nofun

lemma Held.cons (h : Held nameOf cache wire xs) (hfd : c.fd ∉ xs.map fun x => x.1.fd)
    (hc : cache.Unseen c) : Held nameOf cache wire ((c, none) :: xs) := by
  refine ⟨?_, ?_⟩
  · rw [map_cons]
    exact nodup_cons.2 ⟨hfd, h.distinct⟩
  · intro y hy
    rcases mem_cons.1 hy with rfl | hy
    · intro _ sql info hinfo hepoch
      exact absurd hepoch (hc sql info hinfo)
    · exact h.covered y hy

lemma PrepCache.update_cases {sql' : Bytes} {info info' : PrepInfo}
    (h : update cache sql (some info) sql' = some info') :
    sql' = sql ∧ info' = info ∨ cache sql' = some info' := by
  by_cases heq : sql' = sql
  · subst heq
    rw [update_self] at h
    cases h
    exact .inl ⟨rfl, rfl⟩
  · rw [update_of_ne heq] at h
    exact .inr h

lemma PrepCache.needPrepare_spec (cache : PrepCache) (sql : Bytes) (types : List Oid)
    (c : PgConnection) : ((cache.needPrepare sql types c).1 = false →
        ∃ info, cache sql = some info ∧ info.lastEpoch c.fd = some c.epoch) ∧
      ∀ sql' info' fd epoch, (cache.needPrepare sql types c).2 sql' = some info' →
        info'.lastEpoch fd = some epoch →
        (∃ info, cache sql' = some info ∧ info.lastEpoch fd = some epoch) ∨
          (cache.needPrepare sql types c).1 ∧ sql' = sql ∧ fd = c.fd := by
  -- filling in the parameter types does not touch the epochs
  obtain ⟨info, hneed, hinfo⟩ : ∃ info : PrepInfo, cache.needPrepare sql types c =
      (if info.lastEpoch c.fd = some c.epoch then (false, update cache sql (some info))
      else (true, update cache sql
        (some { info with lastEpoch := update info.lastEpoch c.fd (some c.epoch) }))) ∧
      info.lastEpoch = ((cache sql).getD {}).lastEpoch := by
    refine ⟨_, rfl, ?_⟩
    split_ifs <;> rfl
  have hold : ∀ fd epoch, info.lastEpoch fd = some epoch →
      ∃ info, cache sql = some info ∧ info.lastEpoch fd = some epoch := by
    intro fd epoch h
    rw [hinfo] at h
    cases hs : cache sql with
    | none =>
      rw [hs] at h
      cases h
    | some info' =>
      rw [hs] at h
      exact ⟨info', rfl, h⟩
  rw [hneed]
  split_ifs with hkn
  · refine ⟨fun _ => hold _ _ hkn, ?_⟩
    intro sql' info' fd epoch h1 h2
    rcases update_cases h1 with ⟨rfl, rfl⟩ | h1
    · exact .inl (hold _ _ h2)
    · exact .inl ⟨info', h1, h2⟩
  · refine ⟨nofun, ?_⟩
    intro sql' info' fd epoch h1 h2
    rcases update_cases h1 with ⟨rfl, rfl⟩ | h1
    · by_cases hfd : fd = c.fd
      · exact .inr ⟨rfl, rfl, hfd⟩
      · dsimp only at h2
        rw [update_of_ne hfd] at h2
        exact .inl (hold _ _ h2)
    · exact .inl ⟨info', h1, h2⟩

lemma Held.needPrepare (h : Held nameOf cache wire ((c, none) :: xs)) (sql : Bytes)
    (types : List Oid) : Held nameOf (cache.needPrepare sql types c).2 wire
      ((c, if (cache.needPrepare sql types c).1 then some sql else none) :: xs) := by
  obtain ⟨-, hnew⟩ := cache.needPrepare_spec sql types c
  refine ⟨h.distinct, ?_⟩
  intro y hy hready sql' info' hinfo hepoch
  rcases mem_cons.1 hy with rfl | hy
  · rcases hnew _ _ _ _ hinfo hepoch with ⟨info, hold, hold'⟩ | ⟨hneed, rfl, -⟩
    · exact .inr ((h.covered (c, none) (by simp) hready _ _ hold hold').resolve_left nofun)
    · exact .inl (by simp [hneed])
  · rcases hnew _ _ _ _ hinfo hepoch with ⟨info, hold, hold'⟩ | ⟨-, -, hfd⟩
    · exact h.covered y (mem_cons_of_mem _ hy) hready _ _ hold hold'
    · -- another connection with the same descriptor
      exact absurd (mem_map.2 ⟨y, hy, hfd⟩) (nodup_cons.1 h.distinct).1

def Task.slot : Task → Slot
  | .decided call c true => (c, some call.sql)
  | t => (t.conn, none)

def Task.Ok (nameOf : Bytes → Bytes) (wire : List Sent) : Task → Prop
  | .checkedOut call _ => call.name = nameOf call.sql
  | .decided call c need => call.name = nameOf call.sql ∧
      (need = false → c.state = .Ready → Parsed wire c.session call.name call.sql)
  | .prepared call c => c.state = .Ready → Parsed wire c.session call.name call.sql
  | .borrowed _ | .finished _ _ => True

lemma Task.Ok.mono {t : Task} (h : t.Ok nameOf wire) (hsub : wire ⊆ wire') : t.Ok nameOf wire' := by
  cases t with
  | checkedOut => exact h
  | decided => exact ⟨h.1, fun h1 h2 => (h.2 h1 h2).mono hsub⟩
  | prepared => exact fun h1 => (h h1).mono hsub
  | borrowed | finished => trivial

namespace Pool

variable {p : Pool} {i : ℕ} {t t' : Task}

def free (c : PgConnection) : Slot := (c, none)

def slotsWith (p : Pool) (ts : List Task) : List Slot :=
  p.idle.map free ++ (p.drained.map free ++ (p.survivors.map free ++ ts.map Task.slot))

def slots (p : Pool) : List Slot := p.slotsWith p.tasks

structure Inv (nameOf : Bytes → Bytes) (p : Pool) : Prop where
  held : Held nameOf p.prepCache p.wire p.slots
  tasks : ∀ t ∈ p.tasks, t.Ok nameOf p.wire
  grounded : Grounded p.wire

lemma inv_init (nameOf : Bytes → Bytes) (cfg : PoolConfig) (nproc : ℕ) :
    (init cfg nproc).Inv nameOf := ⟨⟨nodup_nil, nofun⟩, nofun, trivial⟩

lemma slotsWith_cons (p : Pool) (t : Task) (ts : List Task) :
    (p.slotsWith (t :: ts)).Perm (t.slot :: p.slotsWith ts) := by
  unfold slotsWith
  rw [← append_assoc, ← append_assoc, ← append_assoc, ← append_assoc]
  exact perm_middle

lemma slotsWith_perm (p : Pool) {ts ts' : List Task} (h : ts.Perm ts') :
    (p.slotsWith ts).Perm (p.slotsWith ts') :=
  ((((h.map _).append_left _).append_left _).append_left _)

lemma slots_perm (ht : p.tasks[i]? = some t) :
    p.slots.Perm (t.slot :: p.slotsWith (p.tasks.eraseIdx i)) := by
  obtain ⟨hlt, rfl⟩ := List.getElem?_eq_some_iff.1 ht
  exact (p.slotsWith_perm (List.getElem_cons_eraseIdx_perm hlt).symm).trans (p.slotsWith_cons _ _)

lemma slots_set_perm (ht : p.tasks[i]? = some t) (t' : Task) :
    (p.slotsWith (p.tasks.set i t')).Perm (t'.slot :: p.slotsWith (p.tasks.eraseIdx i)) := by
  obtain ⟨hlt, rfl⟩ := List.getElem?_eq_some_iff.1 ht
  exact (p.slotsWith_perm (List.set_perm_cons_eraseIdx hlt t')).trans (p.slotsWith_cons _ _)

section

variable (hi : p.Inv nameOf)
include hi

lemma Inv.set (ht : p.tasks[i]? = some t) (t' : Task) (cache' : PrepCache)
    (sent : List Sent) (hheld : ∀ xs, Held nameOf p.prepCache p.wire (t.slot :: xs) →
      Held nameOf cache' (sent ++ p.wire) (t'.slot :: xs))
    (hok : t'.Ok nameOf (sent ++ p.wire)) (hg : Grounded (sent ++ p.wire)) :
    Inv nameOf { p with tasks := p.tasks.set i t', prepCache := cache', wire := sent ++
      p.wire } := by
  refine ⟨?_, ?_, hg⟩
  · exact (hheld _ (hi.held.perm (slots_perm ht).symm)).perm (slots_set_perm ht t')
  · intro u hu
    rcases mem_or_eq_of_mem_set hu with hu | rfl
    · exact (hi.tasks u hu).mono (subset_append_right _ _)
    · exact hok

omit hi in
lemma grounded_exec (hg : Grounded wire) (c : PgConnection) (sql : Bytes) (reply : Reply) :
    Grounded (Sent.log sql (c.exec sql reply).2.2 ++ wire) := by
  rcases exec_msgs c sql reply with h | h <;> rw [h]
  · exact hg
  · exact ⟨trivial, hg⟩

variable {reply : Reply} {call : Call} {sock : Option ℤ}

lemma Inv.query (ht : p.tasks[i]? = some (.borrowed c)) :
    (p.advance i (.borrowed c) (.query i sql reply)).Inv nameOf := by
  refine hi.set ht (.borrowed (c.exec sql reply).2.1) p.prepCache
    (Sent.log sql (c.exec sql reply).2.2) (fun xs hx => ?_) trivial
    (grounded_exec hi.grounded c sql reply)
  exact (hx.follow (follows_exec c sql reply)).mono (subset_append_right _ _)

lemma Inv.decide (ht : p.tasks[i]? = some (.checkedOut call c)) :
    (p.advance i (.checkedOut call c) (.decide i)).Inv nameOf := by
  have hname : call.name = nameOf call.sql := hi.tasks _ (mem_of_getElem? ht)
  have hheld := hi.held.perm (slots_perm ht).symm
  refine hi.set ht (.decided call c (p.prepCache.needPrepare call.sql call.types c).1)
    (p.prepCache.needPrepare call.sql call.types c).2 [] (fun xs hx => ?_)
    ⟨hname, fun hneed hready => ?_⟩ hi.grounded
  · have hfree : Held nameOf p.prepCache p.wire ((c, none) :: xs) := hx
    have hx' := hfree.needPrepare call.sql call.types
    cases hneed : (p.prepCache.needPrepare call.sql call.types c).1 with
    | true | false =>
      rw [hneed] at hx'
      exact hx'
  · -- the cache has the connection, and is right
    obtain ⟨info, hinfo, hepoch⟩ := (p.prepCache.needPrepare_spec call.sql call.types c).1 hneed
    rw [hname]
    exact (hheld.covered (c, none) mem_cons_self hready _ _ hinfo hepoch).resolve_left nofun

lemma Inv.prepare {need : Bool} (ht : p.tasks[i]? = some (.decided call c need))
    (hreply : ∀ r, reply = .ready r → r.hadError = false) :
    (p.advance i (.decided call c need) (.prepare i reply)).Inv nameOf := by
  obtain ⟨hname, hkn⟩ : Task.Ok nameOf p.wire (.decided call c need) :=
    hi.tasks _ (mem_of_getElem? ht)
  cases need with
  | false =>
    exact hi.set ht (.prepared call c) p.prepCache [] (fun xs hx => hx) (hkn rfl) hi.grounded
  | true =>
    have hfollows := follows_prepare c call.name call.sql call.types reply
    have hmsgs := prepare_msgs c call.name call.sql call.types reply
    set c' := (c.prepare call.name call.sql call.types reply).2.1
    set msgs := (c.prepare call.name call.sql call.types reply).2.2
    have hprepared : c'.state = .Ready →
        Parsed (Sent.log call.sql msgs ++ p.wire) c.session call.name call.sql := by
      intro hready
      rcases hmsgs with ⟨hnot, -⟩ | ⟨ok, hmsg, hok⟩
      · exact absurd hready hnot
      · rw [hmsg, hok hready hreply]
        exact ⟨_, mem_cons_self, rfl⟩
    refine hi.set ht (.prepared call c') p.prepCache (Sent.log call.sql msgs)
      (fun xs hx => ?_) ?_ ?_
    · refine (hx.mono (subset_append_right _ _)).parsed hfollows ?_
      rintro _ ⟨⟩ hready
      rw [← hname]
      exact hprepared hready
    · rw [← hfollows.session] at hprepared
      exact hprepared
    · rcases hmsgs with ⟨-, h⟩ | ⟨ok, h, -⟩ <;> rw [h]
      · exact hi.grounded
      · exact ⟨trivial, hi.grounded⟩

lemma Inv.bind (ht : p.tasks[i]? = some (.prepared call c)) :
    (p.advance i (.prepared call c) (.bind i reply)).Inv nameOf := by
  have hprepared : Task.Ok nameOf p.wire (.prepared call c) := hi.tasks _ (mem_of_getElem? ht)
  have hfollows := follows_execPrepared c ⟨call.name, call.types, c.epoch⟩ call.params reply
  have hmsgs := execPrepared_msgs c ⟨call.name, call.types, c.epoch⟩ call.params reply
  set out := c.execPrepared ⟨call.name, call.types, c.epoch⟩ call.params reply
  refine hi.set ht (.finished out.1 out.2.1) p.prepCache (Sent.log call.sql out.2.2)
    (fun xs hx => ?_) trivial ?_
  · exact (hx.follow hfollows).mono (subset_append_right _ _)
  · rcases hmsgs with h | ⟨hready, h⟩ <;> rw [h]
    · exact hi.grounded
    · exact ⟨hprepared hready, hi.grounded⟩

omit hi in
lemma openFds_eq (p : Pool) : p.openFds = p.slots.map fun x => x.1.fd := by
  have hslot : ∀ t : Task, t.slot.1 = t.conn := by
    intro t
    unfold Task.slot
    split <;> rfl
  simp [openFds, slots, slotsWith, free, hslot, comp_def]

omit hi in
lemma createOne_eq_some (h : p.createOne sock = some c) : c.fd ∉ p.slots.map fun x => x.1.fd := by
  cases sock with
  | none => cases h
  | some =>
    simp only [createOne] at h
    split_ifs at h with hno
    push Not at hno
    cases h
    rw [← openFds_eq]
    exact hno.2

lemma Inv.checkin (ht : p.tasks[i]? = some t) (hslot : t.slot = (c, none)) :
    (p.checkin i c).Inv nameOf := by
  have hheld := hi.held.perm (slots_perm ht).symm
  rw [hslot] at hheld
  have htasks : ∀ u ∈ p.tasks.eraseIdx i, u.Ok nameOf p.wire :=
    fun u hu => hi.tasks u (mem_of_mem_eraseIdx hu)
  unfold Pool.checkin
  split_ifs
  · refine ⟨hheld.perm ?_, htasks, hi.grounded⟩
    simp [slots, slotsWith, free]
  · exact ⟨hheld.tail, htasks, hi.grounded⟩

omit hi in
lemma Inv.taskFor {call : Option Call} {ts : List Task} (hts : ∀ u ∈ ts, u.Ok nameOf wire)
    (hname : ∀ k, call = some k → k.name = nameOf k.sql) :
    (taskFor call c).slot = (c, none) ∧ ∀ u ∈ taskFor call c :: ts, u.Ok nameOf wire := by
  refine ⟨by cases call <;> rfl, ?_⟩
  intro u hu
  rcases mem_cons.1 hu with rfl | hu
  · cases call with
    | none => trivial
    | some k => exact hname k rfl
  · exact hts u hu

lemma Inv.checkout {call : Option Call}
    (hg : p.GoodEvent nameOf (.checkout call sock)) : (p.checkout call sock).Inv nameOf := by
  obtain ⟨hname, hnew⟩ := hg
  unfold Pool.checkout
  split
  · next c cs hidle =>
    obtain ⟨hslot, htasks⟩ := @Inv.taskFor _ _ c call _ hi.tasks hname
    have hheld := hi.held
    simp only [slots, slotsWith, hidle, map_cons, cons_append] at hheld
    split_ifs
    · refine ⟨hheld.perm ?_, htasks, hi.grounded⟩
      have hperm := slotsWith_cons { p with idle := cs } (Pool.taskFor call c) p.tasks
      rwa [hslot] at hperm
    · exact ⟨hheld.tail, hi.tasks, hi.grounded⟩
  · next hidle =>
    split_ifs
    · split
      · next c hc =>
        obtain ⟨hslot, htasks⟩ := @Inv.taskFor _ _ c call _ hi.tasks hname
        refine ⟨(hi.held.cons (createOne_eq_some hc) (hnew c hc)).perm ?_, htasks, hi.grounded⟩
        have hperm := p.slotsWith_cons (Pool.taskFor call c) p.tasks
        rwa [hslot] at hperm
      · exact hi
    · exact hi

lemma Inv.topUp (hg : p.GoodEvent nameOf (.topUp sock)) : (p.step (.topUp sock)).Inv nameOf := by
  simp only [step]
  split_ifs with hlive
  · cases hc : p.createOne sock with
    | none => exact hi
    | some c =>
      refine ⟨(hi.held.cons (createOne_eq_some hc) (hg c hc)).perm ?_, hi.tasks, hi.grounded⟩
      simp [slots, slotsWith, free]
  · exact hi

lemma Inv.ping : (p.ping reply).Inv nameOf := by
  unfold Pool.ping
  cases hd : p.drained with
  | nil => exact hi
  | cons c cs =>
    have hfollows := follows_exec c (str "SELECT 1") reply
    have hgrounded := grounded_exec hi.grounded c (str "SELECT 1") reply
    set out := c.exec (str "SELECT 1") reply
    have hsub : p.wire ⊆ Sent.log (str "SELECT 1") out.2.2 ++ p.wire := subset_append_right _ _
    have hheld : Held nameOf p.prepCache p.wire (free c :: (p.idle.map free ++ (cs.map free ++
        (p.survivors.map free ++ p.tasks.map Task.slot)))) := by
      refine hi.held.perm ?_
      simp only [slots, slotsWith, hd, map_cons, cons_append]
      exact perm_middle.symm
    have hheld' := (hheld.follow hfollows).mono hsub
    have htasks : ∀ u ∈ p.tasks, u.Ok nameOf (Sent.log (str "SELECT 1") out.2.2 ++ p.wire) :=
      fun u hu => (hi.tasks u hu).mono hsub
    dsimp only
    split_ifs
    · refine ⟨hheld'.perm ?_, htasks, hgrounded⟩
      have hmid := @List.perm_middle _ (free out.2.1) (p.idle.map free ++ (cs.map free ++
        p.survivors.map free)) (p.tasks.map Task.slot)
      simpa [slots, slotsWith, send, free] using hmid
    · exact ⟨hheld'.tail, htasks, hgrounded⟩

end

def Event.thread : Event → Option ℕ
  | .query i _ _ | .decide i | .prepare i _ | .bind i _ | .checkin i => some i
  | _ => none

variable {ev : Event}

lemma step_of_thread (h : ev.thread = some i) :
    p.step ev = (p.tasks[i]?).elim p fun t => p.advance i t ev := by
  cases ht : p.tasks[i]? <;> cases ev <;> cases h <;> simp only [Pool.step, ht, Option.elim]

lemma Inv.thread (hi : p.Inv nameOf) (hth : ev.thread = some i)
    (h : ∀ t, p.tasks[i]? = some t → (p.advance i t ev).Inv nameOf) : (p.step ev).Inv nameOf := by
  rw [step_of_thread hth]
  cases ht : p.tasks[i]? with
  | none => exact hi
  | some t => exact h t ht

lemma Inv.step (hi : p.Inv nameOf) (hg : p.GoodEvent nameOf ev) : (p.step ev).Inv nameOf := by
  cases ev with
  | checkout => exact hi.checkout hg
  | topUp => exact hi.topUp hg
  | ping => exact hi.ping
  | drain =>
    simp only [Pool.step]
    split_ifs with h
    · refine ⟨?_, hi.tasks, hi.grounded⟩
      have hheld := hi.held
      simp only [slots, slotsWith, h.1, h.2] at hheld
      simpa [slots, slotsWith, h.2] using hheld
    · exact hi
  | resume =>
    simp only [Pool.step]
    split_ifs with h
    · refine ⟨?_, hi.tasks, hi.grounded⟩
      have hheld := hi.held
      simp only [slots, slotsWith, h] at hheld
      simpa [slots, slotsWith, h] using hheld
    · exact hi
  | query =>
    refine hi.thread rfl fun t ht => ?_
    cases t with
    | borrowed => exact hi.query ht
    | _ => exact hi
  | decide =>
    refine hi.thread rfl fun t ht => ?_
    cases t with
    | checkedOut => exact hi.decide ht
    | _ => exact hi
  | prepare =>
    refine hi.thread rfl fun t ht => ?_
    cases t with
    | decided =>
      refine hi.prepare ht ?_
      rintro r rfl
      exact hg
    | _ => exact hi
  | bind =>
    refine hi.thread rfl fun t ht => ?_
    cases t with
    | prepared => exact hi.bind ht
    | _ => exact hi
  | checkin =>
    refine hi.thread rfl fun t ht => ?_
    cases t with
    | borrowed | finished => exact hi.checkin ht rfl
    | _ => exact hi

lemma Inv.run {evs : List Event} (hi : p.Inv nameOf) (hg : p.GoodRun nameOf evs) :
    (p.run evs).Inv nameOf := by
  induction evs generalizing p with
  | nil => exact hi
  | cons _ _ ih => exact ih (hi.step hg.1) hg.2

/-- **Every Bind is sound** in every run of good events. -/
theorem grounded_of_goodRun (nameOf : Bytes → Bytes) (cfg : PoolConfig) (nproc : ℕ)
    (evs : List Event) (hg : (init cfg nproc).GoodRun nameOf evs) :
    Grounded ((init cfg nproc).run evs).wire := ((inv_init nameOf cfg nproc).run hg).grounded

def callOnce (call : Call) (sock : Option ℤ) : List Event :=
  [.checkout (some call) sock, .decide 0, .prepare 0 (.ready {}), .bind 0 (.ready {})]

def someCall : Call := { name := str "s", sql := str "SELECT $1" }

def callTwice : List Event :=
  callOnce someCall (some 3) ++ .checkin 0 :: callOnce someCall none

theorem grounded_callTwice : (init {} 1).GoodRun (fun _ => str "s") callTwice ∧
      Grounded ((init {} 1).run callTwice).wire := by
  have hname : ∀ k, some someCall = some k → k.name = str "s" := by
    rintro k ⟨⟩
    rfl
  have hg : (init {} 1).GoodRun (fun _ => str "s") callTwice := by
    simp only [callTwice, callOnce, List.cons_append, List.nil_append, GoodRun, GoodEvent, true_and,
      and_true, createOne, reduceCtorEq, false_imp_iff, implies_true]
    refine ⟨⟨hname, fun c _ sql info hinfo => ?_⟩, hname⟩
    cases hinfo
  exact ⟨hg, grounded_of_goodRun _ {} 1 callTwice hg⟩

def reusedFd : List Event :=
  [.checkout (some someCall) (some 3), .decide 0, .prepare 0 (.ready {}),
    .bind 0 (.failed {} (str "recv header failed: Connection reset by peer")), .checkin 0] ++
  callOnce someCall (some 3)

def refusedParse : List Event :=
  [.checkout (some someCall) (some 3), .decide 0,
    .prepare 0 (.ready (.error (str "relation does not exist"))), .bind 0 (.ready {})]

def secondName : List Event :=
  callOnce someCall (some 3) ++ .checkin 0 :: callOnce { someCall with name := str "t" } none

theorem not_grounded_reusedFd :
    ¬ Grounded ((init {} 1).run reusedFd).wire ∧ ¬ Grounded ((init {} 1).run refusedParse).wire ∧
      ¬ Grounded ((init {} 1).run secondName).wire := by
  decide +kernel

end Pool

end SpidoNG.Pg
