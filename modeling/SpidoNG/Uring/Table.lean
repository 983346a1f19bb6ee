import SpidoNG.Uring.Steps

/-!
# The table of connections

Every accepted connection has an entry of its own in `conns_by_fd_` until it is released.
-/

namespace SpidoNG.Uring

open List Option Function

def Registry.entries (r : Registry) : ℕ :=
  ((Finset.range r.tableSize).filter fun n => r.table n ≠ none).card

structure Tabled (r : Registry) : Prop where
  own : ∀ a ∈ r.accepted, ∃ p, r.getConn a.number = some p ∧ (r.storage p).serial = a.serial
  distinct : ∀ a ∈ r.accepted, ∀ b ∈ r.accepted, a.number = b.number → a = b
  live : r.liveConns = r.entries
  free : ∀ p ∈ r.freeList, ∀ n, r.getConn n ≠ some p

structure Shape (r : Registry) : Prop where
  beyond : ∀ n, r.tableSize ≤ n → r.table n = none
  entry : ∀ {n p}, r.table n = some p →
    p < r.storageSize ∧ ((r.storage p).fd = n ∨ (r.storage p).fd = -1)
  inj : ∀ {n m p}, r.table n = some p → r.table m = some p → n = m
  free : ∀ {p}, p ∈ r.freeList → p < r.storageSize ∧ ∀ n, r.table n ≠ some p
  nodup : r.freeList.Nodup

variable {e : Event}

namespace Shape

variable {r r' : Registry} {n p : ℕ}

section

variable (h : Shape r)
include h

lemma getConn_eq (n : ℕ) : r.getConn n = r.table n := by
  unfold Registry.getConn
  split_ifs with hn
  · rfl
  · exact (h.beyond n (not_lt.1 hn)).symm

lemma later (htable : r'.table = r.table) (hsize : r'.tableSize = r.tableSize)
    (hstorage : r'.storageSize = r.storageSize) (hfree : r'.freeList = r.freeList)
    (hfd : ∀ p, (r'.storage p).fd = (r.storage p).fd ∨ (r'.storage p).fd = -1) : Shape r' := by
  refine ⟨?_, ?_, ?_, ?_, ?_⟩
  · rw [htable, hsize]
    exact h.beyond
  · intro n p hp
    rw [htable] at hp
    obtain ⟨hlt, hn⟩ := h.entry hp
    refine ⟨hstorage ▸ hlt, ?_⟩
    rcases hfd p with heq | hclosed
    · rw [heq]
      exact hn
    · exact .inr hclosed
  · rw [htable]
    exact h.inj
  · rw [hfree, htable, hstorage]
    exact h.free
  · rw [hfree]
    exact h.nodup

lemma fresh (ha : Attached r n p r') : ∀ m, r.table m ≠ some p := by
  intro m hm
  rcases ha.taken with ⟨hfree, -⟩ | ⟨-, -, rfl, -⟩
  · exact (h.free (p := p) (by rw [hfree]; exact mem_cons_self)).2 m hm
  · exact lt_irrefl _ (h.entry hm).1

lemma attach (ha : Attached r n p r') : Shape r' := by
  have hfresh := h.fresh ha
  have hstorage : p < r'.storageSize ∧ r.storageSize ≤ r'.storageSize := by
    rcases ha.taken with ⟨hfree, hsize⟩ | ⟨-, -, rfl, hsize⟩
    · rw [hsize]
      exact ⟨(h.free (by rw [hfree]; exact mem_cons_self)).1, le_rfl⟩
    · omega
  -- What is left in the free list was there before and is not the object.
  have hleft : ∀ q ∈ r'.freeList, q ∈ r.freeList ∧ q ≠ p := by
    intro q hq
    rcases ha.taken with ⟨hfree, -⟩ | ⟨-, hnil, -, -⟩
    · have hnodup := h.nodup
      rw [hfree] at hnodup ⊢
      refine ⟨mem_cons_of_mem p hq, ?_⟩
      rintro rfl
      exact (nodup_cons.1 hnodup).1 hq
    · rw [hnil] at hq
      cases hq
  have htable : ∀ {m q}, r'.table m = some q → m = n ∧ q = p ∨ r.table m = some q ∧ m ≠ n ∧
    q ≠ p := by
    intro m q hm
    rw [ha.table] at hm
    by_cases hmn : m = n
    · subst hmn
      rw [update_self] at hm
      exact .inl ⟨rfl, (some.inj hm).symm⟩
    · rw [update_of_ne hmn] at hm
      refine .inr ⟨hm, hmn, ?_⟩
      rintro rfl
      exact hfresh m hm
  refine ⟨?_, ?_, ?_, ?_, ?_⟩
  · intro m hm
    have hne : m ≠ n := by
      have := ha.size.2
      omega
    rw [ha.table, update_of_ne hne]
    exact h.beyond m (ha.size.1.trans hm)
  · intro m q hm
    rcases htable hm with ⟨rfl, rfl⟩ | ⟨hm, -, hq⟩
    · refine ⟨hstorage.1, .inl ?_⟩
      rw [ha.storage, update_self]
      rfl
    · rw [ha.storage, update_of_ne hq]
      exact ⟨(h.entry hm).1.trans_le hstorage.2, (h.entry hm).2⟩
  · intro m m' q hm hm'
    rcases htable hm with ⟨rfl, rfl⟩ | ⟨hm, -, hq⟩
    · rcases htable hm' with ⟨rfl, -⟩ | ⟨-, -, hq⟩
      · rfl
      · exact absurd rfl hq
    · rcases htable hm' with ⟨-, rfl⟩ | ⟨hm', -, -⟩
      · exact absurd rfl hq
      · exact h.inj hm hm'
  · intro q hq
    obtain ⟨hfree, hne⟩ := hleft q hq
    refine ⟨(h.free hfree).1.trans_le hstorage.2, fun m hm => ?_⟩
    rcases htable hm with ⟨-, rfl⟩ | ⟨hm, -, -⟩
    · exact hne rfl
    · exact (h.free hfree).2 m hm
  · rcases ha.taken with ⟨hfree, -⟩ | ⟨-, hnil, -, -⟩
    · have hnodup := h.nodup
      rw [hfree] at hnodup
      exact (nodup_cons.1 hnodup).2
    · rw [hnil]
      exact nodup_nil

lemma release (hr : Released r n p r') (hp : r.table n = some p) : Shape r' := by
  refine ⟨?_, ?_, ?_, ?_, ?_⟩
  · intro m hm
    rw [hr.table, update_apply, h.beyond m (hr.tableSize ▸ hm), ite_self]
  · intro m q hm
    obtain ⟨ssl, hq⟩ := hr.storage q
    rw [hr.storageSize, hq]
    exact h.entry (hr.old hm).1
  · exact fun hm hm' => h.inj (hr.old hm).1 (hr.old hm').1
  · intro q hq
    rw [hr.freeList] at hq
    rw [hr.storageSize]
    rcases mem_cons.1 hq with rfl | hq
    · exact ⟨(h.entry hp).1, fun m hm => (hr.old hm).2 (h.inj (hr.old hm).1 hp)⟩
    · exact ⟨(h.free hq).1, fun m hm => (h.free hq).2 m (hr.old hm).1⟩
  · rw [hr.freeList]
    exact nodup_cons.2 ⟨fun hin => (h.free hin).2 n hp, h.nodup⟩

lemma put {t : Talk} (ho : Outcome (r.storage p) t) : Shape (r.put p t) := by
  refine h.later rfl rfl rfl rfl fun q => ?_
  by_cases hq : q = p
  · subst hq
    have hconn : (r.put q t).storage q = t.conn := update_self ..
    rw [hconn]
    rcases ho.fd with ⟨hsame, -⟩ | ⟨-, hclosed, -⟩
    · exact .inl hsame
    · exact .inr hclosed
  · exact .inl (congrArg Conn.fd (update_of_ne hq _ _))

lemma releaseConn (n : ℕ) : Shape (r.releaseConn n) := by
  cases hp : r.getConn n with
  | none =>
    rw [releaseConn_of_none hp]
    exact h
  | some => exact h.release (released_releaseConn hp) (h.getConn_eq n ▸ hp)

lemma sweeps (hs : Sweeps r r') : Shape r' := by
  induction hs with
  | refl => exact h
  | next _ _ hm ih => exact ih.put (outcome_of_moves hm)

lemma complete (i : ℕ) (sub : Submission) (env : Env) : Shape (r.complete i sub env) := by
  unfold Registry.complete
  split_ifs
  · exact h
  · exact h.later rfl rfl rfl rfl fun _ => .inl rfl

lemma change (hc : Change r e r') : Shape r' := by
  cases hc with
  | quiet => exact h
  | sweep hs => exact h.sweeps hs
  | attach n _ _ hm => exact (h.attach (attached_attachConn n r)).put (outcome_of_moves hm)
  | refuse n =>
    have hreleased := (h.attach (attached_attachConn n r)).releaseConn n
    exact hreleased.later rfl rfl rfl rfl fun _ => .inl rfl
  | closes => exact h.later rfl rfl rfl rfl fun _ => .inl rfl
  | drop i sub env => exact h.complete i sub env
  | handle i _ sub env _ _ _ _ _ _ hm =>
    refine (h.complete i sub env).put ?_
    rw [Registry.storage_complete]
    exact outcome_of_complete hm
  | release i sub =>
    have hcomplete : Shape { r with inflight := r.inflight.eraseIdx i } :=
      h.later rfl rfl rfl rfl fun _ => .inl rfl
    exact (hcomplete.releaseConn sub.number).later rfl rfl rfl rfl fun _ => .inl rfl

end

lemma initial : Shape {} := by
  refine ⟨fun _ _ => rfl, ?_, ?_, ?_, nodup_nil⟩
  · intro n p hp
    cases hp
  · intro n m p hp
    cases hp
  · intro p hp
    cases hp

end Shape

structure Stable (I : Registry → Prop) : Prop where
  fewer : ∀ {r l}, I r → (∀ s ∈ l, ∃ s' ∈ r.inflight, s'.number = s.number ∧ s'.owner = s.owner) →
    I { r with inflight := l }
  put : ∀ {r n p t}, I r → Shape r → r.table n = some p → Outcome (r.storage p) t → I (r.put p t)
  release : ∀ {r} n k, I r → Shape r → I ((r.releaseConn n).settle k)

namespace Stable

variable {I : Registry → Prop} {r r' : Registry}

lemma complete (hI : Stable I) (h : I r) (i : ℕ) (sub : Submission) (env : Env) :
    I (r.complete i sub env) := by
  unfold Registry.complete
  split_ifs
  · exact h
  · exact hI.fewer h fun s hs => ⟨s, mem_of_mem_eraseIdx hs, rfl, rfl⟩

lemma sweeps (hI : Stable I) (h : I r) (hshape : Shape r) (hs : Sweeps r r') : I r' := by
  induction hs with
  | refl => exact h
  | next hs hp hm ih =>
    have hshape' := hshape.sweeps hs
    exact hI.put ih hshape' (hshape'.getConn_eq _ ▸ hp) (outcome_of_moves hm)

lemma change (hI : Stable I) (h : I r) (hshape : Shape r) (hc : Change r e r')
    (hatt : ∀ n, e.number = some n → I (r.attachConn n).2) : I r' := by
  cases hc with
  | quiet => exact h
  | sweep hs => exact hI.sweeps h hshape hs
  | attach n t hnum hm =>
    have ha := attached_attachConn n r
    have hshape' := hshape.attach ha
    exact hI.put (hatt n hnum) hshape' (hshape'.getConn_eq n ▸ ha.getConn) (outcome_of_moves hm)
  | refuse n hnum =>
    exact hI.release n _ (hatt n hnum) (hshape.attach (attached_attachConn n r))
  | closes _ sub hsub =>
    refine hI.fewer h fun s hs => ?_
    rcases mem_or_eq_of_mem_set hs with hs | rfl
    · exact ⟨s, hs, rfl, rfl⟩
    · exact ⟨sub, mem_of_getElem? hsub, rfl, rfl⟩
  | drop i sub env => exact hI.complete h i sub env
  | handle i _ sub env _ _ _ _ hp _ hm =>
    refine hI.put (n := sub.number) (hI.complete h i sub env) (hshape.complete i sub env) ?_ ?_
    · rw [Registry.table_complete, ← hshape.getConn_eq]
      exact hp
    · rw [Registry.storage_complete]
      exact outcome_of_complete hm
  | release i sub =>
    refine hI.release _ _ (hI.fewer h fun s hs => ⟨s, mem_of_mem_eraseIdx hs, rfl, rfl⟩) ?_
    exact hshape.later rfl rfl rfl rfl fun _ => .inl rfl

end Stable

namespace Registry

variable {r r' : Registry} {n p : ℕ}

lemma entries_eq (h : Shape r) {size : ℕ} (hsize : r.tableSize ≤ size) :
    r.entries = ((Finset.range size).filter fun n => r.table n ≠ none).card := by
  unfold entries
  congr 1
  ext m
  simp only [Finset.mem_filter, Finset.mem_range]
  constructor
  · exact fun ⟨hm, hent⟩ => ⟨hm.trans_le hsize, hent⟩
  · exact fun ⟨_, hent⟩ => ⟨not_le.1 fun hm => hent (h.beyond m hm), hent⟩

lemma entries_attach (h : Shape r) (ha : Attached r n p r') (hnull : r.table n = none) :
    r'.entries = r.entries + 1 := by
  have hnew : (Finset.range r'.tableSize).filter (fun m => r'.table m ≠ none) =
      insert n ((Finset.range r'.tableSize).filter fun m => r.table m ≠ none) := by
    ext m
    rw [ha.table]
    by_cases hm : m = n
    · subst hm
      simp [ha.size.2]
    · simp [hm]
  rw [entries, hnew, Finset.card_insert_of_notMem (by simp [hnull]), ← entries_eq h ha.size.1]

lemma entries_release (h : Shape r) (hr : Released r n p r') (hp : r.table n = some p) :
    r'.entries = r.entries - 1 := by
  have hold : (Finset.range r'.tableSize).filter (fun m => r'.table m ≠ none) =
      ((Finset.range r.tableSize).filter fun m => r.table m ≠ none).erase n := by
    ext m
    rw [hr.table, hr.tableSize]
    by_cases hm : m = n
    · simp [hm]
    · simp [hm]
  have hin : n < r.tableSize := not_le.1 fun hn => by simp [h.beyond n hn] at hp
  rw [entries, hold, Finset.card_erase_of_mem (by simp [hin, hp]), entries]

end Registry

def Registry.closes (r : Registry) : List (ℕ × ℕ) :=
  (r.inflight.filter (·.op = .close)).map fun s => (s.number, s.owner)

structure Held (r : Registry) : Prop where
  shape : Shape r
  live : r.liveConns = r.entries
  listed : ∀ {n p}, r.table n = some p → ⟨(r.storage p).serial, n⟩ ∈ r.accepted
  own : ∀ a ∈ r.accepted, ∃ p, r.table a.number = some p ∧ (r.storage p).serial = a.serial
  fresh : ∀ a ∈ r.accepted, a.serial < r.accepts
  unique : ∀ a ∈ r.accepted, ∀ b ∈ r.accepted, a.serial = b.serial → a = b
  closing : ∀ k ∈ r.closes, ∃ p, r.table k.1 = some p ∧ (r.storage p).serial = k.2 ∧
    (r.storage p).fd = -1
  once : (r.closes.map Prod.snd).Nodup

namespace Held

variable {r r' : Registry} {n p : ℕ}

lemma initial : Held {} := by
  refine ⟨Shape.initial, rfl, ?_, ?_, ?_, ?_, ?_, nodup_nil⟩
  · intro n p hp
    cases hp
  all_goals
    intro a ha
    cases ha

section

variable (h : Held r)
include h

lemma tabled : Tabled r := by
  refine ⟨?_, ?_, h.live, ?_⟩
  · intro a ha
    rw [h.shape.getConn_eq]
    exact h.own a ha
  · intro a ha b hb hnum
    obtain ⟨p, hp, hser⟩ := h.own a ha
    obtain ⟨q, hq, hser'⟩ := h.own b hb
    rw [hnum, hq] at hp
    cases hp
    exact h.unique a ha b hb (hser.symm.trans hser')
  · intro p hp n
    rw [h.shape.getConn_eq]
    exact (h.shape.free hp).2 n

lemma serial_inj {m q : ℕ} (hp : r.table n = some p) (hq : r.table m = some q)
    (hser : (r.storage p).serial = (r.storage q).serial) : n = m ∧ p = q := by
  have hsame := h.unique _ (h.listed hp) _ (h.listed hq) hser
  have hnum : n = m := congrArg Accepted.number hsame
  subst hnum
  rw [hp] at hq
  exact ⟨rfl, some.inj hq⟩

lemma fewer {l : List Submission}
    (hsub : Registry.closes { r with inflight := l } |>.Sublist r.closes) :
    Held { r with inflight := l } := by
  refine ⟨h.shape.later rfl rfl rfl rfl fun _ => .inl rfl, h.live, h.listed, h.own, h.fresh,
    h.unique, ?_, ?_⟩
  · exact fun k hk => h.closing k (hsub.subset hk)
  · exact h.once.sublist (hsub.map Prod.snd)

lemma complete (i : ℕ) (sub : Submission) (env : Env) : Held (r.complete i sub env) := by
  unfold Registry.complete
  split_ifs
  · exact h
  · exact h.fewer (((eraseIdx_sublist ..).filter _).map _)

lemma put {t : Talk} (hp : r.table n = some p) (ho : Outcome (r.storage p) t) :
    Held (r.put p t) := by
  have hconn : (r.put p t).storage p = t.conn := update_self ..
  have hoth : ∀ {q}, q ≠ p → (r.put p t).storage q = r.storage q :=
    fun hq => update_of_ne hq _ _
  have hser : ∀ q, ((r.put p t).storage q).serial = (r.storage q).serial := ho.serial_put
  have hcloses : (r.put p t).closes =
      r.closes ++ (t.submitted.filter (·.op = .close)).map fun s => (s.number, s.owner) := by
    simp only [Registry.closes, Registry.put, filter_append, map_append]
  -- A connection that is closed stays so.
  have hstill : ∀ k ∈ r.closes, ∃ q, (r.put p t).table k.1 = some q ∧
      ((r.put p t).storage q).serial = k.2 ∧ ((r.put p t).storage q).fd = -1 := by
    intro k hk
    obtain ⟨q, hq, hk, hfd⟩ := h.closing k hk
    refine ⟨q, hq, (hser q).trans hk, ?_⟩
    by_cases hqp : q = p
    · subst hqp
      rw [hconn]
      rcases ho.fd with ⟨hsame, -⟩ | ⟨-, hclosed, -⟩
      · exact hsame.trans hfd
      · exact hclosed
    · rw [hoth hqp]
      exact hfd
  have hbase : (r.put p t).closes = r.closes ∨ ∃ s : Submission, s.owner = (r.storage p).serial ∧
      s.number = n ∧ 0 ≤ (r.storage p).fd ∧ t.conn.fd = -1 ∧
      (r.put p t).closes = r.closes ++ [(s.number, s.owner)] := by
    rw [hcloses]
    rcases ho.fd with ⟨-, hopen⟩ | ⟨hfd, hclosed, s, l, hsubmit, hop, hl⟩
    · left
      rw [filter_eq_nil_iff.2 fun s hs => by simpa using hopen s hs, map_nil,
        append_nil]
    · right
      obtain ⟨hown, hnum⟩ := ho.mine s (by simp [hsubmit])
      refine ⟨s, hown, ?_, hfd, hclosed, ?_⟩
      · rcases (h.shape.entry hp).2 with hn | hn <;> omega
      · rw [hsubmit, filter_append, filter_eq_nil_iff.2 fun s hs => by simpa using hl s hs]
        simp [hop]
  refine ⟨h.shape.put ho, h.live, ?_, ?_, h.fresh, h.unique, ?_, ?_⟩
  · intro m q hq
    rw [hser]
    exact h.listed hq
  · intro a ha
    obtain ⟨q, hq, hser'⟩ := h.own a ha
    exact ⟨q, hq, (hser q).trans hser'⟩
  · rcases hbase with hsame | ⟨s, hown, hnum, -, hclosed, hnew⟩
    · rw [hsame]
      exact hstill
    · rw [hnew]
      intro k hk
      rcases mem_append.1 hk with hk | hk
      · exact hstill k hk
      · rw [mem_singleton.1 hk]
        exact ⟨p, hnum ▸ hp, (hser p).trans hown.symm, hconn ▸ hclosed⟩
  · rcases hbase with hsame | ⟨s, hown, hnum, hfd, -, hnew⟩
    · rw [hsame]
      exact h.once
    · rw [hnew, map_append]
      refine nodup_append.2 ⟨h.once, nodup_singleton _, ?_⟩
      -- Another Close of the connection would mean that it is closed already.
      rintro _ hk _ hs rfl
      obtain ⟨k, hk, hk'⟩ := mem_map.1 hk
      obtain ⟨q, hq, hser', hclosed⟩ := h.closing k hk
      rw [map_singleton, mem_singleton] at hs
      have hsame := h.serial_inj hq hp (by rw [hser', hk', hs, hown])
      rw [hsame.2] at hclosed
      omega

lemma sweeps (hs : Sweeps r r') : Held r' := by
  induction hs with
  | refl => exact h
  | next _ hp hm ih => exact ih.put (ih.shape.getConn_eq _ ▸ hp) (outcome_of_moves hm)

lemma attach (ha : Attached r n p r') (hnull : r.table n = none) : Held r' := by
  have hfresh := h.shape.fresh ha
  -- The other entries and their connections are as before.
  have hold : ∀ {m q}, r.table m = some q → r'.table m = some q ∧ r'.storage q = r.storage q := by
    intro m q hq
    have hm : m ≠ n := by
      rintro rfl
      rw [hnull] at hq
      cases hq
    have hqp : q ≠ p := by
      rintro rfl
      exact hfresh m hq
    rw [ha.table, update_of_ne hm, ha.storage, update_of_ne hqp]
    exact ⟨hq, rfl⟩
  have hcloses : r'.closes = r.closes := by
    unfold Registry.closes
    rw [ha.inflight]
  have hser : (r'.storage p).serial = r.accepts := congrArg Conn.serial ha.conn
  refine ⟨h.shape.attach ha, ?_, ?_, ?_, ?_, ?_, ?_, ?_⟩
  · rw [ha.liveConns, h.live, Registry.entries_attach h.shape ha hnull]
  · intro m q hq
    rw [ha.accepted]
    by_cases hm : m = n
    · subst hm
      rw [ha.table, update_self] at hq
      cases hq
      rw [hser]
      exact mem_cons_self
    · rw [ha.table, update_of_ne hm] at hq
      rw [(hold hq).2]
      exact mem_cons_of_mem _ (h.listed hq)
  · intro a hin
    rw [ha.accepted] at hin
    rcases mem_cons.1 hin with rfl | hin
    · exact ⟨p, by rw [ha.table, update_self], hser⟩
    · obtain ⟨q, hq, hser'⟩ := h.own a hin
      exact ⟨q, (hold hq).1, (hold hq).2 ▸ hser'⟩
  · intro a hin
    rw [ha.accepted] at hin
    rw [ha.accepts]
    rcases mem_cons.1 hin with rfl | hin
    · exact Nat.lt_succ_self _
    · exact (h.fresh a hin).trans (Nat.lt_succ_self _)
  · intro a hin b hin' hsame
    rw [ha.accepted] at hin hin'
    rcases mem_cons.1 hin with rfl | hin
    · rcases mem_cons.1 hin' with rfl | hin'
      · rfl
      · exact absurd hsame (h.fresh b hin').ne'
    · rcases mem_cons.1 hin' with rfl | hin'
      · exact absurd hsame (h.fresh a hin).ne
      · exact h.unique a hin b hin' hsame
  · intro k hk
    rw [hcloses] at hk
    obtain ⟨q, hq, hk⟩ := h.closing k hk
    exact ⟨q, (hold hq).1, (hold hq).2 ▸ hk⟩
  · rw [hcloses]
    exact h.once

lemma release (hr : Released r n p r') (hp : r.table n = some p)
    (hno : ∀ k ∈ r.closes, k.1 ≠ n) : Held (r'.settle (r.storage p).serial) := by
  have hconn : ∀ q, (r'.storage q).serial = (r.storage q).serial ∧
      (r'.storage q).fd = (r.storage q).fd := by
    intro q
    obtain ⟨ssl, hq⟩ := hr.storage q
    rw [hq]
    exact ⟨rfl, rfl⟩
  have hcloses : (r'.settle (r.storage p).serial).closes = r.closes := by
    unfold Registry.closes Registry.settle
    rw [hr.inflight]
  have hset : ∀ {a}, a ∈ (r'.settle (r.storage p).serial).accepted ↔
      a ∈ r.accepted ∧ a.serial ≠ (r.storage p).serial := by
    intro a
    simp [Registry.settle, hr.accepted]
  refine ⟨(h.shape.release hr hp).later rfl rfl rfl rfl fun _ => .inl rfl, ?_, ?_, ?_, ?_,
    ?_, ?_, ?_⟩
  · have hent : (r'.settle (r.storage p).serial).entries = r'.entries := rfl
    rw [hent, Registry.entries_release h.shape hr hp, ← h.live]
    exact hr.liveConns
  · intro m q hq
    obtain ⟨hq, hm⟩ := hr.old hq
    refine hset.2 ⟨?_, fun hsame => hm (h.serial_inj hq hp ((hconn q).1 ▸ hsame)).1⟩
    have hlisted := h.listed hq
    rw [← (hconn q).1] at hlisted
    exact hlisted
  · intro a ha
    obtain ⟨hin, hne⟩ := hset.1 ha
    obtain ⟨q, hq, hser⟩ := h.own a hin
    have hm : a.number ≠ n := by
      intro hm
      rw [hm, hp] at hq
      cases hq
      exact hne hser.symm
    refine ⟨q, ?_, (hconn q).1.trans hser⟩
    have htable : (r'.settle (r.storage p).serial).table = r'.table := rfl
    rw [htable, hr.table, update_of_ne hm, hq]
  · intro a ha
    have hacc : (r'.settle (r.storage p).serial).accepts = r.accepts := hr.accepts
    rw [hacc]
    exact h.fresh a (hset.1 ha).1
  · exact fun a ha b hb => h.unique a (hset.1 ha).1 b (hset.1 hb).1
  · intro k hk
    rw [hcloses] at hk
    obtain ⟨q, hq, hser, hfd⟩ := h.closing k hk
    refine ⟨q, ?_, (hconn q).1.trans hser, (hconn q).2.trans hfd⟩
    have htable : (r'.settle (r.storage p).serial).table = r'.table := rfl
    rw [htable, hr.table, update_of_ne (hno k hk), hq]
  · rw [hcloses]
    exact h.once

end

lemma closes_eraseIdx {i : ℕ} {sub : Submission} (hsub : r.inflight[i]? = some sub)
    (hop : sub.op = .close) :
    ((sub.number, sub.owner) :: Registry.closes { r with inflight := r.inflight.eraseIdx i }).Perm
      r.closes := by
  obtain ⟨hi, hsub⟩ := List.getElem?_eq_some_iff.1 hsub
  have hperm := ((List.getElem_cons_eraseIdx_perm hi).filter (·.op = .close)).map
    fun s => (s.number, s.owner)
  rw [hsub, filter_cons_of_pos (by simp [hop]), map_cons] at hperm
  exact hperm

lemma closes_set {i : ℕ} {sub : Submission} (hsub : r.inflight[i]? = some sub) :
    Registry.closes { r with inflight := r.inflight.set i { sub with executed := true } }
      = r.closes := by
  have hset : ∀ (l : List Submission) (i : ℕ), l[i]? = some sub →
      ((l.set i { sub with executed := true }).filter (·.op = .close)).map
          (fun s => (s.number, s.owner)) =
        (l.filter (·.op = .close)).map fun s => (s.number, s.owner) := by
    intro l
    induction l with
    | nil => simp
    | cons s l ih =>
      intro i hi
      cases i with
      | zero =>
        cases hi
        by_cases hop : sub.op = .close <;> simp [hop]
      | succ i =>
        have hrest := ih i hi
        by_cases hop : s.op = .close <;> simp [hop, hrest]
  exact hset _ i hsub

lemma change (h : Held r) (hc : Change r e r')
    (hnull : ∀ n, e.number = some n → r.table n = none) : Held r' := by
  cases hc with
  | quiet => exact h
  | sweep hs => exact h.sweeps hs
  | attach n t hnum hm =>
    have ha := attached_attachConn n r
    have hheld := h.attach ha (hnull n hnum)
    exact hheld.put (hheld.shape.getConn_eq n ▸ ha.getConn) (outcome_of_moves hm)
  | refuse n hnum =>
    have ha := attached_attachConn n r
    have hheld := h.attach ha (hnull n hnum)
    have hser : ((r.attachConn n).2.storage (r.attachConn n).1).serial = r.accepts :=
      congrArg Conn.serial ha.conn
    rw [← hser]
    refine hheld.release (released_releaseConn ha.getConn)
      (hheld.shape.getConn_eq n ▸ ha.getConn) fun k hk hkn => ?_
    -- The Closes in hand are about entries that are not null.
    rw [Registry.closes, ha.inflight] at hk
    obtain ⟨q, hq, -⟩ := h.closing k hk
    rw [hkn, hnull n hnum] at hq
    cases hq
  | closes _ _ hsub =>
    refine h.fewer ?_
    rw [closes_set hsub]
  | drop i sub env => exact h.complete i sub env
  | handle i _ sub env _ _ _ _ hp _ hm =>
    have hcomplete := h.complete i sub env
    refine hcomplete.put (n := sub.number) ?_ ?_
    · rw [Registry.table_complete, ← h.shape.getConn_eq]
      exact hp
    · rw [Registry.storage_complete]
      exact outcome_of_complete hm
  | release i sub hsub hop =>
    have hperm := closes_eraseIdx hsub hop
    have hcomplete : Held { r with inflight := r.inflight.eraseIdx i } :=
      h.fewer (((eraseIdx_sublist ..).filter _).map _)
    obtain ⟨p, hp, hser, -⟩ := h.closing _ (hperm.subset mem_cons_self)
    have hreleased : Released { r with inflight := r.inflight.eraseIdx i } sub.number p _ :=
      released_releaseConn (hcomplete.shape.getConn_eq _ ▸ hp)
    have hheld := hcomplete.release hreleased hp fun k hk hkn => ?_
    · rw [hser] at hheld
      exact hheld
    · -- Another Close with the number would have the same owner.
      obtain ⟨q, hq, hser', -⟩ := h.closing k (hperm.subset (mem_cons_of_mem _ hk))
      rw [hkn, hp] at hq
      cases hq
      have hnodup := (hperm.map Prod.snd).nodup_iff.2 h.once
      refine (nodup_cons.1 hnodup).1 (mem_map.2 ⟨k, hk, ?_⟩)
      exact hser'.symm.trans hser

end Held

def vacant (w : Worker) (e : Event) : Bool := (e.number.bind w.getConn).isNone

lemma Held.step {cfg : ServerConfig} {w w' : Worker} (h : Held w.toRegistry)
    (hok : vacant w e) (hstep : step cfg w e = some w') : Held w'.toRegistry := by
  refine h.change (change_of_step hstep) fun n hn => ?_
  unfold vacant at hok
  rw [hn, bind_some, isNone_iff_eq_none, h.shape.getConn_eq] at hok
  exact hok

theorem tabled_of_vacant (cfg : ServerConfig) (es : List Event) (w : Worker)
    (hrun : Runs.run (step cfg) {} es = some w)
    (hok : Runs.Meets (step cfg) (fun w e => vacant w e = true) {} es) : Tabled w.toRegistry := by
  have hheld : Held w.toRegistry :=
    Runs.run_induction (I := fun w => Held w.toRegistry) Held.step Held.initial hok hrun
  exact hheld.tabled

def usual : ServerConfig := ⟨1048576, 10, 30, 60, 30, true⟩

def twoListeners : List Event :=
  [.accept 5 {}, .tlsAccept 7 true {}, .complete 0 { res := 0 }, .closes 1, .complete 1 {},
    .accept 5 {}]

theorem tabled_twoListeners : ∃ w, Runs.run (step usual) {} twoListeners = some w ∧
    Tabled w.toRegistry := by
  have hsome : (Runs.run (step usual) {} twoListeners).isSome = true := by decide +kernel
  obtain ⟨w, hw⟩ := isSome_iff_exists.1 hsome
  refine ⟨w, hw, tabled_of_vacant usual twoListeners w hw ?_⟩
  exact Runs.meets_of_meetsAll (by decide +kernel)

def sameNumber : List Event := [.accept 5 {}, .tlsAccept 5 true {}]

theorem not_tabled_sameNumber : ∃ w, Runs.run (step usual) {} sameNumber = some w ∧
    w.accepted = [⟨1, 5⟩, ⟨0, 5⟩] ∧ w.liveConns = 2 ∧ w.entries = 1 ∧ ¬ Tabled w.toRegistry := by
  have hrun : (Runs.run (step usual) {} sameNumber).map
      (fun w => (w.accepted, w.liveConns, w.entries)) = some ([⟨1, 5⟩, ⟨0, 5⟩], 2, 1) := by
    decide +kernel
  obtain ⟨w, hw, hstate⟩ := map_eq_some_iff.1 hrun
  obtain ⟨haccepted, hlive, hentries⟩ : w.accepted = [⟨1, 5⟩, ⟨0, 5⟩] ∧ w.liveConns = 2 ∧
      w.entries = 1 := by
    simpa using hstate
  refine ⟨w, hw, haccepted, hlive, hentries, fun h => ?_⟩
  have hlive' := h.live
  omega

end SpidoNG.Uring
