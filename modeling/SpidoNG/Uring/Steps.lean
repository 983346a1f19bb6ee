import SpidoNG.Lib.Runs
import SpidoNG.Uring.Moves
import SpidoNG.Uring.Worker

/-!
# What a step does to the registry

A step attaches, releases or visits connections, or hands a completion to one (`Change`).
-/

namespace SpidoNG.Uring

open List Function Registry

variable {cfg : ServerConfig} {w w' : Worker} {r r' : Registry}

inductive Sweeps (r : Registry) : Registry → Prop
  | refl : Sweeps r r
  | next {r' : Registry} {n p : ℕ} {t : Talk} (h : Sweeps r r') (hp : r'.getConn n = some p)
      (hm : Moves False ⟨r'.storage p, []⟩ t) : Sweeps r (r'.put p t)

lemma Sweeps.table_eq (h : Sweeps r r') : r'.table = r.table ∧ r'.tableSize = r.tableSize := by
  induction h with
  | refl => exact ⟨rfl, rfl⟩
  | next _ _ _ ih => exact ih

open Worker

lemma sweeps_overTable {f : Talk → Talk} (hf : ∀ {t}, Moves False t (f t)) (w : Worker) :
    Sweeps w.toRegistry (w.overTable f).toRegistry := by
  -- The table stays as it is, so the places visited are those of the beginning.
  have hfold : ∀ (l : List ℕ) (w' : Worker), (∀ n ∈ l, n < w.tableSize) →
      Sweeps w.toRegistry w'.toRegistry →
      Sweeps w.toRegistry (l.foldl (visitEntry f) w').toRegistry := by
    intro l
    induction l with
    | nil => exact fun w' _ h => h
    | cons n l ih =>
      intro w' hl h
      refine ih _ (fun m hm => hl m (mem_cons_of_mem n hm)) ?_
      unfold visitEntry
      split
      · exact h
      · rename_i p hp
        refine .next h (n := n) ?_ hf
        rw [Registry.getConn, if_pos (h.table_eq.2 ▸ hl n mem_cons_self), hp]
  exact hfold _ w (fun n hn => mem_range.1 hn) .refl

def Event.number : Event → Option ℕ
  | .accept n _ => some n
  | .tlsAccept n _ _ => some n
  | _ => none

def Conn.complete (sub : Submission) (env : Env) (c : Conn) : Conn :=
  if sub.op = .send then c.acknowledge sub.range env else c

def Registry.complete (i : ℕ) (sub : Submission) (env : Env) (r : Registry) : Registry :=
  if sub.op = .recv ∧ env.more = true then r else { r with inflight := r.inflight.eraseIdx i }

lemma Registry.storage_complete (i : ℕ) (sub : Submission) (env : Env) (r : Registry) :
    (r.complete i sub env).storage = r.storage := by
  unfold complete
  split_ifs <;> rfl

lemma Registry.table_complete (i : ℕ) (sub : Submission) (env : Env) (r : Registry) :
    (r.complete i sub env).table = r.table := by
  unfold complete
  split_ifs <;> rfl

inductive Change (r : Registry) (e : Event) : Registry → Prop
  | quiet : Change r e r
  | sweep {r' : Registry} (hsweeps : Sweeps r r') : Change r e r'
  | attach (n : ℕ) (t : Talk) (hnumber : e.number = some n)
      (hm : Moves False ⟨(r.attachConn n).2.storage (r.attachConn n).1, []⟩ t) :
      Change r e ((r.attachConn n).2.put (r.attachConn n).1 t)
  | refuse (n : ℕ) (hnumber : e.number = some n) :
      Change r e (((r.attachConn n).2.releaseConn n).settle r.accepts)
  | closes (i : ℕ) (sub : Submission) (hsub : r.inflight[i]? = some sub) (hop : sub.op = .close) :
      Change r e { r with inflight := r.inflight.set i { sub with executed := true } }
  | drop (i : ℕ) (sub : Submission) (env : Env) (hsub : r.inflight[i]? = some sub)
      (hop : sub.op ≠ .close) (hp : r.getConn sub.number = none) : Change r e (r.complete i sub env)
  | handle (i p : ℕ) (sub : Submission) (env : Env) (t : Talk) (he : e = .complete i env)
      (hsub : r.inflight[i]? = some sub) (hop : sub.op ≠ .close)
        (hp : r.getConn sub.number = some p)
      (hres : sub.op = .send → env.res ≤ sub.range.length)
      (hm : Moves (sub.op = .recv ∧ 0 < env.res ∧ (r.storage p).wantClose = true)
        ⟨(r.storage p).complete sub env, []⟩ t) :
      Change r e ((r.complete i sub env).put p t)
  | release (i : ℕ) (sub : Submission) (hsub : r.inflight[i]? = some sub) (hop : sub.op = .close) :
      Change r e ((({ r with inflight := r.inflight.eraseIdx i } : Registry).releaseConn
        sub.number).settle sub.owner)

variable {sub : Submission} {env : Env} {p : ℕ}

lemma moves_handler (hop : sub.op ≠ .close) (stop : Bool) (env : Env) (c : Conn) :
    Moves (sub.op = .recv ∧ 0 < env.res ∧ c.wantClose) ⟨c.complete sub env, []⟩
      (handler cfg stop env sub ⟨c, []⟩) := by
  unfold handler Conn.complete
  cases hsub : sub.op with
  | close => exact absurd hsub hop
  | recv =>
    refine moves_handleRecv fun hres => ?_
    cases hwant : c.wantClose with
    | false => exact .inr hwant
    | true => exact .inl ⟨rfl, hres, rfl⟩
  | send =>
    rw [if_pos rfl]
    exact moves_handleSend (t := ⟨c, []⟩) sub.range
  | tlsHandshakePoll => exact moves_handleTlsPoll

lemma moves_handleAccept (env : Env) (t : Talk) : Moves False t ((t.modify fun c =>
      Conn.setDeadline cfg env.now .headers { c with fixedFile := cfg.filesRegistered }).submitRecv
        cfg) := Moves.trans (moves_touch {}) moves_submitRecv

lemma moves_handleTlsAccept (env : Env) (stop : Bool) (t : Talk) :
    Moves False t ((t.modify fun c =>
      Conn.setDeadline cfg env.now .headers
        { c with ssl := true, tlsPending := true }).driveTlsHandshake
        cfg stop env) := Moves.trans (moves_touch {}) moves_driveTlsHandshake

lemma dispatch_none (hop : sub.op ≠ .close)
    (hp : w.getConn sub.number = none) : w.dispatch cfg env sub = w := by
  unfold dispatch
  rw [hp]
  cases hsub : sub.op with
  | close => exact absurd hsub hop
  | recv | send | tlsHandshakePoll => rfl

lemma dispatch_some (hop : sub.op ≠ .close) (hp : w.getConn sub.number = some p) :
    w.dispatch cfg env sub = w.visit p (handler cfg w.stop env sub) := by
  unfold dispatch
  rw [hp]
  cases hsub : sub.op with
  | close => exact absurd hsub hop
  | recv | send | tlsHandshakePoll => rfl

lemma change_of_dispatch {i : ℕ} {w₀ : Worker}
    (hsub : w.inflight[i]? = some sub) (hres : sub.op = .send → env.res ≤ sub.range.length)
    (hw₀ : w₀.toRegistry = w.toRegistry.complete i sub env) :
    Change w.toRegistry (.complete i env) (w₀.dispatch cfg env sub).toRegistry := by
  by_cases hcl : sub.op = .close
  · have hfree : w₀.toRegistry = { w.toRegistry with inflight := w.inflight.eraseIdx i } := by
      rw [hw₀, complete, if_neg (by simp [hcl])]
    unfold dispatch
    rw [hcl]
    rw [hfree]
    exact .release i sub hsub hcl
  · -- Only the operations in hand have changed.
    have hconn : w₀.getConn sub.number = w.getConn sub.number ∧ w₀.storage = w.storage := by
      rw [hw₀]
      unfold complete
      split_ifs <;> exact ⟨rfl, rfl⟩
    cases hp : w.getConn sub.number with
    | none =>
      rw [dispatch_none hcl (hconn.1.trans hp), hw₀]
      exact .drop i sub env hsub hcl hp
    | some p =>
      rw [dispatch_some hcl (hconn.1.trans hp)]
      dsimp only [visit]
      rw [hconn.2, hw₀]
      exact .handle i p sub env _ rfl hsub hcl hp hres (moves_handler hcl _ env _)

lemma change_of_step {e : Event} (h : step cfg w e = some w') :
    Change w.toRegistry e w'.toRegistry := by
  cases e with
  | accept n env =>
    simp only [step] at h
    split_ifs at h with hused hslot
    · cases h
      exact .attach n _ rfl (moves_handleAccept env _)
    · cases h
      exact .attach n _ rfl (moves_handleAccept env _)
  | tlsAccept n session env =>
    simp only [step] at h
    split_ifs at h with hused
    cases h
    cases session with
    | true => exact .attach n _ rfl (moves_handleTlsAccept env _ _)
    | false => exact .refuse n rfl
  | closes i =>
    simp only [step] at h
    split at h
    · cases h
    · rename_i sub hsub
      split_ifs at h with hop hdirect
      all_goals
        push Not at hop
        cases h
        exact .closes i sub hsub hop.1
  | complete =>
    simp only [step] at h
    split at h
    · cases h
    · rename_i sub hsub
      split_ifs at h with hmuch hmore
      all_goals
        cases h
        refine change_of_dispatch hsub (fun hsend => not_lt.1 fun hlt => hmuch ⟨hsend, hlt⟩) ?_
        unfold complete
      · rw [if_pos hmore]
      · rw [if_neg hmore]
  | timer now =>
    cases h
    split_ifs
    · exact .quiet
    · exact .sweep (sweeps_overTable (moves_sweepDeadline now) w)
  | stop =>
    cases h
    exact .quiet
  | eventfd =>
    cases h
    split_ifs
    · exact .sweep (sweeps_overTable moves_abort w)
    · exact .quiet

structure Outcome (c : Conn) (t : Talk) : Prop where
  serial : t.conn.serial = c.serial
  mine : ∀ s ∈ t.submitted, s.owner = c.serial ∧ (s.number : ℤ) = c.fd
  fd : (t.conn.fd = c.fd ∧ ∀ s ∈ t.submitted, s.op ≠ .close) ∨
    (0 ≤ c.fd ∧ t.conn.fd = -1 ∧ ∃ s l, t.submitted = l ++ [s] ∧ s.op = .close ∧
      ∀ s' ∈ l, s'.op ≠ .close)

namespace Outcome

variable {late : Prop} {c : Conn} {t t' : Talk}

lemma touch (h : Outcome c t) (hfd : t'.conn.fd = t.conn.fd) (hser : t'.conn.serial = t.conn.serial)
    (hsub : t'.submitted = t.submitted) : Outcome c t' := by
  refine ⟨hser.trans h.serial, ?_, ?_⟩
  · rw [hsub]
    exact h.mine
  · rw [hsub, hfd]
    exact h.fd

lemma submit (h : Outcome c t) {op : Op} (range : Span) (hop : op ≠ .close) (hfd : 0 ≤ t.conn.fd) :
    Outcome c (t.submit op range) := by
  obtain ⟨hsame, hopen⟩ := h.fd.resolve_right fun hclosed => by omega
  refine ⟨h.serial, ?_, .inl ⟨hsame, ?_⟩⟩
  · intro s hs
    rcases mem_append.1 hs with hs | hs
    · exact h.mine s hs
    · rw [mem_singleton.1 hs]
      exact ⟨h.serial, (Int.toNat_of_nonneg hfd).trans hsame⟩
  · intro s hs
    rcases mem_append.1 hs with hs | hs
    · exact hopen s hs
    · rw [mem_singleton.1 hs]
      exact hop

lemma close (h : Outcome c t) (hfd : 0 ≤ t.conn.fd) : Outcome c t.startClose := by
  obtain ⟨hsame, hopen⟩ := h.fd.resolve_right fun hclosed => by omega
  refine ⟨h.serial, ?_, .inr ⟨hsame ▸ hfd, rfl, _, t.submitted, rfl, rfl, hopen⟩⟩
  intro s hs
  rcases mem_append.1 hs with hs | hs
  · exact h.mine s hs
  · rw [mem_singleton.1 hs]
    exact ⟨h.serial, (Int.toNat_of_nonneg hfd).trans hsame⟩

lemma serial_put (h : Outcome (r.storage p) t) (q : ℕ) :
    ((r.put p t).storage q).serial = (r.storage q).serial := by
  by_cases hq : q = p
  · subst hq
    exact (congrArg Conn.serial (update_self ..)).trans h.serial
  · exact congrArg Conn.serial (update_of_ne hq _ _)

end Outcome

lemma outcome_of_moves {late : Prop} {c : Conn} {t : Talk} (h : Moves late ⟨c, []⟩ t) :
    Outcome c t := by
  induction h with
  | refl => exact ⟨rfl, by simp, .inl ⟨rfl, by simp⟩⟩
  | touch f hf _ ih => exact ih.touch hf.fd hf.serial rfl
  | request _ _ _ ih | answer _ _ _ ih | decideClose _ ih | reopen _ _ ih | drain _ _ ih
  | shutdown _ ih => exact ih.touch rfl rfl rfl
  | submit hop hfd _ ih => exact ih.submit {} hop.1 hfd
  | send _ hfd _ _ ih => exact (ih.submit _ (by decide) hfd).touch rfl rfl rfl
  | close hfd _ ih => exact ih.close hfd

lemma outcome_of_complete {late : Prop} {c : Conn} {t : Talk}
    (h : Moves late ⟨c.complete sub env, []⟩ t) : Outcome c t := by
  have hsame : (c.complete sub env).fd = c.fd ∧ (c.complete sub env).serial = c.serial := by
    unfold Conn.complete
    split_ifs <;> exact ⟨rfl, rfl⟩
  obtain ⟨hser, hmine, hfd⟩ := outcome_of_moves h
  rw [hsame.1, hsame.2] at hmine
  rw [hsame.1] at hfd
  exact ⟨hser.trans hsame.2, hmine, hfd⟩

structure Attached (r : Registry) (n p : ℕ) (r' : Registry) : Prop where
  table : r'.table = update r.table n (some p)
  size : r.tableSize ≤ r'.tableSize ∧ n < r'.tableSize
  storage : r'.storage = update r.storage p ((r.storage p).reset n r.accepts)
  liveConns : r'.liveConns = r.liveConns + 1
  inflight : r'.inflight = r.inflight
  accepts : r'.accepts = r.accepts + 1
  accepted : r'.accepted = ⟨r.accepts, n⟩ :: r.accepted
  taken : (r.freeList = p :: r'.freeList ∧ r'.storageSize = r.storageSize) ∨
    (r.freeList = [] ∧ r'.freeList = [] ∧ p = r.storageSize ∧ r'.storageSize = r.storageSize + 1)

lemma takeConn_cases (r : Registry) :
    (∃ p rest, r.freeList = p :: rest ∧ r.takeConn = (p, { r with freeList := rest })) ∨
      (r.freeList = [] ∧
        r.takeConn = (r.storageSize, { r with storageSize := r.storageSize + 1 })) := by
  unfold takeConn
  split
  · rename_i p rest hfree
    exact .inl ⟨p, rest, hfree, rfl⟩
  · rename_i hfree
    exact .inr ⟨hfree, rfl⟩

lemma attached_attachConn (n : ℕ) (r : Registry) :
    Attached r n (r.attachConn n).1 (r.attachConn n).2 := by
  dsimp only [attachConn]
  rcases takeConn_cases r with ⟨p, rest, hfree, htake⟩ | ⟨hfree, htake⟩
  · rw [htake]
    refine ⟨rfl, ?_, rfl, rfl, rfl, rfl, rfl, .inl ⟨hfree, rfl⟩⟩
    dsimp only
    split_ifs <;> omega
  · rw [htake]
    refine ⟨rfl, ?_, rfl, rfl, rfl, rfl, rfl, .inr ⟨hfree, hfree, rfl, rfl⟩⟩
    dsimp only
    split_ifs <;> omega

variable {n m q : ℕ}

lemma Attached.getConn (h : Attached r n p r') : r'.getConn n = some p := by
  rw [Registry.getConn, if_pos h.size.2, h.table, update_self]

lemma Attached.conn (h : Attached r n p r') : r'.storage p = (r.storage p).reset n r.accepts := by
  rw [h.storage, update_self]

structure Released (r : Registry) (n p : ℕ) (r' : Registry) : Prop where
  table : r'.table = update r.table n none
  tableSize : r'.tableSize = r.tableSize
  storage : ∀ q, ∃ ssl, r'.storage q = { r.storage q with ssl := ssl }
  storageSize : r'.storageSize = r.storageSize
  freeList : r'.freeList = p :: r.freeList
  liveConns : r'.liveConns = r.liveConns - 1
  inflight : r'.inflight = r.inflight
  accepts : r'.accepts = r.accepts
  accepted : r'.accepted = r.accepted

lemma Released.old (hr : Released r n p r') (hm : r'.table m = some q) :
    r.table m = some q ∧ m ≠ n := by
  rw [hr.table] at hm
  have hne : m ≠ n := by
    rintro rfl
    rw [update_self] at hm
    cases hm
  rw [update_of_ne hne] at hm
  exact ⟨hm, hne⟩

lemma released_releaseConn (hp : r.getConn n = some p) : Released r n p (r.releaseConn n) := by
  unfold releaseConn
  rw [hp]
  refine ⟨rfl, rfl, fun q => ?_, rfl, rfl, rfl, rfl, rfl, rfl⟩
  by_cases hq : q = p
  · subst hq
    exact ⟨false, update_self ..⟩
  · exact ⟨(r.storage q).ssl, update_of_ne hq _ _⟩

lemma Released.entry (h : Released r n p r') (hq : r'.table m = some q) : r.table m = some q := by
  rw [h.table] at hq
  by_cases hm : m = n
  · rw [hm, update_self] at hq
    cases hq
  · rwa [update_of_ne hm] at hq

lemma releaseConn_of_none (hn : r.getConn n = none) : r.releaseConn n = r := by
  unfold releaseConn
  rw [hn]

end SpidoNG.Uring
