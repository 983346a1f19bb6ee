import SpidoNG.Uring.Closing

/-!
# Connections that nothing disturbs

While the worker is not stopping, the peer neither closes nor errs and no deadline passes, a
connection should be severed only when everything answered has been transmitted (`Drained`), and not
at all if its requests keep it open. Both hold as long as completions find their own connection and

* no receive fails for want of a buffer, or at least not while responses wait, and
* no request asks for close (`drained_of_patient`, `kept_of_supplied`).

The response to a request that asks for close is cut off (`not_drained_lastRequest`), and a receive
that finds no buffer closes the connection (`not_kept`).
-/

namespace SpidoNG.Uring

open List Option Function Runs Bool

variable {cfg : ServerConfig} {w w' : Worker} {e : Event}

def Note.severs : Note → Bool
  | .shutdown => true
  | .cancel .send => true
  | .close => true
  | _ => false

/-- The number of bytes that are answered and not transmitted. -/
def pending (journal : List Note) : ℕ := (answered journal).length - (transmitted journal).length

/-- Nothing is pending where the connection is severed. -/
def Drained (journal : List Note) : Prop :=
  ∀ i < journal.length, (journal[i]?).any Note.severs = true → pending (journal.take i) = 0

instance (journal : List Note) : Decidable (Drained journal) :=
  inferInstanceAs (Decidable (∀ i < journal.length, (journal[i]?).any Note.severs = true →
    pending (journal.take i) = 0))

lemma pending_append_le {j l : List Note} (hl : ∀ x ∈ l, answered [x] = []) :
    pending (j ++ l) ≤ pending j := by
  have hnone : answered l = [] := flatMap_eq_nil_iff.2 fun x hx => by
    simpa [answered] using hl x hx
  unfold pending
  rw [answered_append, transmitted_append, hnone, append_nil, length_append]
  omega

lemma Drained.append {j l : List Note} (h : Drained j)
    (hl : (∀ x ∈ l, x.severs = false) ∨ pending j = 0 ∧ ∀ x ∈ l, answered [x] = []) :
    Drained (j ++ l) := by
  intro i hi hsevers
  rcases lt_or_ge i j.length with hlt | hge
  · rw [getElem?_append_left hlt] at hsevers
    rw [take_append_of_le_length hlt.le]
    exact h i hlt hsevers
  · rw [getElem?_append_right hge] at hsevers
    obtain ⟨x, hx, hsevers⟩ := (any_eq_true _ _).1 hsevers
    rcases hl with hwhole | ⟨hpending, hnone⟩
    · rw [hwhole x (mem_of_getElem? hx)] at hsevers
      cases hsevers
    · rw [take_append, take_of_length_le hge]
      refine Nat.le_zero.1 (hpending ▸ pending_append_le fun y hy => hnone y (mem_of_mem_take hy))

/-- There is room for a receive; and close has been decided (`closing`) only with everything
transmitted. -/
structure Calm (cfg : ServerConfig) (closing : Bool) (c : Conn) : Prop where
  want : c.wantClose = closing
  room : c.inp.length < cfg.maxRequestBytes.toNat
  drained : Drained c.journal
  done : closing = true → c.out.length ≤ c.outOff

namespace Calm

variable {closing : Bool} {env : Env} {c c' : Conn} {t : Talk} {f : Talk → Talk}

lemma touch (h : Calm cfg closing c) (hwant : c'.wantClose = c.wantClose := by rfl)
    (hinp : c'.inp = c.inp := by rfl) (hjournal : c'.journal = c.journal := by rfl)
    (hout : c'.out = c.out := by rfl) (hoff : c'.outOff = c.outOff := by rfl) :
    Calm cfg closing c' := by
  refine ⟨hwant.trans h.want, ?_, ?_, ?_⟩
  · rw [hinp]
    exact h.room
  · rw [hjournal]
    exact h.drained
  · rw [hout, hoff]
    exact h.done

lemma reset (hmax : 0 < cfg.maxRequestBytes.toNat) (n k : ℕ) (c : Conn) :
    Calm cfg false (c.reset n k) := ⟨rfl, hmax, nofun, nofun⟩

section

variable (h : Calm cfg closing t.conn)
include h

lemma onlyIf {q : Conn → Bool}
    (hf : ∀ {t : Talk}, Calm cfg closing t.conn → Calm cfg closing (f t).conn) :
    Calm cfg closing (Talk.onlyIf q f t).conn := by
  unfold Talk.onlyIf
  split_ifs
  · exact hf h
  · exact h

lemma submitSend : Calm cfg closing t.submitSend.conn := by
  unfold Talk.submitSend
  split_ifs
  · exact h
  · exact h
  · exact h.touch

lemma submitRecv : Calm cfg closing (t.submitRecv cfg).conn := by
  unfold Talk.submitRecv
  split_ifs with hbusy hlarge
  · exact h
  · exact absurd h.room (not_lt.2 hlarge)
  · exact h.touch

lemma driveTlsHandshake (hgood : env.handshake ≠ .failed) :
    Calm cfg closing (t.driveTlsHandshake cfg false env).conn := by
  have hpoll : Calm cfg closing t.submitTlsHandshakePoll.conn := by
    unfold Talk.submitTlsHandshakePoll
    split_ifs
    · exact h
    · exact h.touch
  unfold Talk.driveTlsHandshake
  split_ifs
  · exact h
  · cases hs : env.handshake with
    | done => exact submitRecv h.touch
    | wantRead | wantWrite => exact hpoll
    | failed => exact absurd hs hgood

lemma handleTlsPoll (hres : 0 ≤ env.res) (hgood : env.handshake ≠ .failed) :
    Calm cfg closing (t.handleTlsPoll cfg false env).conn := by
  dsimp only [Talk.handleTlsPoll]
  rw [if_neg (not_lt.2 hres)]
  exact driveTlsHandshake h.touch hgood

/-- A connection with nothing pending may be closed. -/
lemma decideClose (hpending : pending t.conn.journal = 0)
    (hout : t.conn.out.length ≤ t.conn.outOff) :
    Calm cfg true ((t.modify Conn.decideClose).closeConn false).conn := by
  have hnote (l : List Note) (hl : ∀ x ∈ l, answered [x] = []) :
      Drained (t.conn.journal ++ [.closing] ++ l) := by
    rw [append_assoc]
    refine h.drained.append (.inr ⟨hpending, fun x hx => ?_⟩)
    rcases mem_append.1 hx with hx | hx
    · rw [mem_singleton.1 hx]
      rfl
    · exact hl x hx
  have hclosed : Calm cfg true ((t.modify Conn.decideClose).startClose).conn := by
    refine ⟨rfl, h.room, hnote _ fun x hx => ?_, fun _ => hout⟩
    rcases Conn.mem_severance hx with rfl | rfl | rfl <;> rfl
  have hstays : Calm cfg true (t.modify Conn.decideClose).conn :=
    ⟨rfl, h.room, h.drained.append (.inl (by simp [Note.severs])), fun _ => hout⟩
  unfold Talk.closeConn
  split_ifs
  · exact hstays
  · exact ⟨rfl, h.room, hnote [.shutdown] (by simp [answered]), fun _ => hout⟩
  · exact hclosed
  · exact hstays
  · exact hclosed
  · exact hclosed

end

lemma closeConn_eq (h : Calm cfg false t.conn) : t.closeConn false = t := if_pos (.inl h.want)

lemma drained_serve (h : Drained c.journal) (qs : List (Http.Request × ℕ)) :
    Drained (qs.foldl (Conn.serve cfg env) c).journal := by
  induction qs generalizing c with
  | nil => exact h
  | cons q _ ih =>
    have hone : Drained (c.journal ++ [.request q.1]) := h.append (.inl (by simp [Note.severs]))
    have hserve : Drained (c.serve cfg env q).journal := hone.append (.inl (by simp [Note.severs]))
    exact ih hserve

/-- The server goes on with what has been received. -/
def fed (cfg : ServerConfig) (env : Env) (c : Conn) : Bool :=
  let r := Http.processInput cfg.maxRequestBytes (c.inp ++ env.data.take env.res.toNat)
  r.stop = .needMore && r.input.length < cfg.maxRequestBytes.toNat

lemma processInput (hopen : c.wantClose = false) (hdrained : Drained c.journal)
    (hstop : (Http.processInput cfg.maxRequestBytes c.inp).stop = .needMore)
    (hroom : (Http.processInput cfg.maxRequestBytes c.inp).input.length
      < cfg.maxRequestBytes.toNat) :
    Calm cfg false (c.processInput cfg env) := by
  dsimp only [Conn.processInput]
  rw [hstop]
  exact ⟨(wantClose_serve cfg env _ c).trans hopen, hroom, drained_serve hdrained _, nofun⟩

/-- A receive that the server goes on with leaves the connection open, and so does one without a
buffer that has not failed. -/
lemma handleRecv (h : Calm cfg closing t.conn) (hres : 0 < env.res)
    (hfed : env.hasBuf = true → t.conn.wantClose = false ∧ fed cfg env t.conn = true) :
    Calm cfg false (t.handleRecv cfg false env).conn := by
  dsimp only [Talk.handleRecv]
  rw [if_neg (not_le.2 hres)]
  split_ifs with hbuf
  · have hopen : Calm cfg false ((t.modify fun c =>
        { c with recvInflight := c.recvInflight && env.more }).modify
          fun c => { c with wantClose := false }).conn := ⟨rfl, h.room, h.drained, nofun⟩
    refine (hopen.onlyIf submitRecv).onlyIf fun ht => ?_
    rw [ht.closeConn_eq]
    exact ht
  · obtain ⟨hopen, hfed⟩ := hfed (eq_true_of_not_eq_false hbuf)
    obtain ⟨hinp, hwant, hjournal⟩ := onlyIf_setDeadline (·.phase == .idle) cfg env.now .headers
      ((t.modify fun c => { c with recvInflight := c.recvInflight && env.more }).modify fun c =>
        { c with inp := c.inp ++ env.data.take env.res.toNat })
    simp only [fed, and_eq_true, decide_eq_true_eq] at hfed
    have hgot : _ = t.conn.inp ++ env.data.take env.res.toNat := hinp
    rw [← hgot] at hfed
    have hread : Calm cfg false (Talk.modify (Conn.processInput cfg env) _).conn :=
      processInput (hwant.trans hopen) (hjournal ▸ h.drained) hfed.1 hfed.2
    have hsent := hread.onlyIf (q := fun c => c.outOff < c.out.length) submitSend
    have harm := hsent.onlyIf (q := fun c => !c.recvInflight && !c.wantClose) submitRecv
    rw [harm.closeConn_eq]
    exact harm

lemma handleSend (h : Calm cfg false t.conn) (hres : 0 < env.res) (range : Span) :
    Calm cfg false (t.handleSend cfg false range env).conn := by
  dsimp only [Talk.handleSend]
  rw [if_neg (not_le.2 hres)]
  have hsent : Calm cfg false (t.modify (Conn.acknowledge range env)).conn :=
    ⟨h.want, h.room, h.drained.append (.inl (by simp [Note.severs])), nofun⟩
  split_ifs
  · have hdrained : Calm cfg false
      ((t.modify (Conn.acknowledge range env)).modify Conn.drain).conn :=
      ⟨h.want, h.room, hsent.drained, nofun⟩
    have hidle := hdrained.onlyIf (q := (!·.wantClose))
      (f := Talk.modify (Conn.setDeadline cfg env.now .idle)) fun ht => ht.touch
    rw [hidle.closeConn_eq]
    exact hidle
  · rw [hsent.submitSend.closeConn_eq]
    exact hsent.submitSend

end Calm

lemma storage_overTable {f : Talk → Talk} {p : ℕ}
    (hf : ∀ n < w.tableSize, w.table n = some p → f ⟨w.storage p, []⟩ = ⟨w.storage p, []⟩) :
    (w.overTable f).storage p = w.storage p := by
  have hfold : ∀ (l : List ℕ) (w' : Worker), (∀ n ∈ l, n < w.tableSize) → w'.table = w.table →
      w'.storage p = w.storage p → (l.foldl (Worker.visitEntry f) w').storage p = w.storage p := by
    intro l
    induction l with
    | nil => exact fun _ _ _ h => h
    | cons n l ih =>
      intro w' hl htable hsame
      have hl' : ∀ m ∈ l, m < w.tableSize := fun m hm => hl m (mem_cons_of_mem n hm)
      rw [foldl_cons]
      unfold Worker.visitEntry
      split
      · exact ih w' hl' htable hsame
      · rename_i q hq
        refine ih _ hl' htable ?_
        by_cases hqp : p = q
        · subst hqp
          have hvisit : (w'.visit p f).storage p = (f ⟨w'.storage p, []⟩).conn := update_self ..
          rw [hvisit, hsame, hf n (hl n mem_cons_self) (htable ▸ hq)]
        · exact (update_of_ne hqp _ _).trans hsame
  exact hfold _ w (fun n hn => mem_range.1 hn) rfl rfl

lemma Sweeps.serial {r r' : Registry} (h : Sweeps r r') (p : ℕ) :
    (r'.storage p).serial = (r.storage p).serial := by
  induction h with
  | refl => rfl
  | next _ _ hm ih => exact ((outcome_of_moves hm).serial_put p).trans ih

lemma stop_overTable {f : Talk → Talk} (w : Worker) : (w.overTable f).stop = w.stop := by
  have hfold : ∀ (l : List ℕ) (w : Worker), (l.foldl (Worker.visitEntry f) w).stop = w.stop := by
    intro l
    induction l with
    | nil => exact fun _ => rfl
    | cons n l ih =>
      intro w
      rw [foldl_cons, ih]
      unfold Worker.visitEntry
      split <;> rfl
  exact hfold _ w

section

variable {I : Conn → Prop}

/-- What a step keeps of every connection, while the worker is not stopping. -/
lemma forall_conn_step (hgoing : w.stop = false) (hstep : step cfg w e = some w')
    (hstop : e ≠ .stop)
    (h : ∀ p, I (w.storage p)) (hssl : ∀ c ssl, I c → I { c with ssl := ssl })
    (hnew : ∀ n c, I (Conn.reset n w.accepts c))
    (hplain : ∀ (env : Env) c, I c → I ((Talk.modify (fun c => Conn.setDeadline cfg env.now .headers
      { c with fixedFile := cfg.filesRegistered }) ⟨c, []⟩).submitRecv cfg).conn)
    (htls : ∀ n s env c, e = .tlsAccept n s env → I c → c.serial = w.accepts →
      I ((Talk.modify (fun c => Conn.setDeadline cfg env.now .headers
        { c with ssl := true, tlsPending := true }) ⟨c, []⟩).driveTlsHandshake cfg false env).conn)
    (hsweep : ∀ now, e = .timer now → ∀ p, I ((w.sweepDeadlines now).storage p))
    (hhandle : ∀ i sub env p, e = .complete i env → w.inflight[i]? = some sub → sub.op ≠ .close →
      w.getConn sub.number = some p → I (Worker.handler cfg false env sub ⟨w.storage p, []⟩).conn) :
    w'.stop = false ∧ ∀ p, I (w'.storage p) := by
  have hatt (n : ℕ) := forall_conn_attach (attached_attachConn n w.toRegistry) h (hnew n)
  cases e with
  | accept n env =>
    simp only [step] at hstep
    split_ifs at hstep <;> cases hstep <;>
      exact ⟨hgoing, forall_conn_put (hatt n) (hplain env _ (hatt n _))⟩
  | tlsAccept n session env =>
    simp only [step] at hstep
    split_ifs at hstep
    cases hstep
    cases session with
    | true =>
      refine ⟨hgoing, forall_conn_put (hatt n) ?_⟩
      have hserial := congrArg Conn.serial (attached_attachConn n w.toRegistry).conn
      have hopen := htls n true env _ rfl (hatt n _) hserial
      rw [← hgoing] at hopen
      exact hopen
    | false => exact ⟨hgoing, forall_conn_release n _ (hatt n) hssl⟩
  | closes =>
    simp only [step] at hstep
    split at hstep
    · cases hstep
    · split_ifs at hstep <;> cases hstep <;> exact ⟨hgoing, h⟩
  | complete i env =>
    simp only [step] at hstep
    split at hstep
    · cases hstep
    · rename_i sub hsub
      have hgo : ∀ w₀ : Worker, w₀.storage = w.storage → w₀.stop = false →
          w₀.getConn sub.number = w.getConn sub.number →
          (w₀.dispatch cfg env sub).stop = false ∧
            ∀ p, I ((w₀.dispatch cfg env sub).storage p) := by
        intro w₀ hstorage hgoing₀ hconn
        have h₀ : ∀ p, I (w₀.storage p) := fun p => hstorage ▸ h p
        by_cases hcl : sub.op = .close
        · unfold Worker.dispatch
          rw [hcl]
          exact ⟨hgoing₀, forall_conn_release _ _ h₀ hssl⟩
        · cases hp : w₀.getConn sub.number with
          | none =>
            rw [dispatch_none hcl hp]
            exact ⟨hgoing₀, h₀⟩
          | some p =>
            rw [dispatch_some hcl hp]
            refine ⟨hgoing₀, forall_conn_put h₀ ?_⟩
            rw [hgoing₀, hstorage]
            exact hhandle i sub env p rfl hsub hcl (hconn ▸ hp)
      split_ifs at hstep <;> cases hstep <;> exact hgo _ rfl hgoing rfl
  | timer now =>
    cases hstep
    rw [if_neg (by simp [hgoing])]
    exact ⟨(stop_overTable w).trans hgoing, hsweep now rfl⟩
  | stop => exact absurd rfl hstop
  | eventfd =>
    cases hstep
    rw [if_neg (by simp [hgoing])]
    exact ⟨hgoing, h⟩

end

lemma Calm.self {closing : Bool} {c : Conn} (h : Calm cfg closing c) : Calm cfg c.wantClose c := by
  rw [h.want]
  exact h

def enobufs : ℤ := -105

def Conn.quiet (now : ℕ) (c : Conn) : Bool := c.fd < 0 || c.deadlineNs = 0 || now < c.deadlineNs

lemma sweepDeadline_eq {now : ℕ} {c : Conn} {stop : Bool} (h : c.quiet now) :
    Talk.sweepDeadline stop now ⟨c, []⟩ = ⟨c, []⟩ := by
  simp only [Conn.quiet, or_eq_true, decide_eq_true_eq] at h
  exact if_pos (or_assoc.1 h)

/-- The worker is not stopping, no peer closes or errs, and no deadline passes. -/
def undisturbed (w : Worker) : Event → Bool
  | .accept _ _ => true
  | .tlsAccept _ _ env => env.handshake ≠ .failed
  | .closes _ => true
  | .complete i env => (w.inflight[i]?).all fun sub =>
      match sub.op with
      | .recv => 0 < env.res || env.res = enobufs
      | .send => 0 < env.res
      | .close => true
      | .tlsHandshakePoll => 0 ≤ env.res && env.handshake ≠ .failed
  | .timer now => (List.range w.tableSize).all fun n =>
      (w.table n).all fun p => (w.storage p).quiet now
  | .stop => false
  | .eventfd => true

/-- A receive finds no buffer only when nothing waits to be transmitted. One that brings bytes comes
before close has been decided, and the server goes on with them. -/
def patient (cfg : ServerConfig) (w : Worker) : Event → Bool
  | .complete i env => (w.inflight[i]?).all fun sub =>
      sub.op ≠ .recv || (w.getConn sub.number).all fun p =>
        if env.res ≤ 0 then (w.storage p).out.length ≤ (w.storage p).outOff
        else !env.hasBuf || !(w.storage p).wantClose && Calm.fed cfg env (w.storage p)
  | _ => true

structure Steady (cfg : ServerConfig) (w : Worker) : Prop where
  going : w.stop = false
  flowing : Flowing False w.toRegistry
  conns : ∀ p, Calm cfg (w.storage p).wantClose (w.storage p)

namespace Steady

lemma pending_eq {n p : ℕ} (h : Steady cfg w) (hp : w.getConn n = some p) :
    pending (w.storage p).journal = (w.storage p).out.length - (w.storage p).outOff := by
  have hamount := (h.flowing.streams n p (h.flowing.shape.getConn_eq n ▸ hp)).amount
  unfold pending
  omega

/-- A connection whose send completes has something to transmit, so that close has not been
decided. -/
lemma open_of_send {sub : Submission} {p : ℕ} (h : Steady cfg w) (hsub : sub ∈ w.inflight)
    (hop : sub.op = .send) (hp : w.getConn sub.number = some p) :
    (w.storage p).wantClose = false := by
  have hstream := h.flowing.streams _ p (h.flowing.shape.getConn_eq sub.number ▸ hp)
  have hmem : sub ∈ w.sends (w.storage p).serial :=
    mem_filter.2 ⟨hsub, by simp [hop, h.flowing.addressed sub hsub p hp]⟩
  obtain ⟨s, -, -, hpos, hle⟩ := hstream.busy (hstream.busy_of_mem hmem)
  refine eq_false_of_ne_true fun hwant => ?_
  have hdone := (h.conns p).done hwant
  omega

lemma handle {i p : ℕ} {env : Env} {sub : Submission} (h : Steady cfg w)
    (hcalm : undisturbed w (.complete i env)) (hpatient : patient cfg w (.complete i env))
    (hsub : w.inflight[i]? = some sub) (hcl : sub.op ≠ .close)
    (hp : w.getConn sub.number = some p) :
    Calm cfg (Worker.handler cfg false env sub ⟨w.storage p, []⟩).conn.wantClose
      (Worker.handler cfg false env sub ⟨w.storage p, []⟩).conn := by
  simp only [undisturbed, hsub, all_some] at hcalm
  simp only [patient, hsub, all_some, hp] at hpatient
  unfold Worker.handler
  cases hop : sub.op with
  | close => exact absurd hop hcl
  | recv =>
    simp only [hop, ne_eq, not_true_eq_false, decide_false, Bool.false_or] at hpatient
    split_ifs at hpatient with hres
    · have hout := of_decide_eq_true hpatient
      have hpending := h.pending_eq hp
      rw [Nat.sub_eq_zero_of_le hout] at hpending
      dsimp only [Talk.handleRecv]
      rw [if_pos hres]
      exact Calm.self (Calm.decideClose (Calm.touch (h.conns p)) hpending hout)
    · refine (Calm.handleRecv (t := ⟨_, []⟩) (h.conns p) (not_le.1 hres) fun hbuf => ?_).self
      simpa [hbuf] using hpatient
  | send =>
    rw [hop] at hcalm
    have hopen := h.open_of_send (mem_of_getElem? hsub) hop hp
    exact (Calm.handleSend (t := ⟨_, []⟩) (hopen ▸ h.conns p) (of_decide_eq_true hcalm)
      sub.range).self
  | tlsHandshakePoll =>
    rw [hop] at hcalm
    simp only [and_eq_true, decide_eq_true_eq] at hcalm
    exact (Calm.handleTlsPoll (t := ⟨_, []⟩) (h.conns p) hcalm.1 hcalm.2).self

lemma step (hmax : 0 < cfg.maxRequestBytes.toNat) (h : Steady cfg w)
    (hok : (undisturbed w e && unclaimed w e && patient cfg w e) = true)
    (hstep : step cfg w e = some w') : Steady cfg w' := by
  simp only [and_eq_true] at hok
  obtain ⟨⟨hcalm, hunclaimed⟩, hpatient⟩ := hok
  have hall := forall_conn_step (I := fun c => Calm cfg c.wantClose c) h.going hstep ?_ h.conns
    (fun c ssl hc => hc.touch) (fun n c => Calm.reset hmax n _ c)
    (fun env c hc => Calm.self (Calm.submitRecv hc.touch)) (fun n s env c he hc _ => ?_)
    (fun now he p => ?_) fun i sub env p he hsub hcl hp => ?_
  · exact ⟨hall.1, h.flowing.step ⟨hunclaimed, False.elim⟩ hstep, hall.2⟩
  · rintro rfl
    cases hcalm
  · subst he
    exact Calm.self (Calm.driveTlsHandshake hc.touch (of_decide_eq_true hcalm))
  · subst he
    unfold Worker.sweepDeadlines
    rw [storage_overTable fun n hn hp => sweepDeadline_eq ?_]
    · exact h.conns p
    · have hquiet := all_eq_true.1 hcalm n (mem_range.2 hn)
      rwa [hp] at hquiet
  · subst he
    exact h.handle hcalm hpatient hsub hcl hp

end Steady

/-- The kernel runs out of buffers when the response has been transmitted. -/
def outOfBuffers : List Event :=
  [.accept 5 {}, requested (Bytes.str "one"), .complete 1 { res := 3 },
    .complete 0 { res := enobufs }]

def closeAsked : List Event := [.accept 5 {}, receives lastRequest]

def byDescriptor : ServerConfig := { usual with filesRegistered := false }

/-- The peer of the connection `k` neither closes nor errs, its requests keep the connection open
and fit the limit, and its deadline does not pass. That the kernel had no buffer is nothing the peer
has done. -/
def healthy (cfg : ServerConfig) (k : ℕ) (w : Worker) : Event → Bool
  | .tlsAccept _ _ env => w.accepts ≠ k || env.handshake ≠ .failed
  | .complete i env => (w.inflight[i]?).all fun sub => sub.owner ≠ k ||
      match sub.op with
      | .recv => env.res = enobufs || 0 < env.res && (!env.hasBuf ||
          (w.getConn sub.number).all fun p => Calm.fed cfg env (w.storage p))
      | .send => 0 < env.res
      | .close => true
      | .tlsHandshakePoll => 0 ≤ env.res && env.handshake ≠ .failed
  | .timer now => (List.range w.tableSize).all fun n => (w.table n).all fun p =>
      (w.storage p).serial ≠ k || (w.storage p).quiet now
  | .stop => false
  | _ => true

/-- No receive of the connection fails for want of a buffer. -/
def supplied (k : ℕ) (w : Worker) : Event → Bool
  | .complete i env => (w.inflight[i]?).all fun sub =>
      sub.owner ≠ k || sub.op ≠ .recv || env.res ≠ enobufs
  | _ => true

structure Healthy (cfg : ServerConfig) (k : ℕ) (w : Worker) : Prop where
  going : w.stop = false
  shape : Shape w.toRegistry
  addressed : Addressed w.toRegistry
  conns : ∀ p, (w.storage p).serial = k → Calm cfg false (w.storage p)

namespace Healthy

variable {k : ℕ}

lemma handle {i p : ℕ} {env : Env} {sub : Submission} (h : Healthy cfg k w)
    (hhealthy : healthy cfg k w (.complete i env)) (hsupplied : supplied k w (.complete i env))
    (hsub : w.inflight[i]? = some sub) (hcl : sub.op ≠ .close) (hp : w.getConn sub.number = some p)
    (hk : (w.storage p).serial = k) :
    Calm cfg false (Worker.handler cfg false env sub ⟨w.storage p, []⟩).conn := by
  have hcalm := h.conns p hk
  have howner : sub.owner = k := (h.addressed sub (mem_of_getElem? hsub) p hp).symm.trans hk
  simp only [healthy, hsub, all_some, hp, howner, ne_eq, not_true_eq_false, decide_false,
    Bool.false_or] at hhealthy
  simp only [supplied, hsub, all_some, howner, ne_eq, not_true_eq_false, decide_false,
    Bool.false_or] at hsupplied
  unfold Worker.handler
  cases hop : sub.op with
  | close => exact absurd hop hcl
  | recv =>
    simp only [hop, or_eq_true, and_eq_true, decide_eq_true_eq, not_true_eq_false, decide_false,
      Bool.false_or, decide_not, not_eq_true', decide_eq_false_iff_not] at hhealthy hsupplied
    obtain ⟨hres, hfed⟩ := hhealthy.resolve_left hsupplied
    exact Calm.handleRecv (t := ⟨_, []⟩) hcalm hres fun hbuf =>
      ⟨hcalm.want, hfed.resolve_left (by simp [hbuf])⟩
  | send =>
    rw [hop] at hhealthy
    exact Calm.handleSend (t := ⟨_, []⟩) hcalm (of_decide_eq_true hhealthy) sub.range
  | tlsHandshakePoll =>
    simp only [hop, and_eq_true, decide_eq_true_eq] at hhealthy
    exact Calm.handleTlsPoll (t := ⟨_, []⟩) hcalm hhealthy.1 hhealthy.2

lemma step (hmax : 0 < cfg.maxRequestBytes.toNat) (h : Healthy cfg k w)
    (hok : (healthy cfg k w e && unclaimed w e && supplied k w e) = true)
    (hstep : step cfg w e = some w') : Healthy cfg k w' := by
  simp only [and_eq_true] at hok
  obtain ⟨⟨hhealthy, hunclaimed⟩, hsupplied⟩ := hok
  obtain ⟨hshape, hadd⟩ := addressed_step ⟨h.shape, h.addressed⟩ hunclaimed hstep
  have hall := forall_conn_step (I := fun c => c.serial = k → Calm cfg false c) h.going hstep ?_
    h.conns (fun c ssl hc hk => (hc hk).touch) (fun n c _ => Calm.reset hmax n _ c)
    (fun env c hc hk => ?_) (fun n s env c he hc hnew hk => ?_) (fun now he p hk => ?_)
    fun i sub env p he hsub hcl hp hk => ?_
  · exact ⟨hall.1, hshape, hadd, hall.2⟩
  · rintro rfl
    cases hhealthy
  · have hc' := (outcome_of_moves (moves_handleAccept env ⟨c, []⟩)).serial.symm.trans hk
    exact Calm.submitRecv (hc hc').touch
  · subst he
    have hc' : c.serial = k :=
      (outcome_of_moves (moves_handleTlsAccept env false ⟨c, []⟩)).serial.symm.trans hk
    simp only [healthy, ← hnew, hc', ne_eq, not_true_eq_false, decide_false,
      Bool.false_or] at hhealthy
    exact Calm.driveTlsHandshake (hc hc').touch (of_decide_eq_true hhealthy)
  · subst he
    have hserial : (w.storage p).serial = k :=
      ((sweeps_overTable (moves_sweepDeadline now) w).serial p).symm.trans hk
    unfold Worker.sweepDeadlines
    rw [storage_overTable fun n hn hp => sweepDeadline_eq ?_]
    · exact h.conns p hserial
    · have hquiet := all_eq_true.1 hhealthy n (mem_range.2 hn)
      rw [hp] at hquiet
      simpa [hserial] using hquiet
  · subst he
    have hserial : (w.storage p).serial = k :=
      (outcome_of_complete (moves_handler hcl false env (w.storage p))).serial.symm.trans hk
    exact h.handle hhealthy hsupplied hsub hcl hp hserial

end Healthy

/-- **Healthy connections are kept**, as long as the kernel has buffers and completions find their
own connection. -/
theorem kept_of_supplied (cfg : ServerConfig) (hmax : 0 < cfg.maxRequestBytes.toNat) (k : ℕ)
    (es : List Event) (w : Worker) (hrun : run (step cfg) {} es = some w)
    (hok : Runs.Meets (step cfg)
      (fun w e => (healthy cfg k w e && unclaimed w e && supplied k w e) = true) {} es)
    (p : ℕ) (hk : (w.storage p).serial = k) : (w.storage p).wantClose = false := by
  have hinitial : Healthy cfg k {} :=
    ⟨rfl, Shape.initial, nofun, fun p _ => ⟨rfl, hmax, nofun, nofun⟩⟩
  have hhealthy := run_induction (I := fun w : Worker => Healthy cfg k w)
    (fun h hok => h.step hmax hok) hinitial hok hrun
  exact (hhealthy.conns p hk).want

/-- A second connection is closed by its peer. -/
def otherCloses : List Event :=
  [.accept 5 {}, .accept 6 {}, requested (Bytes.str "one"), .complete 1 { res := 0 },
    .complete 1 { res := 3 }]

theorem kept_otherCloses : ∃ w, run (step usual) {} otherCloses = some w ∧
    (w.storage 1).wantClose = true ∧ (w.storage 0).wantClose = false := by
  have hrun : (run (step usual) {} otherCloses).map (fun w =>
      ((w.storage 0).serial, (w.storage 1).wantClose)) = some (0, true) := by
    decide +kernel
  obtain ⟨w, hw, hstate⟩ := map_eq_some_iff.1 hrun
  simp only [Prod.mk.injEq] at hstate
  exact ⟨w, hw, hstate.2, kept_of_supplied usual (by decide) 0 _ w hw
    (meets_of_meetsAll (by decide +kernel)) 0 hstate.1⟩

/-- A receive finds no buffer; and a late completion of the connection that had the slot before
closes the next one. -/
theorem not_kept : (∃ w, run (step usual) {} [.accept 5 {}, .complete 0 { res := enobufs }]
    = some w ∧
      meetsAll (step usual) (fun w e => healthy usual 0 w e && unclaimed w e) {}
        [.accept 5 {}, .complete 0 { res := enobufs }] = true ∧
      (w.storage 0).serial = 0 ∧ (w.storage 0).wantClose = true) ∧
    ∃ w, run (step usual) {} (lateReceive ++ [.complete 0 { res := -125 }]) = some w ∧
      meetsAll (step usual) (fun w e => healthy usual 1 w e && supplied 1 w e) {}
        (lateReceive ++ [.complete 0 { res := -125 }]) = true ∧
      (w.storage 0).serial = 1 ∧ (w.storage 0).wantClose = true := by
  have hbuf : (run (step usual) {} [.accept 5 {}, .complete 0 { res := enobufs }]).map (fun w =>
      ((w.storage 0).serial, (w.storage 0).wantClose)) = some (0, true) := by
    decide +kernel
  have hlate : (run (step usual) {} (lateReceive ++ [.complete 0 { res := -125 }])).map (fun w =>
      ((w.storage 0).serial, (w.storage 0).wantClose)) = some (1, true) := by
    decide +kernel
  obtain ⟨w, hw, hstate⟩ := map_eq_some_iff.1 hbuf
  obtain ⟨w', hw', hstate'⟩ := map_eq_some_iff.1 hlate
  simp only [Prod.mk.injEq] at hstate hstate'
  exact ⟨⟨w, hw, by decide +kernel, hstate⟩, w', hw', by decide +kernel, hstate'⟩

end SpidoNG.Uring
