import SpidoNG.Http.Pipelining
import SpidoNG.Uring.Table

/-!
# The limit on what is received

`submit_recv` answers 413 when `in` has reached `max_request_bytes`. Seen from one connection, of a
worker that is not stopping (`Talk.next`), what has been received stays within the limit and one
buffer, and more is refused, if each receive ends with its completion (`bounded_of_single`); a
multishot receive goes on (`not_bounded_multishot`).
-/

namespace SpidoNG.Uring

inductive LineEvent
  | complete (i : ℕ) (env : Env)
  | timer (now : ℕ)

namespace Talk

def accepted (cfg : ServerConfig) (tls : Bool) (n : ℕ) (env : Env) : Talk :=
  let t : Talk := ⟨{ fd := n }, []⟩
  if tls then
    (t.modify fun c => Conn.setDeadline cfg env.now .headers
      { c with ssl := true, tlsPending := true })
      |>.driveTlsHandshake cfg false env
  else
    (t.modify fun c => Conn.setDeadline cfg env.now .headers
      { c with fixedFile := cfg.filesRegistered })
      |>.submitRecv cfg

def completed (t : Talk) (i : ℕ) (sub : Submission) (env : Env) : Talk :=
  { t with
    submitted :=
      if sub.op = .recv ∧ env.more = true then t.submitted else t.submitted.eraseIdx i }

def next (cfg : ServerConfig) (t : Talk) : LineEvent → Option Talk
  | .complete i env =>
    match t.submitted[i]? with
    | none => none
    | some sub =>
      if sub.op = .close ∨ sub.op = .send ∧ (sub.range.length : ℤ) < env.res then none
      else some (Worker.handler cfg false env sub (t.completed i sub env))
  | .timer now => some (t.sweepDeadline false now)

end Talk

def Conn.taken (cfg : ServerConfig) (env : Env) (c : Conn) : Http.Processed :=
  Http.processInput cfg.maxRequestBytes (c.inp ++ env.data.take env.res.toNat)

def oversized (maxBody : UInt64) : ℕ → Bytes → Bool
  | 0, _ => false
  | n + 1, input =>
    match Http.parse input maxBody with
    | (.done req used, input') =>
      maxBody.toNat < used || req.keepAlive && oversized maxBody n (input'.drop used)
    | _ => false

def exceeds (cfg : ServerConfig) (env : Env) (c : Conn) : Bool :=
  let input := c.inp ++ env.data.take env.res.toNat
  let r := c.taken cfg env
  oversized cfg.maxRequestBytes (input.length + 1) input || r.stop = .tooLarge ||
    r.stop = .needMore && cfg.maxRequestBytes.toNat ≤ r.input.length

/-- A receive ends with its completion and brings at most `buf` bytes, and no complete request is
larger than the limit; nothing comes once close has been decided. -/
def single (cfg : ServerConfig) (buf : ℕ) (t : Talk) : LineEvent → Bool
  | .complete i env => (t.submitted[i]?).all fun sub =>
      let input := t.conn.inp ++ env.data.take env.res.toNat
      sub.op ≠ .recv || env.res ≤ 0 || !env.more && !t.conn.wantClose &&
        (env.data.take env.res.toNat).length ≤ buf &&
        !oversized cfg.maxRequestBytes (input.length + 1) input
  | .timer _ => true

def Conn.Refused (c : Conn) : Prop := text413 <:+ c.out ∧ c.wantClose = true

def Answered (cfg : ServerConfig) (t : Talk) (e : LineEvent) (t' : Talk) : Prop :=
  match e with
  | .complete i env => (t.submitted[i]?).any (·.op = .recv) = true → 0 < env.res →
      env.hasBuf = true → exceeds cfg env t.conn = true → t'.conn.Refused
  | .timer _ => True

structure Armed (cfg : ServerConfig) (buf : ℕ) (t : Talk) : Prop where
  count : t.submitted.countP (·.op = .recv) ≤ t.conn.recvInflight.toNat
  room : t.conn.recvInflight = true → t.conn.inp.length < cfg.maxRequestBytes.toNat
  bounded : t.conn.inp.length ≤ cfg.maxRequestBytes.toNat + buf
  fd : t.conn.wantClose = false → 0 ≤ t.conn.fd

variable {cfg : ServerConfig} {buf : ℕ} {env : Env} {t t' : Talk} {e : LineEvent}

lemma Talk.next_complete {i : ℕ} (h : t.next cfg (.complete i env) = some t') :
    ∃ sub, t.submitted[i]? = some sub ∧ sub.op ≠ .close ∧
      Worker.handler cfg false env sub (t.completed i sub env) = t' := by
  simp only [next] at h
  split at h
  · cases h
  · rename_i sub hsub
    split_ifs at h with hmuch
    cases h
    exact ⟨sub, hsub, fun hcl => hmuch (.inl hcl), rfl⟩

lemma onlyIf_of {P : Talk → Prop} {q : Conn → Bool} {f : Talk → Talk}
    (hthen : q t.conn → P (f t)) (helse : q t.conn = false → P t) : P (t.onlyIf q f) := by
  unfold Talk.onlyIf
  split_ifs with hq
  · exact hthen hq
  · exact helse (eq_false_of_ne_true hq)

lemma Conn.Refused.closeConn (h : t.conn.Refused) : (t.closeConn false).conn.Refused := by
  unfold Talk.closeConn
  split_ifs <;> exact h

lemma Conn.Refused.submitSend (h : t.conn.Refused) : t.submitSend.conn.Refused := by
  unfold Talk.submitSend
  split_ifs <;> exact h

lemma recvInflight_processInput (cfg : ServerConfig) (env : Env) (c : Conn) :
    (c.processInput cfg env).recvInflight = c.recvInflight := by
  have hserve : ∀ (qs : List (Http.Request × ℕ)) (c : Conn),
      (qs.foldl (Conn.serve cfg env) c).recvInflight = c.recvInflight := by
    intro qs
    induction qs with
    | nil => exact fun _ => rfl
    | cons q qs ih => exact fun c => ih (c.serve cfg env q)
  unfold Conn.processInput Conn.finish
  dsimp only
  split <;> exact hserve _ c

namespace Armed

variable (h : Armed cfg buf t)
include h

lemma touch {f : Conn → Conn}
    (hrecv : (f t.conn).recvInflight = t.conn.recvInflight) (hinp : (f t.conn).inp = t.conn.inp)
    (hfd : (f t.conn).wantClose = false → t.conn.wantClose = false ∧ (f t.conn).fd = t.conn.fd) :
    Armed cfg buf (t.modify f) := by
  refine ⟨?_, ?_, ?_, fun hopen => ?_⟩
  · exact hrecv ▸ h.count
  · exact hrecv ▸ hinp ▸ h.room
  · exact hinp ▸ h.bounded
  · exact (hfd hopen).2 ▸ h.fd (hfd hopen).1

lemma submitSend : Armed cfg buf t.submitSend := by
  unfold Talk.submitSend
  split_ifs
  · exact h
  · exact h
  · exact ⟨by simpa [Talk.submit, Talk.modify] using h.count, h.room, h.bounded, h.fd⟩

lemma closeConn : Armed cfg buf (t.closeConn false) := by
  have hclosed (hstay : ¬ (t.conn.wantClose = false ∨ t.conn.fd < 0)) :
    Armed cfg buf t.startClose := by
    refine ⟨?_, h.room, h.bounded, fun hopen => absurd (.inl hopen) hstay⟩
    simpa [Talk.startClose, Talk.submit, Talk.modify] using h.count
  unfold Talk.closeConn
  split_ifs with hstay
  · exact h
  · exact h.touch rfl rfl fun hopen => ⟨hopen, rfl⟩
  · exact hclosed hstay
  · exact h
  · exact hclosed hstay
  · exact hclosed hstay

lemma submitRecv : Armed cfg buf (t.submitRecv cfg) := by
  unfold Talk.submitRecv
  split_ifs with hbusy hlarge
  · exact h
  · exact submitSend (h.touch rfl rfl nofun)
  · push Not at hbusy
    refine ⟨?_, fun _ => not_le.1 hlarge, h.bounded, h.fd⟩
    have hcount := h.count
    simp only [eq_false_of_ne_true hbusy.1, Bool.toNat_false, Nat.le_zero] at hcount
    simp [Talk.submit, Talk.modify, hcount]

lemma decideClose : Armed cfg buf ((t.modify Conn.decideClose).closeConn false) :=
  (h.touch (f := Conn.decideClose) rfl rfl nofun).closeConn

lemma completed (i : ℕ) (sub : Submission) (env : Env) : Armed cfg buf (t.completed i sub env) := by
  refine ⟨le_trans ?_ h.count, h.room, h.bounded, h.fd⟩
  unfold Talk.completed
  split_ifs
  · exact le_rfl
  · exact (List.eraseIdx_sublist _ _).countP_le

lemma cleared {i : ℕ} {sub : Submission} (hsub : t.submitted[i]? = some sub)
    (hop : sub.op = .recv) (env : Env) : Armed cfg buf ((t.completed i sub env).modify fun c =>
      { c with recvInflight := c.recvInflight && env.more }) := by
  refine ⟨?_, fun hf => h.room (Bool.and_eq_true_iff.1 hf).1, h.bounded, h.fd⟩
  cases hmore : env.more with
  | true => simpa [Talk.completed, Talk.modify, hop, hmore] using h.count
  | false =>
    obtain ⟨hi, rfl⟩ := List.getElem?_eq_some_iff.1 hsub
    have hperm := (List.getElem_cons_eraseIdx_perm hi).countP_eq (·.op = .recv)
    have hflag := h.count.trans (Bool.toNat_le _)
    rw [List.countP_cons_of_pos (by simp [hop])] at hperm
    simp only [Talk.completed, Talk.modify, hmore, Bool.and_false, Bool.toNat_false]
    rw [if_neg (by simp)]
    omega

end Armed

lemma fd_serve (qs : List (Http.Request × ℕ)) (c : Conn) :
    (qs.foldl (Conn.serve cfg env) c).fd = c.fd := by
  induction qs generalizing c with
  | nil => rfl
  | cons q qs ih => exact ih (c.serve cfg env q)

lemma open_processInput {c : Conn} (hopen : (c.processInput cfg env).wantClose = false) :
    c.wantClose = false ∧ (c.processInput cfg env).fd = c.fd := by
  unfold Conn.processInput Conn.finish at hopen ⊢
  dsimp only at hopen ⊢
  split at hopen
  · exact ⟨(wantClose_serve cfg env _ c).symm.trans hopen, fd_serve _ c⟩
  all_goals cases hopen

lemma inp_processInput (cfg : ServerConfig) (env : Env) (c : Conn) :
    (c.processInput cfg env).inp = (Http.processInput cfg.maxRequestBytes c.inp).input := by
  unfold Conn.processInput Conn.finish
  dsimp only
  split <;> rfl

def Talk.digest (cfg : ServerConfig) (env : Env) (t : Talk) : Talk :=
  t.modify (Conn.processInput cfg env)
    |>.onlyIf (fun c => c.outOff < c.out.length) Talk.submitSend
    |>.onlyIf (fun c => !c.recvInflight && !c.wantClose) (Talk.submitRecv cfg)
    |>.closeConn false

lemma Armed.digest (h : Armed cfg buf t) (hrecv : t.conn.recvInflight = false) :
    Armed cfg buf (t.digest cfg env) := by
  have hflag := recvInflight_processInput cfg env t.conn
  have hread : Armed cfg buf (t.modify (Conn.processInput cfg env)) := by
    refine ⟨hflag ▸ h.count, fun hf => ?_, ?_, fun hopen => ?_⟩
    · cases (hflag.trans hrecv).symm.trans hf
    · have hle := Http.length_processFor cfg.maxRequestBytes (t.conn.inp.length + 1) t.conn.inp
      exact (congrArg List.length (inp_processInput cfg env t.conn)).le.trans (hle.trans h.bounded)
    · obtain ⟨hwant, hfd⟩ := open_processInput hopen
      exact hfd ▸ h.fd hwant
  have hsent := onlyIf_of (q := fun c => c.outOff < c.out.length) (fun _ => hread.submitSend)
    fun _ => hread
  exact (onlyIf_of (q := fun c => !c.recvInflight && !c.wantClose) (fun _ => hsent.submitRecv)
    fun _ => hsent).closeConn

lemma answered_digest (hrecv : t.conn.recvInflight = false) (hopen : t.conn.wantClose = false)
    (hfd : 0 ≤ t.conn.fd)
    (hover : (Http.processInput cfg.maxRequestBytes t.conn.inp).stop = .tooLarge ∨
      (Http.processInput cfg.maxRequestBytes t.conn.inp).stop = .needMore ∧
        cfg.maxRequestBytes.toNat ≤
          (Http.processInput cfg.maxRequestBytes t.conn.inp).input.length) :
    (t.digest cfg env).conn.Refused := by
  refine Conn.Refused.closeConn ?_
  rcases hover with hlarge | ⟨hneed, hlong⟩
  · have hsaid : (t.modify (Conn.processInput cfg env)).conn.Refused := by
      dsimp only [Talk.modify, Conn.processInput]
      rw [hlarge]
      exact ⟨List.suffix_append _ _, rfl⟩
    have hsent := onlyIf_of (P := fun v => v.conn.Refused) (q := fun c => c.outOff < c.out.length)
      (fun _ => hsaid.submitSend) fun _ => hsaid
    refine onlyIf_of (P := fun v => v.conn.Refused) (fun hq => ?_) fun _ => hsent
    simp [hsent.2] at hq
  · -- The connection is still open, so that `submit_recv` looks at the limit.
    have hflag := recvInflight_processInput cfg env t.conn
    have hread : (t.conn.processInput cfg env).wantClose = false ∧
        (t.conn.processInput cfg env).fd = t.conn.fd := by
      dsimp only [Conn.processInput]
      rw [hneed]
      exact ⟨(wantClose_serve cfg env _ _).trans hopen, fd_serve _ _⟩
    have hlen := hlong.trans_eq (congrArg List.length (inp_processInput cfg env t.conn)).symm
    have hsent : ∀ u : Talk, u.conn = t.conn.processInput cfg env →
        (u.onlyIf (fun c => c.outOff < c.out.length) Talk.submitSend
          |>.onlyIf (fun c => !c.recvInflight && !c.wantClose)
            (Talk.submitRecv cfg)).conn.Refused := by
      intro u hu
      have hstill := onlyIf_of (P := fun v => v.conn.recvInflight = u.conn.recvInflight ∧
          v.conn.wantClose = u.conn.wantClose ∧ v.conn.fd = u.conn.fd ∧ v.conn.inp = u.conn.inp)
        (t := u) (q := fun c => c.outOff < c.out.length) (f := Talk.submitSend)
        (fun _ => by unfold Talk.submitSend; split_ifs <;> exact ⟨rfl, rfl, rfl, rfl⟩)
        fun _ => ⟨rfl, rfl, rfl, rfl⟩
      rw [hu, hflag, hrecv, hread.1, hread.2] at hstill
      obtain ⟨hidle, hwant, hfd', hinp⟩ := hstill
      refine onlyIf_of (P := fun v => v.conn.Refused) (fun _ => ?_) fun hq => ?_
      · unfold Talk.submitRecv
        rw [if_neg (by simp [hidle, hwant, hfd', hfd]), if_pos (hinp ▸ hlen)]
        exact Conn.Refused.submitSend ⟨List.suffix_append _ _, rfl⟩
      · simp [hidle, hwant] at hq
    exact hsent _ rfl

lemma Armed.handleRecv {i : ℕ} {sub : Submission} (h : Armed cfg buf t)
    (hsub : t.submitted[i]? = some sub) (hop : sub.op = .recv)
    (hok : single cfg buf t (.complete i env)) :
    Armed cfg buf ((t.completed i sub env).handleRecv cfg false env) ∧
      Answered cfg t (.complete i env) ((t.completed i sub env).handleRecv cfg false env) := by
  have hcleared := h.cleared hsub hop env
  by_cases hres : env.res ≤ 0
  · dsimp only [Talk.handleRecv]
    rw [if_pos hres]
    exact ⟨hcleared.decideClose, fun _ hpos => absurd hres (not_le.2 hpos)⟩
  have hinh : t.conn.inp.length < cfg.maxRequestBytes.toNat := by
    have hone : 0 < t.submitted.countP (·.op = .recv) :=
      List.countP_pos_iff.2 ⟨sub, List.mem_of_getElem? hsub, by simp [hop]⟩
    refine h.room (Bool.eq_true_of_not_eq_false fun hflag => ?_)
    have hcount := h.count
    rw [hflag, Bool.toNat_false] at hcount
    omega
  simp only [single, hsub, Option.all_some, hop, ne_eq, not_true_eq_false, decide_false, hres,
    Bool.false_or, Bool.and_eq_true, Bool.not_eq_true', decide_eq_true_eq] at hok
  obtain ⟨⟨⟨hmore, hopen⟩, hdata⟩, hfits⟩ := hok
  have hidle : (t.conn.recvInflight && env.more) = false := by simp [hmore]
  by_cases hbuf : env.hasBuf
  · have hread (u : Talk) (hinp : u.conn.inp = t.conn.inp ++ env.data.take env.res.toNat)
        (hflag : u.conn.recvInflight = false) (hstill : u.conn.wantClose = false)
        (hfd : u.conn.fd = t.conn.fd) (hops : u.submitted = (t.completed i sub env).submitted) :
        Armed cfg buf (u.digest cfg env) ∧
          Answered cfg t (.complete i env) (u.digest cfg env) := by
      have hfed : Armed cfg buf u := by
        refine ⟨?_, fun hf => (by cases hflag.symm.trans hf), ?_, fun _ => hfd ▸ h.fd hopen⟩
        · rw [hops, hflag]
          exact hidle ▸ hcleared.count
        · rw [hinp, List.length_append]
          omega
      refine ⟨hfed.digest hflag, fun _ _ _ hover => ?_⟩
      refine answered_digest hflag hstill (hfd ▸ h.fd hopen) ?_
      simp only [exceeds, hfits, Bool.false_or, Bool.or_eq_true, Bool.and_eq_true] at hover
      rw [hinp]
      exact hover.imp of_decide_eq_true (And.imp of_decide_eq_true of_decide_eq_true)
    dsimp only [Talk.handleRecv]
    rw [if_neg hres, if_neg (by simp [hbuf])]
    change Armed cfg buf (Talk.digest cfg env _) ∧ Answered cfg t _ (Talk.digest cfg env _)
    unfold Talk.onlyIf
    split_ifs
    · exact hread _ rfl hidle hopen rfl rfl
    · exact hread _ rfl hidle hopen rfl rfl
  · dsimp only [Talk.handleRecv]
    replace hbuf := eq_false_of_ne_true hbuf
    rw [if_neg hres, if_pos hbuf]
    refine ⟨?_, fun _ _ hb => (by cases hbuf.symm.trans hb)⟩
    have hagain := hcleared.touch (f := fun c => { c with wantClose := false }) rfl rfl
      fun _ => ⟨hopen, rfl⟩
    have harm := onlyIf_of (q := (!·.recvInflight)) (fun _ => hagain.submitRecv) fun _ => hagain
    exact onlyIf_of (fun _ => harm.closeConn) fun _ => harm

lemma Armed.handleSend (h : Armed cfg buf t) (range : Span) :
    Armed cfg buf (t.handleSend cfg false range env) := by
  have hsent := h.touch (f := Conn.acknowledge range env) rfl rfl fun hopen => ⟨hopen, rfl⟩
  dsimp only [Talk.handleSend]
  split_ifs
  · exact hsent.decideClose
  · have hdrained := hsent.touch (f := Conn.drain) rfl rfl fun hopen => ⟨hopen, rfl⟩
    exact (onlyIf_of (q := (!·.wantClose)) (fun _ => hdrained.touch
      (f := Conn.setDeadline cfg env.now .idle) rfl rfl fun hopen => ⟨hopen, rfl⟩)
      fun _ => hdrained).closeConn
  · exact hsent.submitSend.closeConn

lemma Armed.driveTlsHandshake (h : Armed cfg buf t) (env : Env) :
    Armed cfg buf (t.driveTlsHandshake cfg false env) := by
  have hpoll : Armed cfg buf t.submitTlsHandshakePoll := by
    unfold Talk.submitTlsHandshakePoll
    split_ifs
    · exact h
    · exact ⟨by simpa [Talk.submit, Talk.modify] using h.count, h.room, h.bounded, h.fd⟩
  unfold Talk.driveTlsHandshake
  split_ifs
  · exact h
  · cases env.handshake with
    | done => exact (h.touch rfl rfl fun hopen => ⟨hopen, rfl⟩).submitRecv
    | wantRead | wantWrite => exact hpoll
    | failed =>
      exact (h.touch (f := fun c =>
        { c.decideClose with ssl := false, tlsPending := false }) rfl rfl
        fun hopen => absurd hopen (by simp [Conn.decideClose])).closeConn

lemma Armed.next (h : Armed cfg buf t) (hok : single cfg buf t e)
    (hnext : t.next cfg e = some t') : Armed cfg buf t' ∧ Answered cfg t e t' := by
  cases e with
  | timer now =>
    cases hnext
    refine ⟨?_, trivial⟩
    unfold Talk.sweepDeadline
    split_ifs
    · exact h
    · exact h.decideClose
  | complete i env =>
    obtain ⟨sub, hsub, hmuch, rfl⟩ := Talk.next_complete hnext
    have hoth (hne : sub.op ≠ .recv) (u : Talk) : Answered cfg t (.complete i env) u := by
      intro hrecv
      simp [hsub, hne] at hrecv
    unfold Worker.handler
    cases hop : sub.op with
    | close => exact absurd hop hmuch
    | recv => exact h.handleRecv hsub hop hok
    | send => exact ⟨(h.completed i sub env).handleSend sub.range, hoth (by simp [hop]) _⟩
    | tlsHandshakePoll =>
      refine ⟨?_, hoth (by simp [hop]) _⟩
      have hpoll := (h.completed i sub env).touch
        (f := fun c => { c with tlsPollInflight := false }) rfl rfl fun hopen => ⟨hopen, rfl⟩
      dsimp only [Talk.handleTlsPoll]
      split_ifs
      · exact (hpoll.touch (f := fun c => { c.decideClose with ssl := false }) rfl rfl
          fun hopen => absurd hopen (by simp [Conn.decideClose])).closeConn
      · exact hpoll.driveTlsHandshake env

theorem bounded_of_single (cfg : ServerConfig) (buf : ℕ) (tls : Bool) (n : ℕ) (env : Env)
    (es : List LineEvent) (t : Talk)
    (hrun : Runs.run (Talk.next cfg) (Talk.accepted cfg tls n env) es = some t)
    (hok : Runs.Meets (Talk.next cfg) (fun t e => single cfg buf t e = true)
      (Talk.accepted cfg tls n env) es) : t.conn.inp.length ≤ cfg.maxRequestBytes.toNat + buf ∧
      ∀ e t', single cfg buf t e = true → t.next cfg e = some t' → Answered cfg t e t' := by
  have hstart : Armed cfg buf (Talk.accepted cfg tls n env) := by
    have hnew (c : Conn) (hrecv : c.recvInflight = false) (hinp : c.inp = []) (hfd : 0 ≤ c.fd) :
        Armed cfg buf ⟨c, []⟩ := ⟨by simp, by simp [hrecv], by simp [hinp], fun _ => hfd⟩
    unfold Talk.accepted
    dsimp only
    split_ifs
    · exact Armed.driveTlsHandshake (hnew _ rfl rfl (Int.natCast_nonneg n)) env
    · exact Armed.submitRecv (hnew _ rfl rfl (Int.natCast_nonneg n))
  have hend := Runs.run_induction (fun h hok hnext => (Armed.next h hok hnext).1) hstart hok hrun
  exact ⟨hend.bounded, fun e t' hone hnext => (hend.next hone hnext).2⟩

def receivedPart (data : Bytes) (more : Bool) : LineEvent :=
  .complete 0 { res := data.length, more, data }

def narrow : ServerConfig := { usual with maxRequestBytes := 4 }

theorem bounded_receivedParts : ∃ t,
    Runs.run (Talk.next narrow) (Talk.accepted narrow false 5 {})
      [receivedPart (Bytes.str "GE") false, receivedPart (Bytes.str "T / ") false] = some t ∧
      t.conn.inp.length ≤ 4 + 4 := by
  have hsome : (Runs.run (Talk.next narrow) (Talk.accepted narrow false 5 {})
      [receivedPart (Bytes.str "GE") false, receivedPart (Bytes.str "T / ") false]).isSome := by
    decide +kernel
  obtain ⟨t, ht⟩ := Option.isSome_iff_exists.1 hsome
  exact ⟨t, ht, (bounded_of_single narrow 4 false 5 {} _ t ht
    (Runs.meets_of_meetsAll (by decide +kernel))).1⟩

theorem not_bounded_multishot : ∃ t, Runs.run (Talk.next narrow) (Talk.accepted narrow false 5 {})
      (List.replicate 3 (receivedPart (Bytes.str "GET ") true)) = some t ∧
    narrow.maxRequestBytes.toNat + 4 < t.conn.inp.length ∧ t.conn.out = [] := by
  have hrun : (Runs.run (Talk.next narrow) (Talk.accepted narrow false 5 {})
      (List.replicate 3 (receivedPart (Bytes.str "GET ") true))).map
        (fun t => (t.conn.inp.length, t.conn.out)) = some (12, []) := by decide +kernel
  obtain ⟨t, ht, hfull⟩ := Option.map_eq_some_iff.1 hrun
  obtain ⟨hlen, hout⟩ := Prod.mk.inj hfull
  exact ⟨t, ht, by rw [hlen]; decide, hout⟩

end SpidoNG.Uring
