import SpidoNG.Uring.Connection

/-!
# What a handler does with a connection

The handlers are made of a few moves (`Moves`).
-/

namespace SpidoNG.Uring

open Talk Conn

structure Kept (c c' : Conn) : Prop where
  fd : c'.fd = c.fd := by rfl
  out : c'.out = c.out := by rfl
  outOff : c'.outOff = c.outOff := by rfl
  sendInflight : c'.sendInflight = c.sendInflight := by rfl
  block : c'.block = c.block := by rfl
  wantClose : c'.wantClose = c.wantClose := by rfl
  serial : c'.serial = c.serial := by rfl
  journal : c'.journal = c.journal := by rfl

inductive Moves (late : Prop) (t : Talk) : Talk → Prop
  | refl : Moves late t t
  | touch {t' : Talk} (f : Conn → Conn) (hf : Kept t'.conn (f t'.conn)) (h : Moves late t t') :
      Moves late t (t'.modify f)
  | request {t' : Talk} (req : Http.Request) (hlate : late ∨ t'.conn.wantClose = false)
      (h : Moves late t t') : Moves late t (t'.modify (note (.request req)))
  | answer {t' : Talk} (bytes : Bytes) (hlate : late ∨ t'.conn.wantClose = false)
    (h : Moves late t t') :
      Moves late t (t'.modify (queue bytes))
  | decideClose {t' : Talk} (h : Moves late t t') : Moves late t (t'.modify decideClose)
  | reopen {t' : Talk} (hlate : late) (h : Moves late t t') :
      Moves late t (t'.modify fun c => { c with wantClose := false })
  | submit {t' : Talk} {op : Op} (hop : op ≠ .close ∧ op ≠ .send) (hfd : 0 ≤ t'.conn.fd)
      (h : Moves late t t') : Moves late t (t'.submit op {})
  | send {t' : Talk} (hidle : t'.conn.sendInflight = false) (hfd : 0 ≤ t'.conn.fd)
      (hout : t'.conn.outOff < t'.conn.out.length) (h : Moves late t t') :
      Moves late t ((t'.submit .send t'.conn.waiting).modify fun c =>
        { c with sendInflight := true })
  | drain {t' : Talk} (hout : t'.conn.out.length ≤ t'.conn.outOff) (h : Moves late t t') :
      Moves late t (t'.modify drain)
  | shutdown {t' : Talk} (h : Moves late t t') : Moves late t (t'.modify (note .shutdown))
  | close {t' : Talk} (hfd : 0 ≤ t'.conn.fd) (h : Moves late t t') : Moves late t t'.startClose

variable {late : Prop} {cfg : ServerConfig} {stop : Bool} {env : Env} {t t' t'' : Talk}

lemma Moves.trans (h : Moves late t t') (h' : Moves late t' t'') : Moves late t t'' := by
  induction h' with
  | refl => exact h
  | touch f hf _ ih => exact .touch f hf ih
  | request req hlate _ ih => exact .request req hlate ih
  | answer bytes hlate _ ih => exact .answer bytes hlate ih
  | decideClose _ ih => exact .decideClose ih
  | reopen hlate _ ih => exact .reopen hlate ih
  | submit hop hfd _ ih => exact .submit hop hfd ih
  | send hidle hfd hout _ ih => exact .send hidle hfd hout ih
  | drain hout _ ih => exact .drain hout ih
  | shutdown _ ih => exact .shutdown ih
  | close hfd _ ih => exact .close hfd ih

lemma moves_touch {f : Conn → Conn} (hf : Kept t.conn (f t.conn)) : Moves late t (t.modify f) :=
  .touch f hf .refl

lemma moves_setDeadline (cfg : ServerConfig) (now : ℕ) (ph : Phase) :
    Moves late t (t.modify (setDeadline cfg now ph)) := moves_touch {}

lemma moves_onlyIf {q : Conn → Bool} {f : Talk → Talk} (h : ∀ {t}, Moves late t (f t)) :
    Moves late t (onlyIf q f t) := by
  unfold onlyIf
  split_ifs
  · exact h
  · exact .refl

lemma moves_submitSend : Moves late t t.submitSend := by
  unfold submitSend
  split_ifs with hbusy hout
  · exact .refl
  · exact .refl
  · push Not at hbusy
    exact .send (eq_false_of_ne_true hbusy.1) hbusy.2 (not_le.1 hout) .refl

lemma moves_submitRecv : Moves late t (t.submitRecv cfg) := by
  unfold submitRecv
  split_ifs with hbusy hlarge
  · exact .refl
  · push Not at hbusy
    refine Moves.trans ?_ moves_submitSend
    exact .decideClose (.answer _ (.inr (eq_false_of_ne_true hbusy.2.1)) .refl)
  · push Not at hbusy
    exact .touch _ {} (.submit (by decide) hbusy.2.2 .refl)

lemma moves_closeConn : Moves late t (t.closeConn stop) := by
  unfold closeConn
  split_ifs with hstay
  · exact .refl
  all_goals push Not at hstay
  · exact .shutdown .refl
  · exact .close hstay.2 .refl
  · exact .refl
  · exact .close hstay.2 .refl
  · exact .close hstay.2 .refl

lemma moves_submitTlsHandshakePoll : Moves late t t.submitTlsHandshakePoll := by
  unfold submitTlsHandshakePoll
  split_ifs with hbusy
  · exact .refl
  · push Not at hbusy
    exact .touch _ {} (.submit (by decide) hbusy.1 .refl)

lemma moves_driveTlsHandshake : Moves late t (t.driveTlsHandshake cfg stop env) := by
  unfold driveTlsHandshake
  split_ifs with hssl
  · exact .refl
  · split
    · exact Moves.trans (moves_touch {}) moves_submitRecv
    · exact moves_submitTlsHandshakePoll
    · exact moves_submitTlsHandshakePoll
    · refine Moves.trans ?_ moves_closeConn
      exact .touch (fun c => { c with ssl := false, tlsPending := false }) {}
        (.decideClose .refl)

lemma moves_handleTlsPoll : Moves late t (t.handleTlsPoll cfg stop env) := by
  dsimp only [handleTlsPoll]
  have hcleared : Moves late t (t.modify fun c => { c with tlsPollInflight := false }) :=
    moves_touch {}
  split_ifs
  · refine Moves.trans ?_ moves_closeConn
    exact .touch (fun c => { c with ssl := false }) {} (.decideClose hcleared)
  · exact hcleared.trans moves_driveTlsHandshake

lemma moves_sweepDeadline (now : ℕ) : Moves late t (t.sweepDeadline stop now) := by
  unfold sweepDeadline
  split_ifs
  · exact .refl
  · exact Moves.trans (.decideClose .refl) moves_closeConn

lemma moves_abort : Moves late t (t.abort stop) := by
  unfold abort
  split_ifs
  · exact .refl
  · refine Moves.trans ?_ moves_closeConn
    exact .touch (fun c => { c with ssl := false }) {} (.decideClose .refl)

lemma moves_serve (cfg : ServerConfig) (env : Env) (qs : List (Http.Request × ℕ))
    (hlate : late ∨ t'.conn.wantClose = false) (h : Moves late t t') :
    Moves late t (t'.modify fun c => qs.foldl (serve cfg env) c) := by
  induction qs generalizing t' with
  | nil => exact h
  | cons q _ ih =>
    have hwriting := h.trans (moves_setDeadline cfg env.now .writing)
    have hrequest := Moves.request q.1 (by exact hlate) hwriting
    have hserve : Moves late t (t'.modify fun c => serve cfg env c q) :=
      Moves.answer (env.respond q.2 q.1) (by exact hlate) hrequest
    exact ih (by exact hlate) hserve

lemma moves_finish (s : Http.Stop) (hlate : late ∨ t.conn.wantClose = false) :
    Moves late t (t.modify (finish s)) := by
  cases s with
  | needMore => exact .refl
  | badRequest | tooLarge => exact .decideClose (.answer _ hlate .refl)
  | closed | outOfBounds => exact .decideClose .refl

lemma wantClose_serve (cfg : ServerConfig) (env : Env) (qs : List (Http.Request × ℕ)) (c : Conn) :
    (qs.foldl (serve cfg env) c).wantClose = c.wantClose := by
  induction qs generalizing c with
  | nil => rfl
  | cons _ _ ih => exact ih _

lemma moves_processInput (hlate : late ∨ t.conn.wantClose = false) :
    Moves late t (t.modify (processInput cfg env)) := by
  have hserve : Moves late t (t.modify fun c =>
      (Http.processInput cfg.maxRequestBytes t.conn.inp).requests.zipIdx.foldl
        (serve cfg env) c) :=
    moves_serve cfg env _ hlate .refl
  have htaken := Moves.touch
    (fun c => { c with inp := (Http.processInput cfg.maxRequestBytes t.conn.inp).input })
    {} hserve
  refine htaken.trans (moves_finish _ ?_)
  exact hlate.imp_right fun hopen => (wantClose_serve cfg env _ t.conn).trans hopen

lemma onlyIf_setDeadline (q : Conn → Bool) (cfg : ServerConfig) (now : ℕ) (ph : Phase) (t : Talk) :
    (onlyIf q (modify (setDeadline cfg now ph)) t).conn.inp = t.conn.inp ∧
      (onlyIf q (modify (setDeadline cfg now ph)) t).conn.wantClose = t.conn.wantClose ∧
      (onlyIf q (modify (setDeadline cfg now ph)) t).conn.journal = t.conn.journal := by
  unfold onlyIf
  split_ifs <;> exact ⟨rfl, rfl, rfl⟩

lemma moves_handleRecv (hlate : 0 < env.res → late ∨ t.conn.wantClose = false) :
    Moves late t (t.handleRecv cfg stop env) := by
  dsimp only [handleRecv]
  have hcleared : Moves late t
      (t.modify fun c => { c with recvInflight := c.recvInflight && env.more }) :=
    moves_touch {}
  split_ifs with hres hbuf
  · exact Moves.trans (.decideClose hcleared) moves_closeConn
  · refine Moves.trans ?_ (moves_onlyIf moves_closeConn)
    refine Moves.trans ?_ (moves_onlyIf moves_submitRecv)
    rcases hlate (not_le.1 hres) with hlate | hopen
    · exact .reopen hlate hcleared
    · exact .touch _ { wantClose := hopen.symm } hcleared
  · refine Moves.trans ?_ moves_closeConn
    refine Moves.trans ?_ (moves_onlyIf moves_submitRecv)
    refine Moves.trans ?_ (moves_onlyIf moves_submitSend)
    refine Moves.trans ?_ (moves_processInput ?_)
    · refine Moves.trans ?_ (moves_onlyIf (moves_setDeadline cfg env.now .headers))
      exact .touch _ {} hcleared
    · rw [(onlyIf_setDeadline ..).2.1]
      exact hlate (not_le.1 hres)

lemma moves_handleSend (range : Span) :
    Moves late (t.modify (acknowledge range env)) (t.handleSend cfg stop range env) := by
  dsimp only [handleSend]
  split_ifs with hres hout
  · exact Moves.trans (.decideClose .refl) moves_closeConn
  · refine Moves.trans ?_ moves_closeConn
    refine Moves.trans ?_ (moves_onlyIf (moves_setDeadline cfg env.now .idle))
    exact .drain hout .refl
  · exact Moves.trans moves_submitSend moves_closeConn

end SpidoNG.Uring
