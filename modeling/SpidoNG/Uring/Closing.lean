import SpidoNG.Uring.Stream

/-!
# Once close has been decided

When `want_close` is set, nothing should be done for the connection any more but transmit what is
queued, and then close it.
-/

namespace SpidoNG.Uring

open List Option Function Runs Bool

variable {cfg : ServerConfig} {r r' : Registry} {w w' : Worker} {e : Event}

section

variable {I : Conn → Prop}

lemma forall_conn_put {p : ℕ} {t : Talk} (h : ∀ q, I (r.storage q)) (ht : I t.conn) :
    ∀ q, I ((r.put p t).storage q) := by
  intro q
  by_cases hq : q = p
  · subst hq
    have hconn : (r.put q t).storage q = t.conn := update_self ..
    rw [hconn]
    exact ht
  · have hconn : (r.put p t).storage q = r.storage q := update_of_ne hq _ _
    rw [hconn]
    exact h q

lemma forall_conn_attach {n p : ℕ} (ha : Attached r n p r') (h : ∀ q, I (r.storage q))
    (hnew : ∀ c, I (Conn.reset n r.accepts c)) : ∀ q, I (r'.storage q) := by
  intro q
  rw [ha.storage]
  by_cases hq : q = p
  · subst hq
    rw [update_self]
    exact hnew _
  · rw [update_of_ne hq]
    exact h q

lemma forall_conn_release (n k : ℕ) (h : ∀ q, I (r.storage q))
    (hssl : ∀ c ssl, I c → I { c with ssl := ssl }) :
    ∀ q, I (((r.releaseConn n).settle k).storage q) := by
  intro q
  have hset : ((r.releaseConn n).settle k).storage q = (r.releaseConn n).storage q := rfl
  rw [hset]
  cases hp : r.getConn n with
  | none =>
    rw [releaseConn_of_none hp]
    exact h q
  | some =>
    obtain ⟨ssl, hq⟩ := (released_releaseConn hp).storage q
    rw [hq]
    exact hssl _ ssl (h q)

lemma forall_conn_change (hc : Change r e r')
    (h : ∀ p, I (r.storage p)) (hnew : ∀ n k c, I (Conn.reset n k c))
    (hssl : ∀ c ssl, I c → I { c with ssl := ssl })
    (hmoves : ∀ c t, I c → Moves False ⟨c, []⟩ t → I t.conn)
    (hcomplete : ∀ i sub env p t, e = .complete i env → r.inflight[i]? = some sub →
      r.getConn sub.number = some p →
      Moves (sub.op = .recv ∧ 0 < env.res ∧ (r.storage p).wantClose)
        ⟨(r.storage p).complete sub env, []⟩ t → I t.conn) : ∀ p, I (r'.storage p) := by
  cases hc with
  | quiet | closes => exact h
  | sweep hs =>
    induction hs with
    | refl => exact h
    | next _ _ hm ih => exact forall_conn_put ih (hmoves _ _ (ih _) hm)
  | attach n _ _ hm =>
    have ha := forall_conn_attach (attached_attachConn n r) h (hnew n _)
    exact forall_conn_put ha (hmoves _ _ (ha _) hm)
  | refuse n =>
    exact forall_conn_release n _ (forall_conn_attach (attached_attachConn n r) h (hnew n _)) hssl
  | drop =>
    rw [Registry.storage_complete]
    exact h
  | handle i p sub env t he hsub _ hp _ hm =>
    refine forall_conn_put (fun q => ?_) (hcomplete i sub env p t he hsub hp hm)
    rw [Registry.storage_complete]
    exact h q
  | release => exact forall_conn_release _ _ h hssl

end

def Note.serves : Note → Bool
  | .request _ => true
  | .answer _ => true
  | _ => false

def Quiet (journal : List Note) : Prop :=
  journal.Pairwise fun x y => x = .closing → y.serves = false

instance (journal : List Note) : Decidable (Quiet journal) :=
  inferInstanceAs (Decidable (journal.Pairwise fun x y => x = .closing → y.serves = false))

structure Settled (c : Conn) : Prop where
  quiet : Quiet c.journal
  stands : .closing ∈ c.journal → c.wantClose = true

namespace Settled

variable {c c' : Conn} {t t' : Talk}

lemma later (h : Settled c) (hjournal : c'.journal = c.journal)
    (hwant : c.wantClose → c'.wantClose) : Settled c' := by
  refine ⟨hjournal ▸ h.quiet, fun hclosing => hwant (h.stands (hjournal ▸ hclosing))⟩

lemma append (h : Settled c) {l : List Note} (hl : ∀ x ∈ l, x.serves = false ∧ x ≠ .closing)
    (hjournal : c'.journal = c.journal ++ l) (hwant : c'.wantClose = c.wantClose) : Settled c' := by
  refine ⟨?_, fun hclosing => ?_⟩
  · rw [hjournal]
    refine pairwise_append.2 ⟨h.quiet, ?_, fun _ _ y hy _ => (hl y hy).1⟩
    exact pairwise_of_forall_mem_list fun x _ y hy _ => (hl y hy).1
  · rw [hjournal] at hclosing
    rw [hwant]
    rcases mem_append.1 hclosing with hclosing | hclosing
    · exact h.stands hclosing
    · exact absurd rfl (hl _ hclosing).2

lemma serve (h : Settled c) {x : Note} (hx : x ≠ .closing) (hopen : c.wantClose = false)
    (hjournal : c'.journal = c.journal ++ [x]) : Settled c' := by
  have hund : .closing ∉ c.journal := by
    intro hclosing
    rw [h.stands hclosing] at hopen
    cases hopen
  refine ⟨?_, fun hclosing => ?_⟩
  · rw [hjournal]
    refine pairwise_append.2 ⟨h.quiet, pairwise_singleton _ _, ?_⟩
    rintro y hy _ _ rfl
    exact absurd hy hund
  · rw [hjournal] at hclosing
    rcases mem_append.1 hclosing with hclosing | hclosing
    · exact absurd hclosing hund
    · exact absurd (mem_singleton.1 hclosing).symm hx

lemma decideClose (h : Settled c) : Settled c.decideClose := by
  refine ⟨?_, fun _ => rfl⟩
  refine pairwise_append.2 ⟨h.quiet, pairwise_singleton _ _, ?_⟩
  intro x _ y hy _
  rw [mem_singleton.1 hy]
  rfl

lemma startClose (h : Settled t.conn) : Settled t.startClose.conn := by
  refine h.append (l := t.conn.severance) (fun x hx => ?_) rfl rfl
  rcases Conn.mem_severance hx with rfl | rfl | rfl <;> exact ⟨rfl, by simp⟩

lemma moves (h : Moves False t t') (hs : Settled t.conn) : Settled t'.conn := by
  induction h with
  | refl => exact hs
  | touch f hf _ ih => exact ih.later hf.journal fun hwant => hf.wantClose.trans hwant
  | request _ hopen _ ih | answer _ hopen _ ih =>
    exact ih.serve (by simp) (hopen.resolve_left id) rfl
  | decideClose _ ih => exact ih.decideClose
  | reopen hlate => exact hlate.elim
  | submit _ _ _ ih => exact ih
  | send _ _ _ _ ih | drain _ _ ih => exact ih.later rfl id
  | shutdown _ ih => exact ih.append (l := [.shutdown]) (by simp [Note.serves]) rfl rfl
  | close _ _ ih => exact ih.startClose

lemma complete (h : Settled c) (sub : Submission) (env : Env) : Settled (c.complete sub env) := by
  unfold Conn.complete
  split_ifs
  · exact h.append (l := [.sent _]) (by simp [Note.serves]) rfl rfl
  · exact h

end Settled

def prompt (w : Worker) : Event → Bool
  | .complete i env => (w.inflight[i]?).all fun sub =>
      sub.op ≠ .recv || env.res ≤ 0 || (w.getConn sub.number).all fun p => !(w.storage p).wantClose
  | _ => true

lemma settled_step (h : ∀ p, Settled (w.storage p)) (hok : prompt w e)
    (hstep : step cfg w e = some w') : ∀ p, Settled (w'.storage p) := by
  refine forall_conn_change (change_of_step hstep) h ?_ ?_ ?_ ?_
  · intro n k c
    refine ⟨List.Pairwise.nil, fun hclosing => ?_⟩
    cases hclosing
  · exact fun c ssl hc => hc.later rfl id
  · exact fun c t hc hm => hc.moves hm
  · intro i sub env p t he hsub hp hm
    subst he
    -- The condition says that the receive does not come late.
    have hnot : ¬ (sub.op = .recv ∧ 0 < env.res ∧ (w.storage p).wantClose) := by
      rintro ⟨hop, hres, hwant⟩
      simp only [prompt, hsub, all_some, hp, hop, hwant] at hok
      simp at hok
      omega
    have hm' : Moves False ⟨(w.storage p).complete sub env, []⟩ t := by
      rw [iff_false_intro hnot] at hm
      exact hm
    exact ((h p).complete sub env).moves hm'

theorem quiet_of_prompt (cfg : ServerConfig) (es : List Event) (w : Worker)
    (hrun : run (step cfg) {} es = some w)
    (hok : Runs.Meets (step cfg) (fun w e => prompt w e = true) {} es) (p : ℕ) :
    Quiet (w.storage p).journal := by
  have hinitial : ∀ p, Settled (({} : Worker).storage p) := by
    intro p
    refine ⟨List.Pairwise.nil, fun hclosing => ?_⟩
    cases hclosing
  have hsettled := run_induction (I := fun w : Worker => ∀ p, Settled (w.storage p))
    settled_step hinitial hok hrun
  exact (hsettled p).quiet

def lastRequest : Bytes := Bytes.str "GET / HTTP/1.1\r\nConnection: close\r\n\r\n"

def receives (data : Bytes) : Event :=
  .complete 0
    { res := data.length, more := true, data := data, respond := fun _ _ => Bytes.str "ok" }

theorem quiet_lastRequest : ∃ w,
    run (step usual) {} [.accept 5 {}, receives lastRequest, .complete 0 { res := 0 }] = some w ∧
      .closing ∈ (w.storage 0).journal ∧ Quiet (w.storage 0).journal := by
  have hrun : (run (step usual) {}
      [.accept 5 {}, receives lastRequest, .complete 0 { res := 0 }]).map
        (fun w => decide (.closing ∈ (w.storage 0).journal)) = some true := by
    decide +kernel
  obtain ⟨w, hw, hclosing⟩ := map_eq_some_iff.1 hrun
  refine ⟨w, hw, of_decide_eq_true hclosing, quiet_of_prompt usual _ w hw ?_ 0⟩
  exact meets_of_meetsAll rfl

theorem not_quiet_lastRequest : ∃ w,
    run (step usual) {} [.accept 5 {}, receives lastRequest, receives lastRequest] = some w ∧
      (w.storage 0).journal.map Note.serves =
        [true, true, false, false, false, false, true, true, false] ∧
      ¬ Quiet (w.storage 0).journal := by
  have hrun : (run (step usual) {}
      [.accept 5 {}, receives lastRequest, receives lastRequest]).map (fun w =>
        ((w.storage 0).journal.map Note.serves, decide (Quiet (w.storage 0).journal))) =
      some ([true, true, false, false, false, false, true, true, false], false) := by
    decide +kernel
  obtain ⟨w, hw, hstate⟩ := map_eq_some_iff.1 hrun
  simp only [Prod.mk.injEq] at hstate
  exact ⟨w, hw, hstate.1, of_decide_eq_false hstate.2⟩

end SpidoNG.Uring
