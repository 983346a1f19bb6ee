import SpidoNG.Pg.MessageLoop

/-!
# Whose answer a result is

A connection carries one request after the other.
-/

namespace SpidoNG.Pg

open Bytes List

namespace Channel

def after (c : Channel) : List Request → Channel
  | [] => c
  | q :: qs => (c.call q).2.2.after qs

/-- Each call returns what it returns on a connection of its own, or is refused; a call that has
stopped leaves a connection that is not ready. -/
def Synchronised (qs : List Request) : Prop :=
  ∀ before q rest, qs = before ++ q :: rest →
    ((fresh.after before).state = .Ready → ((fresh.after before).call q).1 = (fresh.call q).1) ∧
    ((fresh.after before).state ≠ .Ready → ((fresh.after before).call q).1 = q.kind.refusal) ∧
    (((fresh.after before).call q).2.1 = .stopped →
      ((fresh.after before).call q).2.2.state ≠ .Ready ∧
      ∀ (p : Pool) (i : ℕ) (conn : PgConnection),
        conn.state = ((fresh.after before).call q).2.2.state → (p.checkin i conn).idle = p.idle)

end Channel

def Frame.decodes (f : Frame) : Bool :=
  if f.type = kRowDescription then
    2 ≤ f.body.length && (readFields (getBE (f.body.take 2)).toNat (f.body.drop 2) []).2
  else if f.type = kDataRow then
    2 ≤ f.body.length && 0 ≤ getBE (f.body.take 2) &&
      (readCells (getBE (f.body.take 2)).toNat (f.body.drop 2)).isSome
  else true

def Channel.understood (c : Channel) (q : Request) : Bool :=
  c.lastError = [] || q.delivery.frames.all Frame.decodes

variable {f : Frame}

lemma onMessage_of_decodes (htype : f.type ≠ kReadyForQuery) (h : f.decodes)
    (out : WireResult) (e₁ e₂ : Bytes) :
    ∃ out' e₁' e₂', onMessage f.type f.body out e₁ = .next out' e₁' ∧
      onMessage f.type f.body out e₂ = .next out' e₂' := by
  unfold Frame.decodes at h
  unfold onMessage
  split_ifs at h ⊢ with hrow hdata hcommand herr
  · obtain ⟨hlen, hfields⟩ := Bool.and_eq_true_iff.1 h
    unfold onRowDescription
    rw [if_neg (not_lt.2 (of_decide_eq_true hlen)), if_neg (not_lt.2 (of_decide_eq_true hlen))]
    generalize readFields (getBE (f.body.take 2)).toNat (f.body.drop 2) [] = r at hfields
    obtain ⟨fields, ok⟩ := r
    cases hfields
    exact ⟨_, _, _, rfl, rfl⟩
  · obtain ⟨hlen, hcells⟩ := Bool.and_eq_true_iff.1 h
    obtain ⟨hlen, hcount⟩ := Bool.and_eq_true_iff.1 hlen
    obtain ⟨row, hrow⟩ := Option.isSome_iff_exists.1 hcells
    unfold onDataRow
    rw [if_neg (not_lt.2 (of_decide_eq_true hlen)), if_neg (not_lt.2 (of_decide_eq_true hlen)),
      if_neg (not_lt.2 (of_decide_eq_true hcount)),
      if_neg (not_lt.2 (of_decide_eq_true hcount)), hrow]
    exact ⟨_, _, _, rfl, rfl⟩
  · exact ⟨_, _, _, rfl, rfl⟩
  · exact ⟨_, _, _, rfl, rfl⟩
  · exact ⟨_, _, _, rfl, rfl⟩

lemma onRowDescription_ne_ready (payload : Bytes) (out out' : WireResult) (e : Bytes) :
    onRowDescription payload out e ≠ .ready out' := by
  unfold onRowDescription
  split
  · nofun
  · split <;> exact fun h => by cases h

lemma onDataRow_ne_ready (payload : Bytes) (out out' : WireResult) (e : Bytes) :
    onDataRow payload out e ≠ .ready out' := by
  unfold onDataRow
  split_ifs
  · nofun
  · nofun
  · split <;> exact fun h => by cases h

lemma onMessage_ne_ready (htype : f.type ≠ kReadyForQuery) (out out' : WireResult)
    (e : Bytes) : onMessage f.type f.body out e ≠ .ready out' := by
  unfold onMessage
  split_ifs
  · exact onRowDescription_ne_ready _ _ _ _
  · exact onDataRow_ne_ready _ _ _ _
  · exact fun h => by cases h
  · exact fun h => by cases h
  · exact fun h => by cases h

lemma recvMsg_frame (type : UInt8) (body rest cause : Bytes) (hlen : body.length + 4 < 2 ^ 31) :
    recvMsg (frame type body ++ rest) cause = if maxMessage < (body.length + 4 : ℕ) then
        .failed (str "protocol error: bad message length") (body ++ rest)
      else .message type body rest := by
  have hread : Reader.int 4 (putI32 (body.length + 4 : ℕ) ++ (body ++ rest)) =
      some (((body.length + 4 : ℕ) : ℤ), body ++ rest) := reads_i32 hlen _
  have hsize : (((body.length + 4 : ℕ) : ℤ) - 4).toNat = body.length := by omega
  show recvMsg (type :: (putI32 (body.length + 4 : ℕ) ++ body ++ rest)) cause = _
  unfold recvMsg
  rw [append_assoc]
  simp only [hread]
  by_cases hmax : maxMessage < ((body.length + 4 : ℕ) : ℤ)
  · rw [if_pos (.inr hmax), if_pos hmax]
  · rw [if_neg (by omega), if_neg hmax, hsize, if_neg (by simp), take_left, drop_left]

section Loop

variable {a : Delivery} {cause : Bytes} {frames : List Frame} {turns : ℕ}

def FromBackend (frames : List Frame) : Prop :=
  ∀ f ∈ frames, f.type ≠ kReadyForQuery ∧ f.body.length + 4 < 2 ^ 31

lemma drain_large (cause : Bytes) (turns : ℕ) (hlen : f.body.length + 4 < 2 ^ 31)
    (hmax : maxMessage < (f.body.length + 4 : ℕ)) (tail : Bytes) (out : WireResult) (e : Bytes) :
    drainUntilReady cause (turns + 1) (f.bytes ++ tail) out e =
      .stopped out (str "protocol error: bad message length") (f.body ++ tail) := by
  unfold Frame.bytes
  rw [drainUntilReady, recvMsg_frame f.type f.body tail cause hlen, if_pos hmax]

def resume (cause : Bytes) (turns : ℕ) (tail e : Bytes) : Outcome → Drained
  | .next out e => drainUntilReady cause turns tail out e
  | .ready out => .ready out e tail
  | .malformed out => .stopped out e tail
  | .threw => .threw e tail

lemma drain_small (cause : Bytes) (turns : ℕ) (hlen : f.body.length + 4 < 2 ^ 31)
    (hmax : ¬ maxMessage < (f.body.length + 4 : ℕ)) (tail : Bytes) (out : WireResult) (e : Bytes) :
    drainUntilReady cause (turns + 1) (f.bytes ++ tail) out e =
      resume cause turns tail e (onMessage f.type f.body out e) := by
  unfold Frame.bytes
  rw [drainUntilReady, recvMsg_frame f.type f.body tail cause hlen, if_neg hmax]
  dsimp only
  cases onMessage f.type f.body out e <;> rfl

lemma drain_frames (hsent : FromBackend frames) (hturns : frames.length ≤ turns) (tail : Bytes)
    (out : WireResult) (e : Bytes) {out' : WireResult} {e' rest : Bytes}
    (h : drainUntilReady cause turns (frames.flatMap Frame.bytes ++ tail) out e
      = .ready out' e' rest) :
    ∃ out₁ e₁, drainUntilReady cause (turns - frames.length) tail out₁ e₁
      = .ready out' e' rest := by
  induction frames generalizing turns out e with
  | nil => exact ⟨out, e, h⟩
  | cons f _ ih =>
    obtain ⟨htype, hlen⟩ := hsent f mem_cons_self
    cases turns with
    | zero => simp at hturns
    | succ turns =>
      rw [flatMap_cons, append_assoc] at h
      by_cases hmax : maxMessage < (f.body.length + 4 : ℕ)
      · rw [drain_large cause turns hlen hmax] at h
        cases h
      · rw [drain_small cause turns hlen hmax] at h
        cases hm : onMessage f.type f.body out e with
        | next out₁ e₁ =>
          rw [hm] at h
          rw [length_cons, Nat.add_sub_add_right]
          exact ih (fun g hg => hsent g (mem_cons_of_mem _ hg)) (Nat.le_of_succ_le_succ hturns)
            out₁ e₁ h
        | ready out₁ => exact absurd hm (onMessage_ne_ready htype out out₁ e)
        | malformed | threw =>
          rw [hm] at h
          cases h

inductive Alike : Drained → Drained → Prop
  | ready (out : WireResult) (e₁ e₂ rest : Bytes) : Alike (.ready out e₁ rest) (.ready out e₂ rest)
  | stopped (out : WireResult) (e rest : Bytes) : Alike (.stopped out e rest) (.stopped out e rest)

lemma alike_frames (hsent : FromBackend frames) (hdecodes : ∀ f ∈ frames, f.decodes)
    (hturns : frames.length ≤ turns) (tail : Bytes)
    (htail : ∀ out e₁ e₂, Alike (drainUntilReady cause (turns - frames.length) tail out e₁)
      (drainUntilReady cause (turns - frames.length) tail out e₂)) (out :
      WireResult) (e₁ e₂ : Bytes) :
    Alike (drainUntilReady cause turns (frames.flatMap Frame.bytes ++ tail) out e₁)
      (drainUntilReady cause turns (frames.flatMap Frame.bytes ++ tail) out e₂) := by
  induction frames generalizing turns out e₁ e₂ with
  | nil => exact htail out e₁ e₂
  | cons f _ ih =>
    obtain ⟨htype, hlen⟩ := hsent f mem_cons_self
    cases turns with
    | zero => simp at hturns
    | succ turns =>
      obtain ⟨out', e₁', e₂', h₁, h₂⟩ :=
        onMessage_of_decodes htype (hdecodes f mem_cons_self) out e₁ e₂
      rw [flatMap_cons, append_assoc]
      by_cases hmax : maxMessage < (f.body.length + 4 : ℕ)
      · rw [drain_large cause turns hlen hmax, drain_large cause turns hlen hmax]
        exact .stopped _ _ _
      · rw [drain_small cause turns hlen hmax, drain_small cause turns hlen hmax, h₁, h₂]
        rw [length_cons, Nat.add_sub_add_right] at htail
        exact ih (fun g hg => hsent g (mem_cons_of_mem _ hg))
          (fun g hg => hdecodes g (mem_cons_of_mem _ hg)) (Nat.le_of_succ_le_succ hturns) htail
          out' e₁' e₂'

lemma drain_ending (h : a.Conforms) (turns : ℕ) (out : WireResult) :
    (∃ out', ∀ e, drainUntilReady a.cause (turns + 1) a.ending.bytes out e = .ready out' e []) ∨
    ∃ error rest, ∀ e, drainUntilReady a.cause (turns + 1) a.ending.bytes out e =
      .stopped out error rest := by
  cases hend : a.ending with
  | ready body =>
    have hframe : Ending.bytes (.ready body) = Frame.bytes ⟨kReadyForQuery, body⟩ ++ [] :=
      (append_nil _).symm
    have hlen : (⟨kReadyForQuery, body⟩ : Frame).body.length + 4 < 2 ^ 31 := h.ready body hend
    rw [hframe]
    by_cases hmax : maxMessage < (((⟨kReadyForQuery, body⟩ : Frame).body.length + 4 : ℕ) : ℤ)
    · exact .inr ⟨_, _, fun e => drain_large a.cause turns hlen hmax [] out e⟩
    · exact .inl ⟨_, fun e => drain_small a.cause turns hlen hmax [] out e⟩
  | broken junk =>
    obtain ⟨error, rest, hjunk⟩ := h.broken junk hend
    refine .inr ⟨error, rest, fun e => ?_⟩
    show drainUntilReady a.cause (turns + 1) junk out e = _
    rw [drainUntilReady, hjunk]

end Loop

lemma length_le_flatMap (frames : List Frame) :
    frames.length ≤ (frames.flatMap Frame.bytes).length := by
  induction frames with
  | nil => exact le_rfl
  | cons f =>
    rw [flatMap_cons, length_append, length_cons]
    have hpos : 0 < f.bytes.length := Nat.succ_pos _
    omega

namespace Channel

variable {c : Channel} {q : Request} {a : Delivery} {qs : List Request}

def Clear (c : Channel) : Prop := c.state = .Ready → c.inbox = []

lemma turns_left (a : Delivery) : a.frames.length ≤ a.bytes.length + 1 ∧
      ∃ turns, a.bytes.length + 1 - a.frames.length = turns + 1 := by
  have hlen : a.frames.length ≤ a.bytes.length := by
    unfold Delivery.bytes
    rw [length_append]
    exact (length_le_flatMap a.frames).trans (Nat.le_add_right _ _)
  exact ⟨by omega, a.bytes.length - a.frames.length, by omega⟩

lemma drain_of_clear (hinb : c.inbox = []) (a : Delivery) :
    c.drain a = drainUntilReady a.cause (a.bytes.length + 1)
      (a.frames.flatMap Frame.bytes ++ a.ending.bytes) {} c.lastError := by
  unfold drain
  rw [hinb, nil_append]
  rfl

lemma rest_of_drain (hinb : c.inbox = []) (hconf : a.Conforms) {out : WireResult} {e rest : Bytes}
    (h : c.drain a = .ready out e rest) : rest = [] := by
  rw [drain_of_clear hinb] at h
  obtain ⟨hturns, turns, hleft⟩ := turns_left a
  obtain ⟨out₁, e₁, hend⟩ := drain_frames hconf.frames hturns _ _ _ h
  rw [hleft] at hend
  obtain ⟨out₂, hready⟩ | ⟨error, rest', hstopped⟩ := drain_ending hconf turns out₁
  · rw [hready] at hend
    cases hend
    rfl
  · rw [hstopped] at hend
    cases hend

lemma alike_drain (hinb : c.inbox = []) (hconf : a.Conforms)
    (hdecodes : ∀ f ∈ a.frames, f.decodes) : Alike (c.drain a) (fresh.drain a) := by
  obtain ⟨hturns, turns, hleft⟩ := turns_left a
  rw [drain_of_clear hinb, drain_of_clear (c := fresh) rfl]
  refine alike_frames hconf.frames hdecodes hturns _ (fun out e₁ e₂ => ?_) _ _ _
  rw [hleft]
  obtain ⟨out', hready⟩ | ⟨error, rest, hstopped⟩ := drain_ending hconf turns out
  · rw [hready, hready]
    exact .ready _ _ _ _
  · rw [hstopped, hstopped]
    exact .stopped _ _ _

lemma state_of_refuses (h : q.kind.refuses c.state = false) : c.state = .Ready := by
  have hor := Bool.or_eq_false_iff.1 h
  simpa using hor.1

lemma Clear.call (h : c.Clear) (hconf : q.delivery.unsent = none → q.delivery.Conforms) :
    (c.call q).2.2.Clear := by
  unfold Channel.call
  cases hrefuses : q.kind.refuses c.state with
  | true => exact h
  | false =>
    have hinb := h (state_of_refuses hrefuses)
    cases huns : q.delivery.unsent with
    | some => exact nofun
    | none =>
      cases hdrain : c.drain q.delivery with
      | ready =>
        simp only [Bool.false_eq_true, if_false]
        exact fun _ => rest_of_drain hinb (hconf huns) hdrain
      | stopped | threw => exact nofun

lemma call_eq_fresh (h : c.Clear) (hready : c.state = .Ready)
    (hconf : q.delivery.unsent = none → q.delivery.Conforms) (hok : c.understood q) :
    (c.call q).1 = (fresh.call q).1 := by
  have hinb := h hready
  rcases Bool.or_eq_true_iff.1 hok with herr | hdecodes
  · have hfresh : c = fresh := by
      obtain ⟨state, lastError, inbox⟩ := c
      have hemp : lastError = [] := of_decide_eq_true herr
      cases hready
      cases hinb
      rw [hemp]
      rfl
    rw [hfresh]
  · unfold Channel.call
    rw [hready]
    cases hrefuses : q.kind.refuses .Ready with
    | true =>
      rw [show q.kind.refuses fresh.state from hrefuses]
      rfl
    | false =>
      rw [show q.kind.refuses fresh.state = false from hrefuses]
      cases huns : q.delivery.unsent with
      | some => rfl
      | none =>
        simp only [Bool.false_eq_true, if_false]
        have halike := alike_drain hinb (hconf huns) (all_eq_true.1 hdecodes)
        generalize c.drain q.delivery = mine at halike ⊢
        generalize fresh.drain q.delivery = own at halike ⊢
        cases halike with
        | ready | stopped => rfl

lemma call_of_not_ready (h : c.state ≠ .Ready) : (c.call q).1 = q.kind.refusal := by
  have hrefuses : q.kind.refuses c.state := by
    unfold CallKind.refuses
    simp [h]
  unfold Channel.call
  rw [if_pos hrefuses]

lemma state_of_stopped (h : (c.call q).2.1 = .stopped) : (c.call q).2.2.state ≠ .Ready := by
  unfold Channel.call at h ⊢
  split at h
  · cases h
  case isFalse hrefuses =>
    rw [if_neg hrefuses]
    cases huns : q.delivery.unsent with
    | some => exact nofun
    | none =>
      cases hdrain : c.drain q.delivery with
      | ready => simp [huns, hdrain] at h
      | stopped | threw => exact nofun

lemma idle_checkin_of_not_ready (p : Pool) (i : ℕ) {conn : PgConnection} (h : conn.state ≠ .Ready) :
    (p.checkin i conn).idle = p.idle := by
  unfold Pool.checkin
  rw [if_neg (by simpa [PgConnection.isReady] using h)]

def next (c : Channel) (q : Request) : Option Channel := some (c.call q).2.2

lemma run_next (c : Channel) (qs : List Request) : Runs.run next c qs = some (c.after qs) := by
  induction qs generalizing c with
  | nil => rfl
  | cons q _ ih => exact ih (c.call q).2.2

lemma Clear.after (h : c.Clear)
    (hconf : ∀ q ∈ qs, q.delivery.unsent = none → q.delivery.Conforms) : (c.after qs).Clear := by
  induction qs generalizing c with
  | nil => exact h
  | cons q _ ih =>
    exact ih (h.call (hconf q mem_cons_self)) fun q' hq' => hconf q' (mem_cons_of_mem _ hq')

/-- Results are those of their own answers in a sequence of calls in which the loop never gives up
at a message while an earlier error is in `last_error_`. -/
theorem synchronised_of_understood (qs : List Request)
    (hconf : ∀ q ∈ qs, q.delivery.unsent = none → q.delivery.Conforms)
    (hok : Runs.Meets next (fun c q => c.understood q = true) fresh qs) : Synchronised qs := by
  rintro before q rest rfl
  have hclear : (fresh.after before).Clear :=
    Clear.after (fun _ => rfl) fun q' hq' => hconf q' (mem_append_left _ hq')
  have hmeets := Runs.meets_of_append hok (run_next fresh before)
  refine ⟨fun hready => ?_, fun hnot => call_of_not_ready hnot, fun hstopped => ?_⟩
  · exact call_eq_fresh hclear hready (hconf q (mem_append_right _ mem_cons_self)) hmeets.1
  · have hstate := state_of_stopped hstopped
    exact ⟨hstate, fun p i conn hconn =>
      idle_checkin_of_not_ready p i (by rw [hconn]; exact hstate)⟩

def syntaxError : Delivery :=
  { frames := [⟨kErrorResponse, [67] ++ str "42601" ++ [0, 77] ++ str "syntax error" ++ [0, 0]⟩]
    ending := .ready [73] }

def oneRow : Delivery :=
  { frames := [⟨kRowDescription, [0, 1] ++ str "n" ++ [0] ++ replicate 18 0⟩,
      ⟨kDataRow, [0, 1, 0, 0, 0, 1, 55]⟩, ⟨kCommandComplete, str "SELECT 1" ++ [0]⟩]
    ending := .ready [73] }

def shortRow : Delivery := { frames := [⟨kDataRow, [0]⟩], ending := .ready [73] }

def cutOff : Delivery := { ending := .broken [68, 0], cause := str "Connection reset by peer" }

lemma conforms_of_ready {frames : List Frame} {body : Bytes}
    (hframe : ∀ f ∈ frames, f.type ≠ kReadyForQuery ∧ f.body.length + 4 < 2 ^ 31)
    (hbody : body.length + 4 < 2 ^ 31) : Delivery.Conforms { frames, ending := .ready body } where
  frames := hframe
  ready := by
    rintro _ ⟨⟩
    exact hbody
  broken := nofun

lemma conforms_cutOff : cutOff.Conforms where
  frames := fun f hf => absurd hf not_mem_nil
  ready := nofun
  broken := by
    rintro _ ⟨⟩
    exact ⟨_, _, rfl⟩

def fourCalls : List Request :=
  [⟨.exec, syntaxError⟩, ⟨.execPrepared false, oneRow⟩, ⟨.prepare, cutOff⟩, ⟨.exec, oneRow⟩]

theorem synchronised_fourCalls :
    Runs.meetsAll next understood fresh fourCalls = true ∧ Synchronised fourCalls := by
  have hok : Runs.meetsAll next understood fresh fourCalls = true := rfl
  have hsyntax : syntaxError.Conforms := conforms_of_ready (by decide +kernel) (by decide)
  have hrow : oneRow.Conforms := conforms_of_ready (by decide +kernel) (by decide)
  refine ⟨hok, synchronised_of_understood fourCalls ?_ (Runs.meets_of_meetsAll hok)⟩
  intro q hq _
  simp only [fourCalls, mem_cons, not_mem_nil, or_false] at hq
  rcases hq with rfl | rfl | rfl | rfl
  · exact hsyntax
  · exact hrow
  · exact conforms_cutOff
  · exact hrow

theorem not_synchronised_shortRow : syntaxError.Conforms ∧ shortRow.Conforms ∧
      ¬ Synchronised [⟨.exec, syntaxError⟩, ⟨.exec, shortRow⟩] := by
  refine ⟨conforms_of_ready (by decide +kernel) (by decide),
    conforms_of_ready (by decide) (by decide), ?_⟩
  intro h
  have hready : (fresh.after [⟨.exec, syntaxError⟩]).state = .Ready := rfl
  have hsame := (h [⟨.exec, syntaxError⟩] ⟨.exec, shortRow⟩ [] rfl).1 hready
  have hstale : ((fresh.after [⟨.exec, syntaxError⟩]).call ⟨.exec, shortRow⟩).1 =
      .result (.failure (str "syntax error")) := by
    decide +kernel
  have hown : (fresh.call ⟨.exec, shortRow⟩).1 = .result (.failure (str "drain failed")) := by
    decide +kernel
  rw [hstale, hown] at hsame
  exact absurd hsame (by decide +kernel)

end Channel

end SpidoNG.Pg
