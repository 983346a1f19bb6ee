import SpidoNG.Pg.Connection

/-!
# Transactions

What a backend session does with the SQL texts of simple queries.
-/

namespace SpidoNG.Pg

open Bytes Option

inductive TxStatus
  | idle
  | active
  | failed
  deriving DecidableEq

inductive TextKind
  | begin
  | commit
  | rollback
  | data
  | mixed
  deriving DecidableEq

structure Session where
  status : TxStatus := .idle
  pending : List Bytes := []
  committed : List Bytes := []
  deriving DecidableEq

/-- What the client cannot know of a text whose answer is lost, of a refused `COMMIT` or `ROLLBACK`,
and of a text of mixed kind. -/
structure Choice where
  took : Bool := false
  stays : Bool := false
  after : Session := {}

namespace Session

def abandon (s : Session) : Session := { s with status := .idle, pending := [] }

def fail (s : Session) : Session := { s with status := .failed, pending := [] }

def perform (kind : TextKind) (sql : Bytes) (s : Session) : Option Session :=
  match kind, s.status with
  | .begin, .failed | .data, .failed | .mixed, _ => none
  | .begin, _ => some { s with status := .active }
  | .commit, .active => some ⟨.idle, [], s.committed ++ s.pending⟩
  | .commit, _ | .rollback, _ => some s.abandon
  | .data, .idle => some { s with committed := s.committed ++ [sql] }
  | .data, .active => some { s with pending := s.pending ++ [sql] }

def refuse (kind : TextKind) (stays : Bool) (s : Session) : Session :=
  if s.status = .idle then s
  else if (kind = .commit ∨ kind = .rollback) ∧ stays = false then s.abandon
  else s.fail

def next (kind : TextKind) (sql : Bytes) (reply : Reply) (ch : Choice) (s : Session) :
    Option Session :=
  if kind = .mixed then some ch.after
  else
    match reply with
    | .ready r => if r.hadError then some (s.refuse kind ch.stays) else s.perform kind sql
    | .failed _ _ => if ch.took then (s.perform kind sql).map abandon else some s.abandon

end Session

structure Link where
  conn : PgConnection
  session : Session := {}
  deriving DecidableEq

namespace Link

def exec (kind : Bytes → TextKind) (sql : Bytes) (reply : Reply) (ch : Choice) (l : Link) :
    Option (PgResult × Link) :=
  let (res, conn, _) := l.conn.exec sql reply
  if l.conn.state ≠ .Ready then some (res, ⟨conn, l.session⟩)
  else (l.session.next (kind sql) sql reply ch).map fun s => (res, ⟨conn, s⟩)

def Safe (l : Link) : Prop := l.conn.state ≠ .Ready ∨ l.session.status = .idle

def Fresh (l : Link) : Prop := l.conn.state = .Ready ∧ l.session = {}

def Open (xs : List Bytes) (l : Link) : Prop :=
  l.conn.state = .Ready ∧ l.session = ⟨.active, xs, []⟩

def Undone (l : Link) : Prop :=
  l.session.pending = [] ∧ l.session.committed = [] ∧
    (l.conn.state = .Ready → l.session.status ≠ .active)

variable {kind : Bytes → TextKind} {sql : Bytes} {l l' : Link} {res : PgResult} {xs : List Bytes}

def Answers (kind : Bytes → TextKind) (sql : Bytes) (l : Link) (res : PgResult)
    (l' : Link) : Prop :=
  ∃ reply ch, l.exec kind sql reply ch = some (res, l')

lemma Answers.cases (h : Answers kind sql l res l') (hready : l.conn.state = .Ready)
    (hkind : kind sql ≠ .mixed) : (res.hadError = false ∧ l'.conn.state = .Ready ∧
        l.session.perform (kind sql) sql = some l'.session) ∨
      (res.hadError ∧ l'.conn.state = .Ready ∧
        ∃ stays, l'.session = l.session.refuse (kind sql) stays) ∨
      (res.hadError ∧ l'.conn.state = .Error ∧ (l'.session = l.session.abandon ∨
          (l.session.perform (kind sql) sql).map Session.abandon = some l'.session)) := by
  obtain ⟨reply, ch, hexec⟩ := h
  cases reply with
  | ready =>
    simp only [exec, PgConnection.exec, hready, ne_eq, not_true_eq_false, if_false, Session.next,
      if_neg hkind] at hexec
    split_ifs at hexec with herr
    · cases hexec
      exact .inr (.inl ⟨herr, hready, ch.stays, rfl⟩)
    · obtain ⟨s, hs, hl⟩ := map_eq_some_iff.1 hexec
      cases hl
      exact .inl ⟨eq_false_of_ne_true herr, hready, hs⟩
  | failed r =>
    simp only [exec, PgConnection.exec, hready, ne_eq, not_true_eq_false, if_false, Session.next,
      if_neg hkind] at hexec
    have hlost : ∀ m, (r.cutShort m).hadError := by
      intro m
      unfold PgResult.cutShort
      split_ifs with hr
      · exact hr
      · rfl
    obtain ⟨s, hs, hl⟩ := map_eq_some_iff.1 hexec
    cases hl
    refine .inr (.inr ⟨hlost _, rfl, ?_⟩)
    split_ifs at hs
    · exact .inr hs
    · cases hs
      exact .inl rfl

lemma Answers.of_not_ready (h : Answers kind sql l res l') (hready : l.conn.state ≠ .Ready) :
    l' = l ∧ res.hadError := by
  obtain ⟨reply, ch, hexec⟩ := h
  simp only [exec, PgConnection.exec, if_pos hready] at hexec
  cases hexec
  exact ⟨rfl, rfl⟩

lemma Fresh.safe (h : Fresh l) : Safe l := .inr (by rw [h.2])

lemma Fresh.committed (h : Fresh l) : l.session.committed = [] := by rw [h.2]

lemma Answers.begin (h : Answers kind sql l res l') (hkind : kind sql = .begin)
    (hpen : l.session.pending = []) (hcom : l.session.committed = []) :
    l'.session.committed = [] ∧ (res.hadError = false → Open [] l') := by
  by_cases hready : l.conn.state = .Ready
  · have hperform : ∀ s, l.session.perform (kind sql) sql = some s → s = ⟨.active, [], []⟩ := by
      intro s hs
      rw [hkind] at hs
      cases hstatus : l.session.status with
      | failed => simp [Session.perform, hstatus] at hs
      | idle | active =>
        simp only [Session.perform, hstatus, some.injEq] at hs
        rw [← hs, hpen, hcom]
    rcases h.cases hready (by simp [hkind]) with ⟨-, hready', hs⟩ | ⟨herr, -, stays, hs⟩ |
      ⟨herr, -, hs⟩
    · rw [hperform _ hs]
      exact ⟨rfl, fun _ => ⟨hready', hperform _ hs⟩⟩
    · refine ⟨?_, by simp [herr]⟩
      unfold Session.refuse at hs
      split_ifs at hs <;> rw [hs] <;> exact hcom
    · refine ⟨?_, by simp [herr]⟩
      rcases hs with hs | hs
      · rw [hs]
        exact hcom
      · obtain ⟨s, hs, heq⟩ := map_eq_some_iff.1 hs
        rw [← heq, hperform s hs]
        rfl
  · obtain ⟨rfl, herr⟩ := h.of_not_ready hready
    exact ⟨hcom, by simp [herr]⟩

lemma Fresh.begin (h : Fresh l) (hkind : kind sql = .begin) (hans : Answers kind sql l res l') :
    (res.hadError = false → Open [] l') ∧ (res.hadError → Safe l' ∧ l'.session.committed = []) := by
  obtain ⟨hready, hsession⟩ := h
  obtain ⟨hcom, hopen⟩ := hans.begin hkind (by rw [hsession]) (by rw [hsession])
  refine ⟨hopen, fun herr => ⟨?_, hcom⟩⟩
  rcases hans.cases hready (by simp [hkind]) with ⟨hok, -⟩ | ⟨-, -, stays, hs⟩ | ⟨-, hlost, -⟩
  · simp [hok] at herr
  · right
    rw [hs, hsession]
    rfl
  · exact .inl (by simp [hlost])

lemma Open.data (h : Open xs l) (hkind : kind sql = .data) (hans : Answers kind sql l res l') :
    (res.hadError = false → Open (xs ++ [sql]) l') ∧ (res.hadError → Undone l') := by
  obtain ⟨hready, hsession⟩ := h
  rcases hans.cases hready (by simp [hkind]) with ⟨hok, hready', hs⟩ | ⟨herr, -, stays, hs⟩ |
    ⟨herr, hlost, hs⟩
  · refine ⟨fun _ => ⟨hready', ?_⟩, by simp [hok]⟩
    rw [hkind, hsession] at hs
    exact (some.inj hs).symm
  · refine ⟨by simp [herr], fun _ => ?_⟩
    rw [hkind, hsession] at hs
    rw [Undone, hs]
    exact ⟨rfl, rfl, nofun⟩
  · refine ⟨by simp [herr], fun _ => ?_⟩
    rw [hkind, hsession] at hs
    rcases hs with hs | hs
    · rw [Undone, hs]
      exact ⟨rfl, rfl, nofun⟩
    · rw [Undone, ← some.inj hs]
      exact ⟨rfl, rfl, nofun⟩

lemma Undone.safe (h : Undone l) (hstatus : l.session.status ≠ .failed) : Safe l := by
  by_cases hready : l.conn.state = .Ready
  · refine .inr ?_
    have hact := h.2.2 hready
    cases hs : l.session.status with
    | idle => rfl
    | active => exact absurd hs hact
    | failed => exact absurd hs hstatus
  · exact .inl hready

lemma undone_of_abandon (hcom : l.session.committed = [])
    (hs : l'.session = l.session.abandon) : Undone l' := by
  rw [Undone, hs]
  exact ⟨rfl, hcom, nofun⟩

lemma Undone.rollback (h : Undone l) (hkind : kind sql = .rollback)
    (hans : Answers kind sql l res l') : Undone l' := by
  by_cases hready : l.conn.state = .Ready
  · obtain ⟨hpen, hcom, -⟩ := h
    have hperform : l.session.perform (kind sql) sql = some l.session.abandon := by
      rw [hkind]
      simp [Session.perform]
    rcases hans.cases hready (by simp [hkind]) with ⟨-, -, hs⟩ | ⟨-, -, stays, hs⟩ | ⟨-, -, hs⟩
    · exact undone_of_abandon hcom (some.inj (hs.symm.trans hperform))
    · unfold Session.refuse at hs
      split_ifs at hs with hidle
      · rw [Undone, hs]
        exact ⟨hpen, hcom, fun _ => by simp [hidle]⟩
      · exact undone_of_abandon hcom hs
      · rw [Undone, hs]
        exact ⟨rfl, hcom, nofun⟩
    · refine undone_of_abandon hcom (hs.elim id fun hs => ?_)
      rw [hperform] at hs
      exact (some.inj hs).symm
  · obtain ⟨rfl, -⟩ := hans.of_not_ready hready
    exact h

lemma Open.commit (h : Open xs l) (hkind : kind sql = .commit) (hans : Answers kind sql l res l') :
    (res.hadError = false → l'.session = ⟨.idle, [], xs⟩) ∧
      (l'.session.status ≠ .failed → Safe l') := by
  obtain ⟨hready, hsession⟩ := h
  rcases hans.cases hready (by simp [hkind]) with ⟨-, -, hs⟩ | ⟨herr, -, stays, hs⟩ |
    ⟨herr, hlost, -⟩
  · rw [hkind, hsession] at hs
    have hs : l'.session = ⟨.idle, [], xs⟩ := (some.inj hs).symm
    exact ⟨fun _ => hs, fun _ => .inr (by rw [hs])⟩
  · refine ⟨by simp [herr], fun hstatus => .inr ?_⟩
    rw [hkind, hsession] at hs
    rw [hs] at hstatus ⊢
    cases stays with
    | false => rfl
    | true => exact absurd rfl hstatus
  · exact ⟨by simp [herr], fun _ => .inl (by simp [hlost])⟩

end Link

end SpidoNG.Pg
