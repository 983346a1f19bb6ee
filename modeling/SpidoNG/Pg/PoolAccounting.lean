import SpidoNG.Lib.Runs
import SpidoNG.Pg.Pool

/-!
# The accounts of the pool

`PgPool` counts its connections in `live_`, which it changes outside the lock as well as under it.
-/

namespace SpidoNG.Pg

open List

inductive Health
  | waiting
  | pinging (drained survivors : List ℕ)
  | checking
  | creating
  deriving DecidableEq

def Health.pinged : Health → List ℕ
  | .pinging drained survivors => drained ++ survivors
  | _ => []

structure Accounts where
  cfg : PoolConfig
  idle : List ℕ
  borrowed : List ℕ
  live : ℕ
  reserved : ℕ
  health : Health
  made : ℕ

inductive PoolEvent
  | take
  | discard (c : ℕ)
  | reserve
  | created (ok : Bool)
  | checkin (c : ℕ) (healthy : Bool)
  | drain
  | ping (ok : Bool)
  | putBack
  | topUp
  | toppedUp (ok : Bool)

namespace Accounts

def start (cfg : PoolConfig) (nproc n : ℕ) : Accounts :=
  let cfg := cfg.normalize nproc
  let n := min n cfg.minConns
  { cfg, idle := List.range n, borrowed := [], live := n, reserved := 0, health := .waiting,
    made := n }

def step (p : Accounts) : PoolEvent → Option Accounts
  | .take =>
    match p.idle with
    | [] => none
    | c :: rest => some { p with idle := rest, borrowed := c :: p.borrowed }
  | .discard c =>
    if c ∈ p.borrowed then some { p with borrowed := p.borrowed.erase c, live := p.live - 1 }
    else none
  | .reserve =>
    if p.idle = [] ∧ p.live < p.cfg.maxConns then
      some { p with live := p.live + 1, reserved := p.reserved + 1 }
    else none
  | .created ok =>
    if p.reserved = 0 then none
    else if ok then
      some { p with reserved := p.reserved - 1, borrowed := p.made ::
        p.borrowed, made := p.made + 1 }
    else some { p with reserved := p.reserved - 1, live := p.live - 1 }
  | .checkin c healthy =>
    if c ∈ p.borrowed then
      if healthy then some { p with borrowed := p.borrowed.erase c, idle := p.idle ++ [c] }
      else some { p with borrowed := p.borrowed.erase c, live := p.live - 1 }
    else none
  | .drain =>
    match p.health with
    | .waiting => some { p with idle := [], health := .pinging p.idle [] }
    | _ => none
  | .ping ok =>
    match p.health with
    | .pinging (c :: drained) survivors =>
      if ok then some { p with health := .pinging drained (survivors ++ [c]) }
      else some { p with health := .pinging drained survivors, live := p.live - 1 }
    | _ => none
  | .putBack =>
    match p.health with
    | .pinging [] survivors => some { p with idle := p.idle ++ survivors, health := .checking }
    | _ => none
  | .topUp =>
    match p.health with
    | .checking =>
      some { p with health := if p.live < p.cfg.minConns then .creating else .waiting }
    | _ => none
  | .toppedUp ok =>
    match p.health with
    | .creating =>
      if ok then
        some { p with
          idle := p.idle ++ [p.made], live := p.live + 1, made := p.made + 1, health := .checking }
      else some { p with health := .waiting }
    | _ => none

def creating (p : Accounts) : ℕ := p.reserved + if p.health = .creating then 1 else 0

def places (p : Accounts) : List ℕ := p.idle ++ p.borrowed ++ p.health.pinged

/-- `live_` is the number of connections that are idle, borrowed, being made or being pinged, it is
within `max_conns`, and no connection is in two places. -/
structure Accounted (p : Accounts) : Prop where
  count : p.live = p.idle.length + p.borrowed.length + p.creating + p.health.pinged.length
  bound : p.live ≤ p.cfg.maxConns
  apart : p.places.Nodup

def filled (p : Accounts) : PoolEvent → Bool
  | .topUp => p.cfg.minConns ≤ p.live
  | _ => true

structure Kept (p : Accounts) : Prop where
  count : p.live = p.places.length + p.reserved
  bound : p.live ≤ p.cfg.maxConns
  apart : p.places.Nodup
  numbered : ∀ c ∈ p.places, c < p.made
  resting : p.health ≠ .creating

variable {p p' : Accounts} {cfg : PoolConfig} {nproc n : ℕ} {es : List PoolEvent}

section

variable (h : p.Kept)
include h

lemma Kept.accounted : p.Accounted where
  count := by
    have hcount := h.count
    unfold places at hcount
    unfold creating
    rw [if_neg h.resting]
    rw [length_append, length_append] at hcount
    omega
  bound := h.bound
  apart := h.apart

lemma Kept.moved (hperm : p'.places.Perm p.places) (hrest : p'.health ≠ .creating)
    (hsame : (p'.cfg, p'.live, p'.reserved, p'.made) = (p.cfg, p.live, p.reserved, p.made)) :
    p'.Kept := by
  simp only [Prod.mk.injEq] at hsame
  obtain ⟨hcfg, hlive, hreserved, hmade⟩ := hsame
  constructor
  · rw [hlive, hreserved, hperm.length_eq]
    exact h.count
  · rw [hlive, hcfg]
    exact h.bound
  · exact hperm.nodup_iff.2 h.apart
  · intro c hc
    rw [hmade]
    exact h.numbered c (hperm.mem_iff.1 hc)
  · exact hrest

variable {c : ℕ}

lemma Kept.dropped (hperm : (c :: p'.places).Perm p.places)
    (hrest : p'.health ≠ .creating) (hlive : p'.live = p.live - 1)
    (hsame : (p'.cfg, p'.reserved, p'.made) = (p.cfg, p.reserved, p.made)) : p'.Kept := by
  simp only [Prod.mk.injEq] at hsame
  obtain ⟨hcfg, hreserved, hmade⟩ := hsame
  have hlen := hperm.length_eq
  rw [length_cons] at hlen
  have hcount := h.count
  have hbound := h.bound
  constructor
  · omega
  · rw [hcfg]
    omega
  · exact (nodup_cons.1 (hperm.nodup_iff.2 h.apart)).2
  · intro a ha
    rw [hmade]
    exact h.numbered a (hperm.mem_iff.1 (mem_cons_of_mem _ ha))
  · exact hrest

lemma Kept.added (hperm : p'.places.Perm (p.made :: p.places))
    (hrest : p'.health ≠ .creating) (hreserved : p'.reserved + 1 = p.reserved)
    (hmade : p'.made = p.made + 1) (hsame : (p'.cfg, p'.live) = (p.cfg, p.live)) : p'.Kept := by
  simp only [Prod.mk.injEq] at hsame
  obtain ⟨hcfg, hlive⟩ := hsame
  have hlen := hperm.length_eq
  rw [length_cons] at hlen
  have hcount := h.count
  constructor
  · omega
  · rw [hlive, hcfg]
    exact h.bound
  · refine hperm.nodup_iff.2 (nodup_cons.2 ⟨fun hmem => ?_, h.apart⟩)
    exact lt_irrefl _ (h.numbered _ hmem)
  · intro a ha
    rw [hmade]
    rcases mem_cons.1 (hperm.mem_iff.1 ha) with rfl | ha
    · exact Nat.lt_succ_self _
    · exact Nat.lt_succ_of_lt (h.numbered a ha)
  · exact hrest

omit h in
lemma perm_erase_borrowed (hc : c ∈ p.borrowed) :
    (c :: (p.idle ++ p.borrowed.erase c ++ p.health.pinged)).Perm p.places := by
  have hborrowed : (c :: p.borrowed.erase c).Perm p.borrowed := (perm_cons_erase hc).symm
  have hleft : (c :: (p.idle ++ p.borrowed.erase c)).Perm (p.idle ++ p.borrowed) :=
    perm_middle.symm.trans (hborrowed.append_left p.idle)
  exact hleft.append_right p.health.pinged

lemma Kept.take {rest : List ℕ} (hidle : p.idle = c :: rest) :
    Kept { p with idle := rest, borrowed := c :: p.borrowed } := by
  refine h.moved ?_ h.resting rfl
  unfold places
  rw [hidle]
  exact perm_middle.append_right _

lemma Kept.discard (hc : c ∈ p.borrowed) :
    Kept { p with borrowed := p.borrowed.erase c, live := p.live - 1 } :=
  h.dropped (perm_erase_borrowed hc) h.resting rfl rfl

lemma Kept.checkin (hc : c ∈ p.borrowed) :
    Kept { p with borrowed := p.borrowed.erase c, idle := p.idle ++ [c] } := by
  refine h.moved ?_ h.resting rfl
  refine List.Perm.trans ?_ (perm_erase_borrowed hc)
  show (p.idle ++ [c] ++ p.borrowed.erase c ++ p.health.pinged).Perm _
  rw [append_assoc p.idle, singleton_append]
  exact perm_middle.append_right _

lemma Kept.drain (hhealth : p.health = .waiting) :
    Kept { p with idle := [], health := .pinging p.idle [] } := by
  refine h.moved ?_ nofun rfl
  show ([] ++ p.borrowed ++ (p.idle ++ [])).Perm p.places
  unfold places
  rw [hhealth, nil_append, append_nil]
  show (p.borrowed ++ p.idle).Perm (p.idle ++ p.borrowed ++ [])
  rw [append_nil]
  exact perm_append_comm

variable {drained survivors : List ℕ}

lemma Kept.pingOk (hhealth : p.health = .pinging (c :: drained) survivors) :
    Kept { p with health := .pinging drained (survivors ++ [c]) } := by
  refine h.moved ?_ nofun rfl
  unfold places
  rw [hhealth]
  refine List.Perm.append_left _ ?_
  show (drained ++ (survivors ++ [c])).Perm (c :: (drained ++ survivors))
  rw [← append_assoc]
  exact perm_append_singleton c _

lemma Kept.pingFailed (hhealth : p.health = .pinging (c :: drained) survivors) :
    Kept { p with health := .pinging drained survivors, live := p.live - 1 } := by
  refine h.dropped (c := c) ?_ nofun rfl rfl
  unfold places
  rw [hhealth]
  exact perm_middle.symm

lemma Kept.putBack (hhealth : p.health = .pinging [] survivors) :
    Kept { p with idle := p.idle ++ survivors, health := .checking } := by
  refine h.moved ?_ nofun rfl
  show (p.idle ++ survivors ++ p.borrowed ++ []).Perm p.places
  unfold places
  rw [hhealth, append_nil, append_assoc, append_assoc]
  exact perm_append_comm.append_left p.idle

lemma Kept.created (hreserved : p.reserved ≠ 0) :
    Kept { p with reserved := p.reserved - 1, borrowed := p.made ::
      p.borrowed, made := p.made + 1 } := by
  refine h.added ?_ h.resting (Nat.succ_pred_eq_of_pos (Nat.pos_of_ne_zero hreserved)) rfl rfl
  exact perm_middle.append_right _

lemma Kept.step {e : PoolEvent} (hok : p.filled e) (hstep : p.step e = some p') : p'.Kept := by
  have hcount := h.count
  have hbound := h.bound
  cases e with
  | take =>
    cases hidle : p.idle with
    | nil => simp [Accounts.step, hidle] at hstep
    | cons =>
      simp only [Accounts.step, hidle] at hstep
      cases hstep
      exact h.take hidle
  | discard =>
    simp only [Accounts.step] at hstep
    split at hstep
    · cases hstep
      exact h.discard ‹_›
    · cases hstep
  | reserve =>
    simp only [Accounts.step] at hstep
    split at hstep
    case isTrue hroom =>
      cases hstep
      exact ⟨by show p.live + 1 = p.places.length + (p.reserved + 1); omega, hroom.2, h.apart,
        h.numbered, h.resting⟩
    case isFalse => cases hstep
  | created =>
    simp only [Accounts.step] at hstep
    split_ifs at hstep with hnone hmade
    · cases hstep
      exact h.created hnone
    · cases hstep
      exact ⟨by show p.live - 1 = p.places.length + (p.reserved - 1); omega,
        (Nat.sub_le _ _).trans hbound, h.apart, h.numbered, h.resting⟩
  | checkin =>
    simp only [Accounts.step] at hstep
    split_ifs at hstep with hc hhealth
    · cases hstep
      exact h.checkin hc
    · cases hstep
      exact h.discard hc
  | drain =>
    cases hhea : p.health with
    | waiting =>
      simp only [Accounts.step, hhea] at hstep
      cases hstep
      exact h.drain hhea
    | _ => simp [Accounts.step, hhea] at hstep
  | ping =>
    cases hhea : p.health with
    | pinging drained =>
      cases drained with
      | nil => simp [Accounts.step, hhea] at hstep
      | cons =>
        simp only [Accounts.step, hhea] at hstep
        split at hstep
        · cases hstep
          exact h.pingOk hhea
        · cases hstep
          exact h.pingFailed hhea
    | _ => simp [Accounts.step, hhea] at hstep
  | putBack =>
    cases hhea : p.health with
    | pinging drained =>
      cases drained with
      | nil =>
        simp only [Accounts.step, hhea] at hstep
        cases hstep
        exact h.putBack hhea
      | cons => simp [Accounts.step, hhea] at hstep
    | _ => simp [Accounts.step, hhea] at hstep
  | topUp =>
    cases hhea : p.health with
    | checking =>
      simp only [Accounts.step, hhea] at hstep
      have hfull : ¬ p.live < p.cfg.minConns := not_lt.2 (of_decide_eq_true hok)
      rw [if_neg hfull] at hstep
      cases hstep
      refine h.moved ?_ nofun rfl
      unfold places
      rw [hhea]
      exact List.Perm.refl _
    | _ => simp [Accounts.step, hhea] at hstep
  | toppedUp =>
    cases hhea : p.health with
    | creating => exact absurd hhea h.resting
    | _ => simp [Accounts.step, hhea] at hstep

end

lemma kept_start (cfg : PoolConfig) (nproc n : ℕ) : (start cfg nproc n).Kept := by
  have hmax : (cfg.normalize nproc).minConns ≤ (cfg.normalize nproc).maxConns := le_max_right _ _
  have hplaces : (start cfg nproc n).places
    = List.range (min n (cfg.normalize nproc).minConns) := by
    show List.range _ ++ [] ++ [] = _
    rw [append_nil, append_nil]
  constructor
  · rw [hplaces, length_range]
    rfl
  · exact (min_le_right _ _).trans hmax
  · rw [hplaces]
    exact nodup_range
  · intro c hc
    rw [hplaces] at hc
    exact mem_range.1 hc
  · nofun

/-- In a run in which the health loop always finds `min_conns` connections, the accounts are right
in every state. -/
theorem accounted_of_filled (cfg : PoolConfig) (nproc n : ℕ) (es : List PoolEvent) (p : Accounts)
    (hok : Runs.Meets step (fun p e => p.filled e = true) (start cfg nproc n) es)
    (hrun : Runs.run step (start cfg nproc n) es = some p) : p.Accounted :=
  Kept.accounted
    (Runs.run_induction (fun h hok hstep => h.step hok hstep) (kept_start cfg nproc n) hok hrun)

def borrowAndPing : List PoolEvent :=
  [.take, .reserve, .created true, .checkin 0 true, .drain, .ping true, .putBack, .topUp, .take,
    .discard 0, .reserve, .created false]

theorem accounted_borrowAndPing :
    ∃ p, Runs.run step (start ⟨1, 2⟩ 4 1) borrowAndPing = some p ∧ p.live = 1 ∧ p.Accounted := by
  have heval : (Runs.run step (start ⟨1, 2⟩ 4 1) borrowAndPing).map Accounts.live = some 1 := by
    decide +kernel
  have hok : Runs.meetsAll step filled (start ⟨1, 2⟩ 4 1) borrowAndPing = true := rfl
  obtain ⟨p, hrun, hp⟩ := Option.map_eq_some_iff.1 heval
  exact ⟨p, hrun, hp, accounted_of_filled ⟨1, 2⟩ 4 1 borrowAndPing p
    (Runs.meets_of_meetsAll hok) hrun⟩

def madeTwice : List PoolEvent :=
  [.drain, .putBack, .topUp, .reserve, .created true, .toppedUp true]

theorem not_accounted_madeTwice :
    ∃ p, Runs.run step (start ⟨1, 1⟩ 4 0) madeTwice = some p ∧ ¬ p.Accounted := by
  have heval : (Runs.run step (start ⟨1, 1⟩ 4 0) madeTwice).map (fun p =>
    (p.live, p.cfg.maxConns)) =
      some (2, 1) := by
    decide +kernel
  obtain ⟨p, hrun, hp⟩ := Option.map_eq_some_iff.1 heval
  obtain ⟨hlive, hmax⟩ := Prod.mk.inj hp
  refine ⟨p, hrun, fun h => ?_⟩
  have hbound := h.bound
  omega

end Accounts

end SpidoNG.Pg
