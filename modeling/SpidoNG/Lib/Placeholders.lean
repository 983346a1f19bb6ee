import SpidoNG.Lib.Separated

/-!
# Texts with numbered parameters

A statement for a database is put together from fixed text and from marks `$1`, `$2` and so on that
stand for its parameters.
-/

namespace Placeholders

open Bytes List

inductive Piece
  | text (b : Bytes)
  | mark (k : ℕ)

def Piece.render : Piece → Bytes
  | .text b => b
  | .mark k => str "$" ++ decimal k

def Piece.number : Piece → Option ℕ
  | .text _ => none
  | .mark k => some k

def render (ps : List Piece) : Bytes := ps.flatMap Piece.render

def marks (ps : List Piece) : List ℕ := ps.filterMap Piece.number

section

variable (p : Piece) (ps qs : List Piece)

@[simp] lemma render_nil : render [] = [] := rfl

@[simp] lemma render_cons : render (p :: ps) = p.render ++ render ps := rfl

@[simp] lemma render_append : render (ps ++ qs) = render ps ++ render qs := flatMap_append

@[simp] lemma marks_nil : marks [] = [] := rfl

@[simp] lemma marks_text (b : Bytes) : marks (.text b :: ps) = marks ps := rfl

@[simp] lemma marks_mark (k : ℕ) : marks (.mark k :: ps) = k :: marks ps := rfl

@[simp] lemma marks_append : marks (ps ++ qs) = marks ps ++ marks qs := filterMap_append

end

def scan : Bytes → List Bytes
  | [] => []
  | c :: s => if c = 36 then s.takeWhile isDigit :: scan s else scan s

def Apart (s : Bytes) : Prop := ∀ c ∈ s.head?, isDigit c = false

variable {a s : Bytes}

lemma scan_append (ha : 36 ∉ a) (s : Bytes) : scan (a ++ s) = scan s := by
  induction a with
  | nil => rfl
  | cons c a ih =>
    rw [mem_cons, not_or] at ha
    show (if c = 36 then _ else _) = _
    rw [if_neg (Ne.symm ha.1)]
    exact ih ha.2

lemma isDigit_of_mem_decimal {k : ℕ} {c : UInt8} (h : c ∈ decimal k) : isDigit c := by
  obtain ⟨hlow, hhigh⟩ := digit_of_mem_decimal h
  simp [isDigit, hlow, hhigh]

lemma takeWhile_append_of_apart (ha : ∀ c ∈ a, isDigit c) (hs : Apart s) :
    (a ++ s).takeWhile isDigit = a := by
  rw [takeWhile_append_of_pos ha]
  cases s with
  | nil => simp
  | cons c => simp [hs c rfl]

lemma scan_mark (hs : Apart s) (k : ℕ) :
    scan ((Piece.mark k).render ++ s) = decimal k :: scan s := by
  have hdollar : str "$" = [36] := rfl
  have hnone : 36 ∉ decimal k := fun h => absurd (isDigit_of_mem_decimal h) (by decide)
  show scan ((str "$" ++ decimal k) ++ s) = _
  rw [hdollar, append_assoc, singleton_append, scan, if_pos rfl, scan_append hnone,
    takeWhile_append_of_apart (fun c => isDigit_of_mem_decimal) hs]

def Spread : List Piece → Prop
  | [] => True
  | .text _ :: ps => Spread ps
  | .mark _ :: ps => Apart (render ps) ∧ Spread ps

lemma Apart.append {b : Bytes} (ha : Apart a) (hb : Apart b) : Apart (a ++ b) := by
  cases a with
  | nil => exact hb
  | cons => exact ha

lemma Spread.append {ps qs : List Piece} (hp : Spread ps) (hq : Spread qs)
    (hapart : Apart (render qs)) : Spread (ps ++ qs) := by
  induction ps with
  | nil => exact hq
  | cons p ps ih =>
    cases p with
    | text => exact ih hp
    | mark =>
      have hrest : Apart (render (ps ++ qs)) := by
        rw [render_append]
        exact hp.1.append hapart
      exact ⟨hrest, ih hp.2⟩

lemma scan_render {ps : List Piece} (h : Spread ps) (htext : ∀ b, .text b ∈ ps → 36 ∉ b) :
    scan (render ps) = (marks ps).map decimal := by
  induction ps with
  | nil => rfl
  | cons p ps ih =>
    have hrest : ∀ b, .text b ∈ ps → 36 ∉ b := fun b hb => htext b (mem_cons_of_mem p hb)
    rw [render_cons]
    cases p with
    | text b =>
      rw [show (Piece.text b).render = b from rfl, scan_append (htext b mem_cons_self), ih h hrest,
        marks_text]
    | mark => rw [scan_mark h.1, ih h.2 hrest, marks_mark, map_cons]

inductive Slot (α : Type)
  | fixed (a : α)
  | param (f : ℕ → α)

def Slot.takes {α : Type} : Slot α → Bool
  | .fixed _ => false
  | .param _ => true

section

variable {α : Type}

def assign : ℕ → List (Slot α) → List α
  | _, [] => []
  | k, .fixed a :: ss => a :: assign k ss
  | k, .param f :: ss => f (k + 1) :: assign (k + 1) ss

def arity (ss : List (Slot α)) : ℕ := ss.countP Slot.takes

@[simp] lemma arity_append (ss ts : List (Slot α)) : arity (ss ++ ts) = arity ss + arity ts :=
  countP_append

@[simp] lemma arity_fixed (a : α) : arity [Slot.fixed a] = 0 := rfl

@[simp] lemma arity_param (f : ℕ → α) : arity [Slot.param f] = 1 := rfl

lemma assign_append (k : ℕ) (ss ts : List (Slot α)) :
    assign k (ss ++ ts) = assign k ss ++ assign (k + arity ss) ts := by
  induction ss generalizing k with
  | nil => rfl
  | cons s ss ih =>
    cases s with
    | fixed a => exact congrArg (a :: ·) (ih k)
    | param f =>
      show f (k + 1) :: assign (k + 1) (ss ++ ts) = _
      rw [ih, show arity (.param f :: ss) = arity ss + 1 from countP_cons_of_pos rfl,
        Nat.add_right_comm, ← Nat.add_assoc]
      rfl

lemma flatMap_assign {m : α → List ℕ} {ss : List (Slot α)}
    (hfixed : ∀ a, .fixed a ∈ ss → m a = []) (hparam : ∀ f, .param f ∈ ss → ∀ k, m (f k) = [k])
    (k : ℕ) : (assign k ss).flatMap m = range' (k + 1) (arity ss) := by
  induction ss generalizing k with
  | nil => rfl
  | cons s ss ih =>
    have hrest := ih (fun a ha => hfixed a (mem_cons_of_mem _ ha))
      fun f hf => hparam f (mem_cons_of_mem _ hf)
    cases s with
    | fixed a =>
      rw [assign, flatMap_cons, hfixed a mem_cons_self, hrest]
      rfl
    | param f =>
      rw [assign, flatMap_cons, hparam f mem_cons_self, hrest,
        show arity (.param f :: ss) = arity ss + 1 from countP_cons_of_pos rfl, range'_succ]
      rfl

end

end Placeholders
