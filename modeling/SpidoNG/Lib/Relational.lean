import Mathlib.Tactic
import Mathlib.Data.List.Dedup

/-!
# Outer joins and groups

Rows of one table are joined with the rows of several others, and the joined rows are grouped by a
key of the first table.
-/

namespace Relational

open List

variable {α β κ : Type}

def padded (ys : List β) : List (Option β) := if ys.isEmpty then [none] else ys.map some

def leftJoin (on : α → β → Bool) (ys : List β) (xs : List (α × List (Option β))) :
    List (α × List (Option β)) :=
  xs.flatMap fun x => (padded (ys.filter (on x.1))).map fun y => (x.1, x.2 ++ [y])

def leftJoins (ts : List ((α → β → Bool) × List β)) (xs : List α) : List (α × List (Option β)) :=
  ts.foldl (fun acc t => leftJoin t.1 t.2 acc) (xs.map fun x => (x, []))

def choices (ls : List (List β)) : List (List β) :=
  ls.foldl (fun acc l => acc.flatMap fun cs => l.map fun c => cs ++ [c]) [[]]

lemma choices_concat (ls : List (List β)) (l : List β) :
    choices (ls ++ [l]) = (choices ls).flatMap fun cs => l.map fun c => cs ++ [c] := by
  unfold choices
  rw [foldl_append]
  rfl

section

variable (ts : List ((α → β → Bool) × List β))
include ts

lemma leftJoins_concat (t : (α → β → Bool) × List β)
    (xs : List α) : leftJoins (ts ++ [t]) xs = leftJoin t.1 t.2 (leftJoins ts xs) := by
  unfold leftJoins
  rw [foldl_append]
  rfl

lemma leftJoins_eq (xs : List α) : leftJoins ts xs = xs.flatMap fun x =>
      (choices (ts.map fun t => padded (t.2.filter (t.1 x)))).map fun cs => (x, cs) := by
  -- the last join comes last, so the induction takes tables off the end
  induction ts using reverseRecOn with
  | nil => simp [leftJoins, choices, map_eq_flatMap]
  | append_singleton _ _ ih =>
    rw [leftJoins_concat, ih]
    simp only [leftJoin, flatMap_assoc, map_append, map_cons, map_nil,
      choices_concat, flatMap_map, map_flatMap, map_map, Function.comp_def]

lemma filter_leftJoins (xs : List α) (p : α → Bool) :
    ((leftJoins ts xs).filter fun y => p y.1) = leftJoins ts (xs.filter p) := by
  rw [leftJoins_eq, leftJoins_eq]
  induction xs with
  | nil => rfl
  | cons x _ ih =>
    rw [flatMap_cons, filter_append, ih, filter_map]
    cases hp : p x with
    | false | true => simp [hp, Function.comp_def]

end

lemma length_padded (ys : List β) : (padded ys).length = max 1 ys.length := by
  unfold padded
  cases ys with
  | nil => rfl
  | cons => simp

lemma countP_padded (ys : List β) (p : β → Bool) :
    (padded ys).countP (fun y => y.any p) = ys.countP p := by
  unfold padded
  cases ys with
  | nil => rfl
  | cons =>
    rw [if_neg (by simp), countP_map]
    rfl

lemma length_of_mem_choices {ls : List (List β)} {cs : List β} (h : cs ∈ choices ls) :
    cs.length = ls.length := by
  induction ls using reverseRecOn generalizing cs with
  | nil =>
    obtain rfl : cs = [] := by simpa [choices] using h
    rfl
  | append_singleton _ _ ih =>
    rw [choices_concat, mem_flatMap] at h
    obtain ⟨cs', hcs', h⟩ := h
    obtain ⟨c, -, rfl⟩ := mem_map.1 h
    simp [ih hcs']

lemma length_choices (ls : List (List β)) : (choices ls).length = (ls.map List.length).prod := by
  induction ls using reverseRecOn with
  | nil => rfl
  | append_singleton _ _ ih =>
    rw [choices_concat, length_flatMap]
    simp [ih]

lemma countP_flatMap_of_forall {xs : List α} {f : α → List β} {p : β → Bool} {q : α → Bool} {n : ℕ}
    (h : ∀ x ∈ xs, (f x).countP p = if q x then n else 0) :
    (xs.flatMap f).countP p = n * xs.countP q := by
  induction xs with
  | nil => rfl
  | cons x _ ih =>
    rw [flatMap_cons, countP_append, h x (by simp), ih fun y hy => h y (by simp [hy])]
    cases hq : q x with
    | false => simp [hq]
    | true =>
      rw [if_pos rfl, countP_cons_of_pos hq]
      ring

lemma countP_choices (ls : List (List β)) {i : ℕ} {l : List β} (h : ls[i]? = some l)
    (p : β → Bool) : (choices ls).countP (fun cs => cs[i]?.any p) =
      ((ls.eraseIdx i).map List.length).prod * l.countP p := by
  induction ls using reverseRecOn with
  | nil => simp at h
  | append_singleton ls l' ih =>
    rw [choices_concat]
    obtain hi | rfl | hi := lt_trichotomy i ls.length
    · -- the list is an earlier one: each choice from it is followed by all choices from the last
      rw [getElem?_append_left hi] at h
      have hcount : ∀ cs ∈ choices ls, (l'.map fun c => cs ++ [c]).countP (fun cs => cs[i]?.any p) =
          if cs[i]?.any p then l'.length else 0 := by
        intro cs hcs
        have hlt : i < cs.length := by rw [length_of_mem_choices hcs]; exact hi
        simp only [countP_map, Function.comp_def, getElem?_append_left hlt]
        cases cs[i]?.any p <;> simp
      rw [countP_flatMap_of_forall hcount, eraseIdx_append_of_lt_length hi, ih h]
      simp only [map_append, map_cons, map_nil, prod_append, prod_singleton]
      ring
    · -- the list is the last one: each earlier choice is followed by all of its elements
      obtain rfl : l' = l := by simpa using h
      have hcount : ∀ cs ∈ choices ls,
          (l'.map fun c => cs ++ [c]).countP (fun cs => cs[ls.length]?.any p) =
            if true then l'.countP p else 0 := by
        intro cs hcs
        simp [countP_map, Function.comp_def, ← length_of_mem_choices hcs]
      rw [countP_flatMap_of_forall hcount, eraseIdx_append_of_length_le le_rfl]
      simp [length_choices, mul_comm]
    · rw [getElem?_eq_none (by simp; omega)] at h
      simp at h

def groupBy [DecidableEq κ] (key : α → κ) (xs : List α) : List (List α) :=
  (xs.map key).dedup.map fun k => xs.filter fun x => key x = k

section Groups

variable [DecidableEq κ] {key : β → κ} {k : α → κ} {f : α → List β} {xs : List α}

lemma dedup_map_flatMap (hxs : (xs.map k).Nodup) (hf : ∀ x ∈ xs, f x ≠ [])
    (hkey : ∀ x ∈ xs, ∀ y ∈ f x, key y = k x) : ((xs.flatMap f).map key).dedup = xs.map k := by
  induction xs with
  | nil => rfl
  | cons x xs ih =>
    rw [map_cons, nodup_cons] at hxs
    have hhead : (f x).map key = replicate (f x).length (k x) := by
      rw [eq_replicate_iff]
      refine ⟨by simp, fun c hc => ?_⟩
      obtain ⟨y, hy, rfl⟩ := mem_map.1 hc
      exact hkey x (by simp) y hy
    have htail : ∀ c ∈ (xs.flatMap f).map key, c ∈ xs.map k := by
      intro c hc
      obtain ⟨y, hy, rfl⟩ := mem_map.1 hc
      obtain ⟨x', hx', hy⟩ := mem_flatMap.1 hy
      rw [hkey x' (by simp [hx']) y hy]
      exact mem_map_of_mem hx'
    have hdisjoint : List.Disjoint (replicate (f x).length (k x)) ((xs.flatMap f).map key) := by
      intro c hc hc'
      rw [eq_of_mem_replicate hc] at hc'
      exact hxs.1 (htail _ hc')
    rw [flatMap_cons, map_append, hhead, hdisjoint.dedup_append,
      replicate_dedup (by simpa using hf x (by simp)),
      ih hxs.2 (fun y hy => hf y (by simp [hy])) fun y hy => hkey y (by simp [hy])]
    rfl

lemma filter_flatMap_key (hxs : (xs.map k).Nodup) (hkey : ∀ x ∈ xs, ∀ y ∈ f x, key y = k x)
    {x : α} (hx : x ∈ xs) : ((xs.flatMap f).filter fun y => key y = k x) = f x := by
  induction xs with
  | nil => cases hx
  | cons z xs ih =>
    rw [map_cons, nodup_cons] at hxs
    rw [flatMap_cons, filter_append]
    obtain rfl | hx := List.mem_cons.1 hx
    · have hoth : ∀ y ∈ xs.flatMap f, ¬ key y = k x := by
        intro y hy heq
        obtain ⟨x', hx', hy⟩ := mem_flatMap.1 hy
        rw [hkey x' (by simp [hx']) y hy] at heq
        exact hxs.1 (heq ▸ mem_map_of_mem hx')
      rw [filter_eq_self.2 fun y hy => by simpa using hkey x (by simp) y hy,
        filter_eq_nil_iff.2 fun y hy => by simpa using hoth y hy, append_nil]
    · have hoth : ∀ y ∈ f z, ¬ key y = k x := by
        intro y hy heq
        rw [hkey z (by simp) y hy] at heq
        exact hxs.1 (heq ▸ mem_map_of_mem hx)
      rw [filter_eq_nil_iff.2 fun y hy => by simpa using hoth y hy, nil_append]
      exact ih hxs.2 (fun y hy => hkey y (by simp [hy])) hx

lemma groupBy_flatMap (hxs : (xs.map k).Nodup) (hf : ∀ x ∈ xs, f x ≠ [])
    (hkey : ∀ x ∈ xs, ∀ y ∈ f x, key y = k x) : groupBy key (xs.flatMap f) = xs.map f := by
  unfold groupBy
  rw [dedup_map_flatMap hxs hf hkey, map_map]
  exact map_congr_left fun x hx => filter_flatMap_key hxs hkey hx

end Groups

end Relational
