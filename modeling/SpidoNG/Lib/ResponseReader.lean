import SpidoNG.Lib.Separated

/-!
# A client that reads responses

How a client finds the end of a response in the bytes of a connection (RFC 9112, sections 2 to 7).
-/

namespace ResponseReader

open Bytes List Option Nat

def cut (lf : Bool) : Bytes → Option (Bytes × Bytes)
  | [] => none
  | c :: s =>
    if c = 10 ∧ lf then some ([], s)
    else if c = 13 ∧ s.head? = some 10 then some ([], s.tail)
    else (cut lf s).map fun l => (c :: l.1, l.2)

def readLinesFor (lf : Bool) : ℕ → Bytes → Option (List Bytes × Bytes)
  | 0, _ => none
  | n + 1, s => (cut lf s).bind fun l =>
      if l.1 = [] then some ([], l.2)
      else (readLinesFor lf n l.2).map fun r => (l.1 :: r.1, r.2)

def readLines (lf : Bool) (s : Bytes) : Option (List Bytes × Bytes) :=
  readLinesFor lf (s.length + 1) s

def linesFor (lf : Bool) : ℕ → Bytes → List Bytes
  | 0, _ => []
  | n + 1, s => ((cut lf s).map fun l => l.1 :: linesFor lf n l.2).getD []

def linesOf (lf : Bool) (s : Bytes) : List Bytes := linesFor lf s.length s

def isBlank (c : UInt8) : Bool := c == 32 || c == 9

def joinLine (lines : List Bytes) (l : Bytes) : List Bytes :=
  if (l.head?).any isBlank then
    match lines with
    | [] => []
    | a :: lines => (a ++ [32] ++ l) :: lines
  else l :: lines

def fieldLines (lines : List Bytes) : List Bytes := lines.foldl joinLine []

def trim (s : Bytes) : Bytes := (s.dropWhile isBlank).rdropWhile isBlank

def lower (c : UInt8) : UInt8 := if 65 ≤ c && c ≤ 90 then c + 32 else c

def valueOf (name l : Bytes) : Option Bytes :=
  if l.contains 58 && (l.takeWhile (· != 58)).map lower == name then
    some (trim (l.dropWhile (· != 58)).tail)
  else none

def values (name : Bytes) (lines : List Bytes) : List Bytes :=
  (fieldLines lines).filterMap (valueOf name)

def numeral (s : Bytes) : Option ℕ :=
  if s ≠ [] ∧ s.all (fun c => 48 ≤ c && c ≤ 57) then
    some (Nat.ofDigitChars 10 (s.map fun b => Char.ofNat b.toNat) 0)
  else none

def chunkedLast (codings : List Bytes) : Bool :=
  ((codings.head?).bind fun v => (v.splitOn 44).getLast?).any fun c =>
    (trim c).map lower == str "chunked"

def hexValue (c : UInt8) : Option ℕ :=
  if 48 ≤ c && c ≤ 57 then some (c.toNat - 48)
  else if 97 ≤ c && c ≤ 102 then some (c.toNat - 87)
  else if 65 ≤ c && c ≤ 70 then some (c.toNat - 55)
  else none

def chunkSize (l : Bytes) : Option ℕ :=
  let digits := trim (l.takeWhile (· != 59))
  if digits = [] then none
  else digits.foldl (fun n c => n.bind fun n => (hexValue c).map (n * 16 + ·)) (some 0)

def readChunksFor (lf : Bool) : ℕ → Bytes → Option (Bytes × Bytes)
  | 0, _ => none
  | n + 1, s => (cut lf s).bind fun l => (chunkSize l.1).bind fun k =>
      if k = 0 then (readLines lf l.2).map fun r => ([], r.2)
      else if l.2.length < k then none
      else (cut lf (l.2.drop k)).bind fun e =>
        if e.1 = [] then (readChunksFor lf n e.2).map fun r => (l.2.take k ++ r.1, r.2)
        else none

def readChunks (lf : Bool) (s : Bytes) : Option (Bytes × Bytes) :=
  readChunksFor lf (s.length + 1) s

def statusOf : Bytes → Option ℕ
  | 72 :: 84 :: 84 :: 80 :: 47 :: x :: 46 :: y :: 32 :: a :: b :: c :: 32 :: _ =>
    if [x, y, a, b, c].all fun d => 48 ≤ d && d ≤ 57 then
      some ((a.toNat - 48) * 100 + (b.toNat - 48) * 10 + (c.toNat - 48))
    else none
  | _ => none

structure Message where
  status : ℕ
  body : Bytes
  rest : Bytes
  deriving DecidableEq

def bodiless (head : Bool) (status : ℕ) : Bool := head || status == 204 || status == 304

def untilClose (closes : Bool) (status : ℕ) (s : Bytes) : Option Message :=
  if closes then some ⟨status, s, []⟩ else none

def readLength (status : ℕ) (v : Bytes) (vs : List Bytes) (s : Bytes) : Option Message :=
  (numeral v).bind fun n =>
    if vs.all (fun v => numeral v == some n) && n ≤ s.length then
      some ⟨status, s.take n, s.drop n⟩
    else none

def readBody (lf closes : Bool) (status : ℕ) (lines : List Bytes) (s : Bytes) : Option Message :=
  let codings := values (str "transfer-encoding") lines
  if codings ≠ [] then
    if chunkedLast codings then (readChunks lf s).map fun r => ⟨status, r.1, r.2⟩
    else untilClose closes status s
  else
    match values (str "content-length") lines with
    | [] => untilClose closes status s
    | v :: vs => readLength status v vs s

def readFor (lf closes head : Bool) : ℕ → Bytes → Option Message
  | 0, _ => none
  | n + 1, s => (cut lf s).bind fun l => (statusOf l.1).bind fun status =>
      (readLines lf l.2).bind fun h =>
        if status < 200 then readFor lf closes head n h.2
        else if bodiless head status then some ⟨status, [], h.2⟩
        else readBody lf closes status h.1 h.2

def read (lf closes head : Bool) (s : Bytes) : Option Message :=
  readFor lf closes head (s.length + 1) s

variable {lf closes head : Bool} {l s r t : Bytes}

lemma cut_local (h : cut lf s = some (l, r)) :
    ∃ u, s = u ++ 10 :: r ∧ ∀ r', cut lf (u ++ 10 :: r') = some (l, r') := by
  induction s generalizing l r with
  | nil => cases h
  | cons c s ih =>
    unfold cut at h
    split_ifs at h with hfeed hend
    · cases h
      refine ⟨[], by rw [hfeed.1, nil_append], fun r' => ?_⟩
      rw [nil_append, cut, if_pos ⟨rfl, hfeed.2⟩]
    · cases h
      refine ⟨[13], ?_, fun r' => ?_⟩
      · rw [hend.1, singleton_append, cons_head?_tail hend.2]
      · rw [singleton_append, cut, if_neg (by simp), if_pos ⟨rfl, rfl⟩]
        rfl
    · obtain ⟨⟨l', r'⟩, hcut, hl⟩ := map_eq_some_iff.1 h
      cases hl
      obtain ⟨u, hu, hloc⟩ := ih hcut
      refine ⟨c :: u, by rw [hu]; rfl, fun r' => ?_⟩
      -- The next character does not depend on what follows either.
      have hnext : (u ++ 10 :: r').head? = s.head? := by
        rw [hu]
        cases u <;> rfl
      rw [cons_append, cut, if_neg hfeed, hnext, if_neg hend, hloc r']
      rfl

lemma cut_line (hl : 10 ∉ l) (s : Bytes) : cut lf (l ++ 13 :: 10 :: s) = some (l, s) := by
  induction l with
  | nil =>
    rw [nil_append, cut, if_neg (by simp), if_pos ⟨rfl, rfl⟩]
    rfl
  | cons c l ih =>
    rw [mem_cons, not_or] at hl
    have hnext : (l ++ 13 :: 10 :: s).head? ≠ some 10 := by
      cases l with
      | nil => simp
      | cons =>
        intro hd
        exact hl.2 (by simp at hd; simp [hd])
    rw [cons_append, cut, if_neg fun hc => hl.1 hc.1.symm, if_neg fun hc => hnext hc.2, ih hl.2]
    rfl

lemma exists_cut (lf : Bool) (a b : Bytes) : ∃ l r, cut lf (a ++ 13 :: 10 :: b) = some (l, r) := by
  induction a with
  | nil => exact ⟨[], b, cut_line (by simp) b⟩
  | cons c a ih =>
    obtain ⟨l, r, hcut⟩ := ih
    rw [cons_append, cut]
    split_ifs
    · exact ⟨_, _, rfl⟩
    · exact ⟨_, _, rfl⟩
    · rw [hcut]
      exact ⟨_, _, rfl⟩

variable {lines ls : List Bytes} {n : ℕ}

lemma readLinesFor_local (h : readLinesFor lf n s = some (lines, r)) : ∃ u, s = u ++ r ∧ u ≠ [] ∧
      ∀ r' m, u.length < m → readLinesFor lf m (u ++ r') = some (lines, r') := by
  induction n generalizing s lines with
  | zero => cases h
  | succ n ih =>
    obtain ⟨⟨l, s'⟩, hcut, h⟩ := bind_eq_some_iff.1 h
    obtain ⟨u, hu, hloc⟩ := cut_local hcut
    dsimp only at h
    split_ifs at h with hl
    · cases h
      refine ⟨u ++ [10], by rw [hu, append_assoc]; rfl, by simp, fun r' m hm => ?_⟩
      obtain ⟨m, rfl⟩ := exists_eq_succ_of_ne_zero (by omega : m ≠ 0)
      rw [append_assoc, singleton_append, readLinesFor, hloc, bind_some, if_pos hl]
    · obtain ⟨⟨lines', r₁⟩, hlines, heq⟩ := map_eq_some_iff.1 h
      cases heq
      obtain ⟨v, hv, -, hrest⟩ := ih hlines
      refine ⟨u ++ 10 :: v, by rw [hu, hv, append_assoc]; rfl, by simp, fun r' m hm => ?_⟩
      obtain ⟨m, rfl⟩ := exists_eq_succ_of_ne_zero (by omega : m ≠ 0)
      rw [append_assoc, cons_append, readLinesFor, hloc, bind_some, if_neg hl,
        hrest r' m (by simp at hm; omega)]
      rfl

lemma readLines_local (h : readLines lf s = some (lines, r)) :
    ∃ u, s = u ++ r ∧ u ≠ [] ∧ ∀ r', readLines lf (u ++ r') = some (lines, r') := by
  obtain ⟨u, hu, hne, hloc⟩ := readLinesFor_local h
  exact ⟨u, hu, hne, fun r' => hloc r' _ (by simp)⟩

lemma readLines_cons (h : cut lf s = some (l, r)) (hl : l ≠ []) :
    readLines lf s = (readLines lf r).map fun x => (l :: x.1, x.2) := by
  obtain ⟨u, rfl, -⟩ := cut_local h
  have hstep : readLines lf (u ++ 10 :: r) =
      (readLinesFor lf (u ++ 10 :: r).length r).map fun x => (l :: x.1, x.2) := by
    rw [readLines, readLinesFor, h, bind_some, if_neg hl]
  rw [hstep]
  congr 1
  -- The bound does not matter as long as it is beyond the length.
  cases hr : readLines lf r with
  | some x =>
    obtain ⟨v, rfl, -, hloc⟩ := readLinesFor_local hr
    exact hloc x.2 _ (by simp; omega)
  | none =>
    cases hm : readLinesFor lf (u ++ 10 :: r).length r with
    | none => rfl
    | some x =>
      obtain ⟨v, rfl, -, hloc⟩ := readLinesFor_local hm
      rw [readLines, hloc x.2 _ (by simp)] at hr
      cases hr

lemma readLines_nil (h : cut lf s = some ([], r)) : readLines lf s = some ([], r) := by
  rw [readLines, readLinesFor, h, bind_some, if_pos rfl]

def Ended (s : Bytes) : Prop := s = [] ∨ ∃ a, s = a ++ [13, 10]

lemma Ended.append (hs : Ended s) (ht : Ended t) : Ended (s ++ t) := by
  rcases ht with rfl | ⟨a, rfl⟩
  · rw [append_nil]
    exact hs
  · exact .inr ⟨s ++ a, (append_assoc ..).symm⟩

lemma Ended.exists_cut (lf : Bool) (h : Ended s) (hs : s ≠ []) :
    ∃ l r, cut lf s = some (l, r) ∧ Ended r ∧ r.length < s.length := by
  obtain ⟨a, rfl⟩ := h.resolve_left hs
  obtain ⟨l, r, hcut⟩ := ResponseReader.exists_cut lf a []
  obtain ⟨u, hu, -⟩ := cut_local hcut
  refine ⟨l, r, hcut, ?_, ?_⟩
  · -- The rest is nothing, or it is long enough to have the end of the text in it.
    rcases eq_nil_or_concat r with rfl | ⟨r', c, rfl⟩
    · exact .inl rfl
    rcases eq_nil_or_concat r' with rfl | ⟨r'', d, rfl⟩
    · have hlast := congrArg List.reverse hu
      simp at hlast
    · have hlast := congrArg List.reverse hu
      simp only [concat_eq_append, reverse_append, reverse_cons, reverse_nil,
        nil_append, cons_append, List.cons.injEq] at hlast
      refine .inr ⟨r'', ?_⟩
      rw [← hlast.1, ← hlast.2.1]
      simp
  · rw [hu, length_append, length_cons]
    omega

lemma linesFor_eq {m : ℕ} (hn : s.length ≤ n) (hm : s.length ≤ m) :
    linesFor lf n s = linesFor lf m s := by
  induction n generalizing s m with
  | zero =>
    obtain rfl := eq_nil_of_length_eq_zero (le_zero.1 hn)
    cases m <;> rfl
  | succ n ih =>
    cases hcut : cut lf s with
    | none =>
      cases m with
      | zero => rw [linesFor, linesFor, hcut, map_none, getD_none]
      | succ => rw [linesFor, linesFor, hcut, map_none, map_none]
    | some x =>
      obtain ⟨u, hu, -⟩ := cut_local (l := x.1) (r := x.2) hcut
      have hlen := congrArg List.length hu
      rw [length_append, length_cons] at hlen
      obtain ⟨m, rfl⟩ := exists_eq_succ_of_ne_zero (by omega : m ≠ 0)
      rw [linesFor, linesFor, hcut, map_some, map_some, ih (m := m) (by omega) (by omega)]

lemma linesOf_cons (h : cut lf s = some (l, r)) : linesOf lf s = l :: linesOf lf r := by
  obtain ⟨u, hu, -⟩ := cut_local h
  have hlen := congrArg List.length hu
  rw [length_append, length_cons] at hlen
  obtain ⟨n, hn⟩ := exists_eq_succ_of_ne_zero (by omega : s.length ≠ 0)
  rw [linesOf, hn, linesFor, h, map_some, getD_some]
  have hr : r.length ≤ n := by omega
  exact congrArg _ (linesFor_eq hr le_rfl)

lemma cut_append (h : cut lf s = some (l, r)) (t : Bytes) : cut lf (s ++ t) = some (l, r ++ t) := by
  obtain ⟨u, rfl, hloc⟩ := cut_local h
  rw [append_assoc, cons_append, hloc]

lemma readLines_append (h : Ended s) (hno : readLines lf s = none) (t : Bytes) :
    readLines lf (s ++ t) = (readLines lf t).map fun x => (linesOf lf s ++ x.1, x.2) := by
  induction hn : s.length using Nat.strong_induction_on generalizing s with
  | _ n ih =>
    subst hn
    by_cases hs : s = []
    · subst hs
      simp [linesOf, linesFor]
    · obtain ⟨l, r, hcut, hend, hlt⟩ := h.exists_cut lf hs
      have hl : l ≠ [] := by
        rintro rfl
        rw [readLines_nil hcut] at hno
        cases hno
      rw [readLines_cons hcut hl, map_eq_none_iff] at hno
      rw [readLines_cons (cut_append hcut t) hl, ih _ hlt hend hno rfl, linesOf_cons hcut,
        Option.map_map]
      rfl

lemma linesOf_append (h : Ended s) (t : Bytes) : linesOf lf (s ++ t) = linesOf lf s ++
    linesOf lf t := by
  induction hn : s.length using Nat.strong_induction_on generalizing s with
  | _ n ih =>
    subst hn
    by_cases hs : s = []
    · subst hs
      rfl
    · obtain ⟨l, r, hcut, hend, hlt⟩ := h.exists_cut lf hs
      rw [linesOf_cons (cut_append hcut t), linesOf_cons hcut, ih _ hlt hend rfl]
      rfl

variable {a name k v : Bytes}

lemma cut_skip (ha : ∀ c ∈ a, c ≠ 10 ∧ c ≠ 13) (s : Bytes) :
    cut lf (a ++ s) = (cut lf s).map fun l => (a ++ l.1, l.2) := by
  induction a with
  | nil => simp
  | cons c a ih =>
    obtain ⟨hfeed, hreturn⟩ := ha c mem_cons_self
    rw [cons_append, cut, if_neg fun hc => hfeed hc.1, if_neg fun hc => hreturn hc.1,
      ih fun c hc => ha c (mem_cons_of_mem _ hc), Option.map_map]
    rfl

def written (l : Bytes) : Bytes := l ++ [13, 10]

lemma readLines_written (hls : ∀ l ∈ ls, l ≠ [] ∧ 10 ∉ l) (s : Bytes) :
    readLines lf (ls.flatMap written ++ 13 :: 10 :: s) = some (ls, s) := by
  induction ls with
  | nil => exact readLines_nil (cut_line (l := []) (by simp) s)
  | cons l ls ih =>
    obtain ⟨hne, hfeed⟩ := hls l mem_cons_self
    have htext : (l :: ls).flatMap written ++ 13 :: 10 :: s =
        l ++ 13 :: 10 :: (ls.flatMap written ++ 13 :: 10 :: s) := by
      simp [written]
    rw [htext, readLines_cons (cut_line hfeed _) hne, ih fun l hl => hls l (mem_cons_of_mem _ hl)]
    rfl

lemma joinLine_of_not_blank (h : (l.head?).any isBlank = false) : joinLine ls l = l :: ls := by
  unfold joinLine
  rw [if_neg (by simp [h])]

lemma values_append {own : List Bytes} (hown : ∀ l ∈ own, (l.head?).any isBlank = false) :
    values name (ls ++ own) = own.reverse.filterMap (valueOf name) ++ values name ls := by
  have hjoin : ∀ acc : List Bytes, own.foldl joinLine acc = own.reverse ++ acc := by
    induction own with
    | nil => exact fun _ => rfl
    | cons l _ ih =>
      intro acc
      rw [foldl_cons, joinLine_of_not_blank (hown l mem_cons_self),
        ih fun l hl => hown l (mem_cons_of_mem _ hl), reverse_cons, append_assoc]
      rfl
  rw [values, fieldLines, foldl_append, hjoin, filterMap_append]
  rfl

lemma valueOf_colon (hk : 58 ∉ k) (v : Bytes) :
    valueOf name (k ++ 58 :: v) = if k.map lower = name then some (trim v) else none := by
  have hall : ∀ c ∈ k, (c != 58) := by
    intro c hc
    exact bne_iff_ne.2 (ne_of_mem_of_not_mem hc hk)
  have htake : (k ++ 58 :: v).takeWhile (· != 58) = k := by
    rw [takeWhile_append_of_pos hall]
    simp
  have hdrop : (k ++ 58 :: v).dropWhile (· != 58) = 58 :: v := by
    rw [dropWhile_append_of_pos hall]
    simp
  rw [valueOf, htake, hdrop]
  simp

lemma values_ne_nil (hk : k.map lower = name)
    (hcol : 58 ∉ k) (hblank : (k.head?).any isBlank = false) (hne : k ≠ [])
    (hl : ∃ l ∈ ls, ∃ v, l = k ++ 58 :: v) : values name ls ≠ [] := by
  -- Such a line stays in the list, at most with something behind it.
  have hnamed : ∀ (ls acc : List Bytes),
      ((∃ l ∈ acc, ∃ v, l = k ++ 58 :: v) ∨ ∃ l ∈ ls, ∃ v, l = k ++ 58 :: v) →
        ∃ l ∈ ls.foldl joinLine acc, ∃ v, l = k ++ 58 :: v := by
    intro ls
    induction ls with
    | nil => exact fun acc h => h.resolve_right (by simp)
    | cons l _ ih =>
      intro acc h
      refine ih _ ?_
      rcases h with ⟨a, ha, v, hv⟩ | ⟨a, ha, v, hv⟩
      · left
        unfold joinLine
        split_ifs
        · cases acc with
          | nil => cases ha
          | cons =>
            rcases mem_cons.1 ha with rfl | ha
            · exact ⟨_, mem_cons_self, v ++ [32] ++ l, by rw [hv]; simp⟩
            · exact ⟨a, mem_cons_of_mem _ ha, v, hv⟩
        · exact ⟨a, mem_cons_of_mem _ ha, v, hv⟩
      · rcases mem_cons.1 ha with rfl | ha
        · left
          have hhead : (a.head?).any isBlank = false := by
            rw [hv]
            cases k with
            | nil => exact absurd rfl hne
            | cons => exact hblank
          rw [joinLine_of_not_blank hhead]
          exact ⟨a, mem_cons_self, v, hv⟩
        · exact .inr ⟨a, ha, v, hv⟩
  obtain ⟨l, hl, v, hv⟩ := hnamed ls [] (.inr hl)
  have hval : valueOf name l = some (trim v) := by
    rw [hv, valueOf_colon hcol, if_pos hk]
  exact ne_nil_of_mem (mem_filterMap.2 ⟨l, hl, hval⟩)

lemma trim_blank (hv : ∀ c ∈ v, isBlank c = false) : trim (32 :: v) = v := by
  have hfirst : (32 :: v).dropWhile isBlank = v := by
    rw [dropWhile_cons_of_pos rfl]
    cases v with
    | nil => rfl
    | cons c => rw [dropWhile_cons_of_neg (by simp [hv c mem_cons_self])]
  rw [trim, hfirst, rdropWhile_eq_self_iff]
  intro hne
  simp [hv _ (getLast_mem hne)]

lemma numeral_decimal (n : ℕ) : numeral (decimal n) = some n := by
  have hne : decimal n ≠ [] := by
    unfold decimal
    simp [toDigits_ne_nil]
  have hdigits : (decimal n).all (fun c => 48 ≤ c && c ≤ 57) := by
    rw [List.all_eq_true]
    intro c hc
    obtain ⟨hlow, hhigh⟩ := digit_of_mem_decimal hc
    simp [hlow, hhigh]
  rw [numeral, if_pos ⟨hne, hdigits⟩, map_decimal, ofDigitChars_ten_toDigits]

lemma readChunksFor_local {b : Bytes} (h : readChunksFor lf n s = some (b, r)) :
    ∃ u, s = u ++ r ∧ b.length < u.length ∧
      ∀ r' m, u.length < m → readChunksFor lf m (u ++ r') = some (b, r') := by
  induction n generalizing s b with
  | zero => cases h
  | succ n ih =>
    obtain ⟨⟨l, s'⟩, hcut, h⟩ := bind_eq_some_iff.1 h
    obtain ⟨k, hk, h⟩ := bind_eq_some_iff.1 h
    obtain ⟨u, hu, hloc⟩ := cut_local hcut
    dsimp only at h hk
    split_ifs at h with hlast hshort
    · obtain ⟨⟨lines, r₁⟩, hlines, heq⟩ := map_eq_some_iff.1 h
      cases heq
      obtain ⟨v, hv, -, hrest⟩ := readLines_local hlines
      refine ⟨u ++ 10 :: v, by rw [hu, hv, append_assoc]; rfl, by simp, fun r' m hm => ?_⟩
      obtain ⟨m, rfl⟩ := exists_eq_succ_of_ne_zero (by omega : m ≠ 0)
      rw [append_assoc, cons_append, readChunksFor, hloc, bind_some, hk,
        bind_some, if_pos hlast, hrest]
      rfl
    · obtain ⟨⟨e, s''⟩, hcut', h⟩ := bind_eq_some_iff.1 h
      split_ifs at h with hend
      obtain ⟨⟨b', r₁⟩, hchunks, heq⟩ := map_eq_some_iff.1 h
      obtain ⟨rfl, rfl⟩ : s'.take k ++ b' = b ∧ r₁ = r := Prod.mk.inj heq
      obtain ⟨u', hu', hloc'⟩ := cut_local hcut'
      obtain ⟨v, hv, hlt, hrest⟩ := ih hchunks
      have hs' : s' = s'.take k ++ (u' ++ 10 :: (v ++ r₁)) := by
        rw [← hv, ← hu', take_append_drop]
      have htake : (s'.take k).length = k := by
        rw [length_take]
        omega
      refine ⟨u ++ 10 :: (s'.take k ++ (u' ++ 10 :: v)), ?_, ?_, fun r' m hm => ?_⟩
      · rw [hu]
        conv_lhs => rw [hs']
        simp
      · simp only [length_append, length_cons]
        omega
      · obtain ⟨m, rfl⟩ := exists_eq_succ_of_ne_zero (by omega : m ≠ 0)
        have htext : u ++ 10 :: (s'.take k ++ (u' ++ 10 :: v)) ++ r' =
            u ++ 10 :: (s'.take k ++ (u' ++ 10 :: (v ++ r'))) := by simp
        have hdrop : (s'.take k ++ (u' ++ 10 :: (v ++ r'))).drop k = u' ++ 10 :: (v ++ r') :=
          drop_left' htake
        have htake' : (s'.take k ++ (u' ++ 10 :: (v ++ r'))).take k = s'.take k :=
          take_left' htake
        rw [htext, readChunksFor, hloc, bind_some, hk, bind_some, if_neg hlast,
          if_neg (by simp only [length_append, htake]; omega), hdrop, hloc', bind_some,
          if_pos hend, hrest r' m (by simp only [length_append, length_cons] at hm; omega),
          htake']
        rfl

lemma readChunks_iff {b : Bytes} (r : Bytes) :
    readChunks lf (a ++ r) = some (b, r) ↔ readChunks lf a = some (b, []) := by
  constructor
  · intro h
    obtain ⟨u, hu, -, hloc⟩ := readChunksFor_local h
    obtain rfl := append_cancel_right hu
    have hnil := hloc [] (a.length + 1) (lt_succ_self _)
    rw [append_nil] at hnil
    exact hnil
  · intro h
    obtain ⟨u, hu, -, hloc⟩ := readChunksFor_local h
    rw [append_nil] at hu
    subst hu
    exact hloc r _ (by simp)

lemma length_lt_of_readChunks {b : Bytes} (h : readChunks lf s = some (b, r)) :
    b.length + r.length < s.length := by
  obtain ⟨u, rfl, hlt, -⟩ := readChunksFor_local h
  rw [length_append]
  omega

variable {m : Message}

section

variable {status : ℕ} {x b r : Bytes}

lemma untilClose_iff : untilClose closes status (x ++ (b ++ r)) = some ⟨status, b, r⟩ ↔
    x = [] ∧ r = [] ∧ closes := by
  unfold untilClose
  constructor
  · intro h
    split_ifs at h with hclosed
    simp only [some.injEq, Message.mk.injEq, true_and] at h
    obtain ⟨hx, rfl⟩ := h
    rw [append_nil, append_left_eq_self] at hx
    exact ⟨hx, rfl, hclosed⟩
  · rintro ⟨rfl, rfl, hclosed⟩
    rw [if_pos hclosed, nil_append, append_nil]

lemma readLength_iff {vs : List Bytes} :
    readLength status v vs (x ++ (b ++ r)) = some ⟨status, b, r⟩ ↔
      x = [] ∧ ∀ w ∈ v :: vs, numeral w = some b.length := by
  unfold readLength
  constructor
  · intro h
    obtain ⟨n, hv, h⟩ := bind_eq_some_iff.1 h
    split_ifs at h with hall
    rw [Bool.and_eq_true, List.all_eq_true, decide_eq_true_eq] at hall
    simp only [some.injEq, Message.mk.injEq, true_and] at h
    obtain ⟨htake, hdrop⟩ := h
    -- The body and what follows are all there is.
    have hsum := congrArg List.length (take_append_drop n (x ++ (b ++ r)))
    rw [htake, hdrop] at hsum
    simp only [length_append] at hsum
    have hn : n = b.length := by
      have hlen := congrArg List.length htake
      rw [length_take] at hlen
      omega
    refine ⟨eq_nil_of_length_eq_zero (by omega), fun w hw => ?_⟩
    rw [← hn]
    rcases mem_cons.1 hw with rfl | hw
    · exact hv
    · exact beq_iff_eq.1 (hall.1 w hw)
  · rintro ⟨rfl, hall⟩
    rw [hall v mem_cons_self, bind_some, nil_append, if_pos, take_left' rfl, drop_left' rfl]
    rw [Bool.and_eq_true, List.all_eq_true, decide_eq_true_eq]
    refine ⟨fun w hw => beq_iff_eq.2 (hall w (mem_cons_of_mem v hw)), ?_⟩
    rw [length_append]
    omega

lemma readBody_iff (lf closes : Bool) (status : ℕ) (lines : List Bytes) (x b r : Bytes) :
    readBody lf closes status lines (x ++ (b ++ r)) = some ⟨status, b, r⟩ ↔
      if values (str "transfer-encoding") lines = [] then
        x = [] ∧ if values (str "content-length") lines = [] then r = [] ∧ closes
          else ∀ v ∈ values (str "content-length") lines, numeral v = some b.length
      else if chunkedLast (values (str "transfer-encoding") lines) then
        readChunks lf (x ++ b) = some (b, []) else x = [] ∧ r = [] ∧ closes := by
  unfold readBody
  by_cases hte : values (str "transfer-encoding") lines = []
  · rw [if_neg (not_not.2 hte), if_pos hte]
    cases hcl : values (str "content-length") lines with
    | nil =>
      rw [if_pos rfl]
      exact untilClose_iff
    | cons v vs =>
      rw [if_neg (cons_ne_nil v vs)]
      exact readLength_iff
  · rw [if_pos hte, if_neg hte]
    split_ifs with hchunks
    · rw [← readChunks_iff r, append_assoc]
      constructor
      · intro h
        obtain ⟨⟨b', r'⟩, hread, heq⟩ := map_eq_some_iff.1 h
        simp only [Message.mk.injEq, true_and] at heq
        rw [hread, heq.1, heq.2]
      · intro h
        rw [h]
        rfl
    · exact untilClose_iff

lemma status_of_readBody (h : readBody lf closes status lines s = some m) : m.status = status := by
  have hunt : ∀ {m}, untilClose closes status s = some m → m.status = status := by
    intro m h
    unfold untilClose at h
    split_ifs at h
    cases h
    rfl
  unfold readBody at h
  dsimp only at h
  split_ifs at h
  · obtain ⟨r, -, heq⟩ := map_eq_some_iff.1 h
    rw [← heq]
  · exact hunt h
  · cases hcl : values (str "content-length") lines with
    | nil =>
      rw [hcl] at h
      exact hunt h
    | cons =>
      rw [hcl] at h
      obtain ⟨n, -, h⟩ := bind_eq_some_iff.1 h
      split_ifs at h
      cases h
      rfl

end

lemma status_of_readFor (h : readFor lf closes head n s = some m) : 200 ≤ m.status := by
  induction n generalizing s with
  | zero => cases h
  | succ n ih =>
    obtain ⟨l, -, h⟩ := bind_eq_some_iff.1 h
    obtain ⟨status, -, h⟩ := bind_eq_some_iff.1 h
    obtain ⟨⟨lines, s'⟩, -, h⟩ := bind_eq_some_iff.1 h
    split_ifs at h with hint hbody
    · exact ih h
    · cases h
      exact not_lt.1 hint
    · rw [status_of_readBody h]
      exact not_lt.1 hint

lemma read_of_head {status : ℕ} (hl : 10 ∉ l) (hstatus : statusOf l = some status)
    (hfinal : 200 ≤ status) (hlines : readLines lf t = some (lines, s)) :
    read lf closes head (l ++ 13 :: 10 :: t) =
      if bodiless head status then some ⟨status, [], s⟩ else readBody lf closes status lines s := by
  rw [read, readFor, cut_line hl, bind_some, hstatus, bind_some, hlines,
    bind_some, if_neg (not_lt.2 hfinal)]

lemma statusOf_of_read (hl : 10 ∉ l)
    (h : read lf closes head (l ++ 13 :: 10 :: t) = some m) :
    ∃ status, statusOf l = some status := by
  rw [read, readFor, cut_line hl, bind_some] at h
  obtain ⟨status, hstatus, -⟩ := bind_eq_some_iff.1 h
  exact ⟨status, hstatus⟩

end ResponseReader
