import SpidoNG.Jwt.Verifier
import SpidoNG.Lib.Separated
import SpidoNG.Service.JsonReading

/-!
# What the verifier reads in a payload

`get_claim` looks for the first quoted name in the text of the payload, whatever it belongs to.

* `occurrences` lists what follows each quoted name, and `afterFirst_eq_head` says that the first of
  them is what the verifier reads.
* `getClaim_of_numeral` and `getClaim_of_string` say what it reads if a number or a string follows,
  and `secondsFrom_of_digits` which number that is.
* `value_of_numeral` and `value_of_string` say which value the member has that stands there.
-/

namespace SpidoNG.Jwt

open Bytes List JsonText
open Http (isBlank)
open Service (numberChar numberChar_of_mem ne_nil_of_number)

/-- A name as it stands in a text. -/
def quoted (name : Bytes) : Bytes := quote :: (name ++ [quote])

variable {a name : Bytes}

lemma afterFirst_append (name : Bytes) (ha : quote ∉ a) (s : Bytes) :
    afterFirst (quoted name) (a ++ s) = afterFirst (quoted name) s := by
  induction a with
  | nil => rfl
  | cons c a ih =>
    rw [List.mem_cons, not_or] at ha
    rw [List.cons_append, afterFirst, if_neg, ih ha.2]
    simp [quoted, isPrefixOf, ha.1]

lemma afterFirst_of_not_mem (name : Bytes) (ha : quote ∉ a) :
    afterFirst (quoted name) a = none := by
  have h := afterFirst_append name ha []
  rw [append_nil] at h
  rw [h]
  rfl

lemma afterFirst_quoted (hname : quote ∉ name) (ha : quote ∉ a) (s : Bytes) :
    afterFirst (quoted name) (quote :: (a ++ quote :: s)) =
      if a = name then some s else afterFirst (quoted name) (quote :: s) := by
  rw [afterFirst]
  split_ifs with hpre heq heq
  · subst heq
    simp [quoted]
  · obtain ⟨u, hu⟩ := isPrefixOf_iff_prefix.1 hpre
    refine absurd ?_ heq
    have hcut : name ++ quote :: u = a ++ quote :: s := by simpa [quoted] using hu
    exact (Separated.first_inj hname ha hcut).1.symm
  · subst heq
    refine absurd ( isPrefixOf_iff_prefix.2 ⟨s, ?_⟩) hpre
    simp [quoted]
  · exact afterFirst_append name ha _

lemma afterFirst_last (ha : quote ∉ a) : afterFirst (quoted name) (quote :: a) = none := by
  rw [afterFirst, if_neg, afterFirst_of_not_mem name ha]
  intro hpre
  obtain ⟨u, hu⟩ := isPrefixOf_iff_prefix.1 hpre
  have hcut : name ++ quote :: u = a := by simpa [quoted] using hu
  exact ha (by simp [← hcut])

/-- What follows each occurrence of the needle. -/
def occurrences (needle : Bytes) : Bytes → List Bytes
  | [] => []
  | c :: s =>
    if needle.isPrefixOf (c :: s) then (c :: s).drop needle.length :: occurrences needle s
    else occurrences needle s

lemma afterFirst_eq_head (needle s : Bytes) : afterFirst needle s =
    (occurrences needle s).head? := by
  induction s with
  | nil => rfl
  | cons c s ih =>
    unfold afterFirst occurrences
    split_ifs
    · rfl
    · exact ih

lemma mem_occurrences {needle : Bytes} (hneedle : needle ≠ []) (a b : Bytes) :
    b ∈ occurrences needle (a ++ (needle ++ b)) := by
  induction a with
  | nil =>
    obtain ⟨c, n, rfl⟩ := exists_cons_of_ne_nil hneedle
    rw [nil_append, cons_append, occurrences, if_pos]
    · simp
    · simp
  | cons c a ih =>
    rw [cons_append, occurrences]
    split_ifs
    · exact mem_cons_of_mem _ ih
    · exact ih

lemma exists_of_mem_occurrences {needle s b : Bytes} (h : b ∈ occurrences needle s) :
    ∃ a, s = a ++ b := by
  induction s with
  | nil => cases h
  | cons c s ih =>
    have hrest : b ∈ occurrences needle s → ∃ a, c :: s = a ++ b := by
      intro hb
      obtain ⟨a, rfl⟩ := ih hb
      exact ⟨c :: a, rfl⟩
    rw [occurrences] at h
    split_ifs at h
    · rcases mem_cons.1 h with rfl | hb
      · exact ⟨_, (take_append_drop _ _).symm⟩
      · exact hrest hb
    · exact hrest h

/-- The characters of an integer. -/
def numeralChar (c : UInt8) : Bool := c == 45 || isDigit c

lemma numeralChar_spec {c : UInt8} (h : numeralChar c) :
    isBlank c = false ∧ c ≠ quote ∧ c ≠ comma ∧ c ≠ closeBrace := by
  refine ⟨?_, ?_, ?_, ?_⟩
  · by_contra hblank
    rw [Bool.not_eq_false, isBlank, Bool.or_eq_true, beq_iff_eq, beq_iff_eq] at hblank
    rcases hblank with rfl | rfl
    · exact absurd h (by decide)
    · exact absurd h (by decide)
  all_goals
    rintro rfl
    exact absurd h (by decide)

/-- An integer stands after the colon, and after it the member ends. -/
def Numeral (b ds : Bytes) : Prop :=
  ∃ w w' w'' e r, b = w ++ colon :: (w' ++ (ds ++ (w'' ++ e :: r))) ∧ (∀ c ∈ w, isBlank c = true) ∧
    (∀ c ∈ w', isBlank c = true) ∧ (∀ c ∈ w'', isBlank c = true) ∧ ds ≠ [] ∧
      (∀ c ∈ ds, numeralChar c = true) ∧ (e = comma ∨ e = closeBrace)

/-- A string starts after the colon. -/
def Quoted (b : Bytes) : Prop :=
  ∃ w w' r, b = w ++ colon :: (w' ++ quote :: r) ∧ (∀ c ∈ w, isBlank c = true) ∧
    ∀ c ∈ w', isBlank c = true

lemma untilQuote_append {raw : Bytes} {prev : UInt8} (hprev : prev ≠ backslash)
    (hquote : quote ∉ raw)
    (hback : backslash ∉ raw) (r : Bytes) : untilQuote prev (raw ++ quote :: r) = some raw := by
  induction raw generalizing prev with
  | nil => simp [untilQuote, hprev]
  | cons c raw ih =>
    rw [mem_cons, not_or] at hquote hback
    rw [cons_append, untilQuote, if_neg (by simp [Ne.symm hquote.1]),
      ih (Ne.symm hback.1) hquote.2 hback.2]
    rfl

section Claims

variable {json b ds : Bytes} (hfirst : (occurrences (quoted name) json).head? = some b)
include hfirst

lemma getClaim_of_numeral (hb : Numeral b ds) : getClaim json name = ds := by
  obtain ⟨w, w', w'', e, r, rfl, hw, hw', hw'', hne, hds, he⟩ := hb
  obtain ⟨d, ds', rfl⟩ := exists_cons_of_ne_nil hne
  obtain ⟨hblank, hquote, -, -⟩ := numeralChar_spec (hds d mem_cons_self)
  have htake : ((d :: ds') ++ (w'' ++ e :: r)).takeWhile (fun c => c != comma && c != closeBrace) =
      (d :: ds') ++ w'' := by
    rw [← append_assoc, takeWhile_append_of_pos, takeWhile_cons_of_neg, append_nil]
    · rcases he with rfl | rfl <;> decide
    · intro c hc
      rcases mem_append.1 hc with hc | hc
      · obtain ⟨-, -, hcomma, hbrace⟩ := numeralChar_spec (hds c hc)
        simp [hcomma, hbrace]
      · have hblank := hw'' c hc
        rw [isBlank, Bool.or_eq_true, beq_iff_eq, beq_iff_eq] at hblank
        rcases hblank with rfl | rfl <;> decide
  have hdrop : ((d :: ds') ++ w'').rdropWhile isBlank = d :: ds' := by
    rw [rdropWhile, reverse_append, dropWhile_append_of_pos fun c hc => hw'' c (mem_reverse.1 hc)]
    refine rdropWhile_eq_self_iff.2 fun hne => ?_
    simp [(numeralChar_spec (hds _ (getLast_mem hne))).1]
  have hafter : afterFirst (quote :: (name ++ [quote])) json = some _ :=
    (afterFirst_eq_head _ json).trans hfirst
  unfold getClaim
  rw [hafter]
  dsimp only
  rw [dropWhile_append_of_pos hw, dropWhile_cons_of_neg (by decide)]
  dsimp only
  rw [if_neg (by decide), dropWhile_append_of_pos hw', cons_append,
    dropWhile_cons_of_neg (by simp [hblank])]
  dsimp only
  rw [if_neg (by simpa using hquote), ← cons_append, htake, hdrop]

lemma getClaim_of_string {w w' raw r : Bytes}
    (hb : b = w ++ colon :: (w' ++ quote :: (raw ++ quote :: r)))
    (hw : ∀ c ∈ w, isBlank c) (hw' : ∀ c ∈ w', isBlank c) (hquote : quote ∉ raw)
    (hback : backslash ∉ raw) : getClaim json name = raw := by
  have hafter : afterFirst (quote :: (name ++ [quote])) json = some _ :=
    (afterFirst_eq_head _ json).trans hfirst
  have huntil := untilQuote_append (show quote ≠ backslash by decide) hquote hback r
  unfold getClaim
  rw [hafter, hb]
  dsimp only
  rw [dropWhile_append_of_pos hw, dropWhile_cons_of_neg (by decide)]
  dsimp only
  rw [if_neg (by decide), dropWhile_append_of_pos hw', dropWhile_cons_of_neg (by decide)]
  dsimp only
  rw [if_pos (by decide), huntil]
  rfl

end Claims

lemma exists_occurrence_of_getClaim {json : Bytes} (h : getClaim json name ≠ []) :
    ∃ b, (occurrences (quoted name) json).head? = some b := by
  by_contra hnone
  have hafter : afterFirst (quote :: (name ++ [quote])) json = none := by
    refine (afterFirst_eq_head _ json).trans (Option.eq_none_iff_forall_ne_some.2 fun b hb => ?_)
    exact hnone ⟨b, hb⟩
  refine h ?_
  unfold getClaim
  rw [hafter]

lemma int64_of_lt {x : ℤ} (h : 0 ≤ x) (hlt : x < 2 ^ 63) : int64 x = x :=
  Int.bmod_eq_of_le (by omega) (by omega)

/-- The number that a run of digits denotes. -/
def valueFrom (m : ℕ) (ds : Bytes) : ℕ := ds.foldl (fun n c => n * 10 + (c.toNat - 48)) m

lemma le_valueFrom (m : ℕ) (ds : Bytes) : m ≤ valueFrom m ds := by
  induction ds generalizing m with
  | nil => exact le_rfl
  | cons c ds ih =>
    calc m ≤ m * 10 + (c.toNat - 48) := by omega
      _ ≤ valueFrom m (c :: ds) := ih _

lemma secondsFrom_of_digits {ds : Bytes} (hds : ∀ c ∈ ds, isDigit c) (m : ℕ)
    (hlt : valueFrom m ds < 2 ^ 63) : secondsFrom m ds = valueFrom m ds := by
  induction ds generalizing m with
  | nil => rfl
  | cons c ds ih =>
    rw [forall_mem_cons] at hds
    have hlow : 48 ≤ c.toNat := by
      have := (Bool.and_eq_true_iff.1 hds.1).1
      simpa [UInt8.le_iff_toNat_le] using this
    have hle : m * 10 + (c.toNat - 48) ≤ valueFrom m (c :: ds) := le_valueFrom _ ds
    have hnext : int64 ((m : ℤ) * 10 + (c.toNat - 48)) = ((m * 10 + (c.toNat - 48) : ℕ) : ℤ) := by
      rw [int64_of_lt (by omega) (by omega)]
      omega
    rw [secondsFrom, if_pos (show 48 ≤ c && c ≤ 57 from hds.1), hnext]
    exact ih hds.2 _ hlt

/-- A member with this value stands there. -/
def Holds (b : Bytes) (v : Value) : Prop :=
  ∃ w w' w'' e r t, b = w ++ colon :: (w' ++ (t ++ (w'' ++ e :: r))) ∧ Ws w ∧ Ws w' ∧ Ws w'' ∧
    (e = comma ∨ e = closeBrace) ∧ Text (.value v) t

lemma exists_holds {json : Bytes} (hclean : backslash ∉ json) {v : Value} (h : Member json name v) :
    ∃ b ∈ occurrences (quoted name) json, Holds b v := by
  obtain ⟨ms, t, hms, hm⟩ := h
  obtain ⟨a, raw, w, w', w'', e, r, rfl, hname, hw, hw', hw'', he⟩ := hms.written _ hm
  obtain ⟨rfl, -⟩ := hname.eq_raw fun hmem => hclean (by simp [hmem, backslash])
  refine ⟨_, ?_, w, w', w'', e, r, t, rfl, hw, hw', hw'', he, hms.text _ hm⟩
  have hmem := mem_occurrences (show quoted name ≠ [] by simp [quoted]) a
    (w ++ 58 :: (w' ++ (t ++ (w'' ++ e :: r))))
  simpa [quoted, quote, colon] using hmem

section Values

variable {b ds : Bytes} {v : Value}

lemma isWs_of_isBlank {c : UInt8} (h : isBlank c) : isWs c := by
  rw [isBlank, Bool.or_eq_true, beq_iff_eq, beq_iff_eq] at h
  rcases h with rfl | rfl <;> decide

lemma not_isWs_of_numberChar {c : UInt8} (h : numberChar c) : isWs c = false := by
  by_contra hws
  simp only [Bool.not_eq_false, isWs, Bool.or_eq_true, beq_iff_eq] at hws
  rcases hws with ((rfl | rfl) | rfl) | rfl <;> exact absurd h (by decide)

/-- What follows the blanks after the colon is the text of the value. -/
lemma Holds.split (h : Holds b v) {w w' s : Bytes} {c : UInt8}
    (hb : b = w ++ colon :: (w' ++ c :: s))
    (hw : ∀ c ∈ w, isBlank c) (hw' : ∀ c ∈ w', isBlank c) (hc : isWs c = false) :
    ∃ t w'' e r, c :: s = t ++ (w'' ++ e :: r) ∧ Ws w'' ∧ (e = comma ∨ e = closeBrace) ∧
      Text (.value v) t := by
  obtain ⟨u, u', w'', e, r, t, hb', hu, hu', hw'', he, ht⟩ := h
  have hcolon : ∀ {l : Bytes}, Ws l → colon ∉ l := fun hl hmem => absurd (hl colon hmem) (by decide)
  have hblank : ∀ {l : Bytes}, (∀ c ∈ l, isBlank c) → Ws l :=
    fun hl c hc => isWs_of_isBlank (hl c hc)
  obtain ⟨-, hrest⟩ := Separated.first_inj (hcolon (hblank hw)) (hcolon hu) (hb.symm.trans hb')
  -- Both sides without their leading whitespace.
  have hdrop := congrArg (dropWhile isWs) hrest
  obtain ⟨d, t, rfl, hd, -⟩ := Service.head_of_text ht
  have hd : isWs d = false := hd
  rw [dropWhile_append_of_pos (hblank hw'), dropWhile_append_of_pos hu', cons_append,
    dropWhile_cons_of_neg (by simp [hc]), dropWhile_cons_of_neg (by simp [hd])] at hdrop
  exact ⟨d :: t, w'', e, r, hdrop, hw'', he, ht⟩

lemma Holds.number (h : Holds b v) (hb : Numeral b ds) : v = .number ds := by
  obtain ⟨w, w', w'', e, r, hb, hw, hw', hw'', hne, hds, he⟩ := hb
  obtain ⟨d, ds, rfl⟩ := exists_cons_of_ne_nil hne
  have hnumber : ∀ {c : UInt8}, numeralChar c → numberChar c := by
    intro c hc
    simp only [numeralChar, Bool.or_eq_true, beq_iff_eq] at hc
    rcases hc with rfl | hc
    · decide
    · simp [numberChar, hc]
  have hd := hds d mem_cons_self
  obtain ⟨t, u, e', r', heq, hu, he', ht⟩ := h.split hb hw hw' (not_isWs_of_numberChar (hnumber hd))
  cases ht with
  | number hn =>
    -- Both are what stands before the first character that no number has.
    have hend : ∀ {u : Bytes} {e : UInt8} {r : Bytes}, Ws u → (e = comma ∨ e = closeBrace) →
        (u ++ e :: r).takeWhile numberChar = [] := by
      intro u e r hu he
      cases u with
      | nil => rcases he with rfl | rfl <;> rfl
      | cons c u =>
        refine takeWhile_cons_of_neg fun hc => ?_
        exact absurd (hu c mem_cons_self) (by simp [not_isWs_of_numberChar hc])
    have htake := congrArg (takeWhile numberChar) (show (d :: ds) ++ _ = _ from heq)
    rw [takeWhile_append_of_pos fun c hc => hnumber (hds c hc),
      takeWhile_append_of_pos (numberChar_of_mem hn), hend hu he',
      hend (fun c hc => isWs_of_isBlank (hw'' c hc)) he, append_nil, append_nil] at htake
    rw [htake]
  | _ =>
    obtain ⟨rfl, -⟩ := cons.inj heq
    exact absurd hd (by decide)

lemma Holds.string (h : Holds b v) (hb : Quoted b) : ∃ x raw w w' r, v = .string x ∧ Chars x raw ∧
    b = w ++ colon :: (w' ++ quote :: (raw ++ quote :: r)) ∧ (∀ c ∈ w, isBlank c) ∧
      ∀ c ∈ w', isBlank c := by
  obtain ⟨w, w', s, hb, hw, hw'⟩ := hb
  obtain ⟨t, u, e, r, heq, -, -, ht⟩ := h.split hb hw hw' (by decide)
  cases ht with
  | @string x raw hx =>
    obtain ⟨-, rfl⟩ := cons.inj heq
    exact ⟨x, raw, w, w', u ++ e :: r, rfl, hx, by simpa [quote] using hb, hw, hw'⟩
  | number hn =>
    obtain ⟨c, t, rfl⟩ := exists_cons_of_ne_nil (ne_nil_of_number hn)
    obtain ⟨rfl, -⟩ := cons.inj heq
    exact absurd (numberChar_of_mem hn _ mem_cons_self) (by decide)
  | _ =>
    obtain ⟨hc, -⟩ := cons.inj heq
    exact absurd hc (by decide)

end Values

end SpidoNG.Jwt
