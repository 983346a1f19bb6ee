import Mathlib.Data.List.DropRight
import SpidoNG.Lib.JsonText
import SpidoNG.Service.Json

/-!
# What `JsonBody` makes of a JSON text

`JsonBody` does not check what it reads: it takes strings apart, and of other values it only looks
for the end.
-/

namespace SpidoNG.Service

open Bytes JsonText List Option Nat

def Neutral (c : UInt8) : Prop :=
  c ≠ quote ∧ c ≠ openBrace ∧ c ≠ closeBrace ∧ c ≠ openBracket ∧ c ≠ closeBracket

def Plain (c : UInt8) : Prop := Neutral c ∧ isDelimiter c = false

instance (c : UInt8) : Decidable (Neutral c) := inferInstanceAs (Decidable (_ ∧ _))

instance (c : UInt8) : Decidable (Plain c) := inferInstanceAs (Decidable (_ ∧ _))

lemma unescape_eq (e : UInt8) : unescape e = shortEscape e := by
  unfold unescape shortEscape quote backslash
  grind

lemma neutral_of_isWs {c : UInt8} (h : JsonText.isWs c) : Neutral c := by
  simp only [JsonText.isWs, Bool.or_eq_true, beq_iff_eq] at h
  rcases h with ((rfl | rfl) | rfl) | rfl <;> decide

variable {n : ℕ} {t s raw : Bytes} {v : Value}

lemma hexDigit_plain {c : UInt8} (h : hexDigit c = some n) : c ≠ quote ∧ c ≠ backslash := by
  constructor
  · rintro rfl
    cases h
  · rintro rfl
    cases h

lemma shortEscape_ne {e c : UInt8} (h : shortEscape e = some c) : e ≠ 117 := by
  rintro rfl
  cases h

lemma hexDigit_lt {c : UInt8} (h : hexDigit c = some n) : n < 16 := by
  unfold hexDigit at h
  split_ifs at h with h₁ h₂ h₃
  all_goals
    simp only [Bool.and_eq_true, decide_eq_true_eq, UInt8.le_iff_toNat_le, UInt8.reduceToNat] at *
    cases h
    omega

lemma utf8_eq (h : n < 2 ^ 16) : utf8 n = JsonText.encode n := by
  -- Every part of the code point is below the bit that marks its byte.
  have hsix (a : ℕ) : 0x80 ||| a &&& 0x3F = 0x80 + a % 0x40 := by
    rw [and_two_pow_sub_one_eq_mod a 6]
    exact (two_pow_add_eq_or_of_lt (i := 6) (mod_lt a (by decide)) 2).symm
  unfold utf8 JsonText.encode
  simp only [shiftRight_eq_div_pow, reducePow, hsix]
  split_ifs with h₁ h₂
  · rfl
  · have hhead : 0xC0 ||| n / 64 = 0xC0 + n / 64 :=
      (two_pow_add_eq_or_of_lt (i := 6) (by omega) 3).symm
    rw [hhead]
  · have hhead : 0xE0 ||| n / 4096 = 0xE0 + n / 4096 :=
      (two_pow_add_eq_or_of_lt (i := 4) (by omega) 14).symm
    rw [hhead]

def numberChar (c : UInt8) : Bool :=
  isDigit c || c == 45 || c == 43 || c == 46 || c == 101 || c == 69

lemma numberChar_of_mem (h : Number t) : ∀ c ∈ t, numberChar c := by
  obtain ⟨sign, int, frac, exp, rfl, hsign, hint, hfrac, hexp⟩ := h
  have hdigits {ds : Bytes} (hds : Digits ds) : ∀ c ∈ ds, numberChar c := by
    intro c hc
    simp [numberChar, hds.2 c hc]
  simp only [mem_append]
  rintro c (hc | hc | hc | hc)
  · rcases hsign with rfl | rfl
    · cases hc
    · rw [mem_singleton.1 hc]
      rfl
  · rcases hint with rfl | ⟨hint, -⟩
    · rw [mem_singleton.1 hc]
      rfl
    · exact hdigits hint c hc
  · rcases hfrac with rfl | ⟨ds, hds, rfl⟩
    · cases hc
    · rcases mem_cons.1 hc with rfl | hc
      · rfl
      · exact hdigits hds c hc
  · rcases hexp with rfl | ⟨e, g, ds, he, hg, hds, rfl⟩
    · cases hc
    · rcases mem_cons.1 hc with rfl | hc
      · rcases he with rfl | rfl <;> rfl
      · rcases mem_append.1 hc with hc | hc
        · rcases hg with rfl | rfl | rfl
          · cases hc
          · rw [mem_singleton.1 hc]
            rfl
          · rw [mem_singleton.1 hc]
            rfl
        · exact hdigits hds c hc

lemma ne_nil_of_number (h : Number t) : t ≠ [] := by
  obtain ⟨sign, int, frac, exp, rfl, -, hint, -, -⟩ := h
  have hne : int ≠ [] := by
    rcases hint with rfl | ⟨hint, -⟩
    · simp
    · exact hint.1
  simp [hne]

lemma plain_of_numberChar {c : UInt8} (h : numberChar c) : Plain c := by
  simp only [Plain, Neutral, isDelimiter, isWs, Bool.or_eq_false_iff, beq_eq_false_iff_ne]
  refine ⟨⟨?_, ?_, ?_, ?_, ?_⟩, ⟨⟨?_, ?_⟩, ?_⟩, ⟨⟨?_, ?_⟩, ?_⟩, ?_⟩
  all_goals
    rintro rfl
    exact absurd h (by decide)

lemma plain_of_number (h : Number t) : ∀ c ∈ t, Plain c :=
  fun c hc => plain_of_numberChar (numberChar_of_mem h c hc)

lemma number_ne_null (h : Number t) : t ≠ str "null" := by
  rintro rfl
  exact absurd (numberChar_of_mem h 110 (by decide)) (by decide)

variable {w r : Bytes}

lemma skipWs_append (hw : Ws w) : skipWs (w ++ s) = skipWs s :=
  dropWhile_append_of_pos hw

lemma skipWs_cons {c : UInt8} (hc : isWs c = false) : skipWs (c :: s) = c :: s :=
  dropWhile_cons_of_neg (by simp [hc])

variable {x : Bytes}

lemma parseStringRest_chars (h : Chars x raw) (s : Bytes) :
    parseStringRest (raw ++ 34 :: s) = some (x, s) := by
  induction h with
  | nil =>
    unfold parseStringRest
    simp [quote]
  | plain _ hquo hback _ ih =>
    rw [cons_append]
    unfold parseStringRest
    simp [quote, backslash, hquo, hback, ih]
  | short he _ ih =>
    simp only [cons_append]
    unfold parseStringRest
    simp [quote, backslash, shortEscape_ne he, unescape_eq, he, ih]
  | @unicode a b c d k l m n _ _ ha hb hc hd _ ih =>
    have hk := hexDigit_lt ha
    have hl := hexDigit_lt hb
    have hm := hexDigit_lt hc
    have hn := hexDigit_lt hd
    have hcode : utf8 (((k * 16 + l) * 16 + m) * 16 + n) =
        JsonText.encode (((k * 16 + l) * 16 + m) * 16 + n) := utf8_eq (by omega)
    rw [← hcode]
    simp only [cons_append]
    unfold parseStringRest
    simp [quote, backslash, ha, hb, hc, hd, ih]

inductive Next : UInt8 → Bytes → Bytes → Bytes → Prop
  | close (s : Bytes) : Next quote s [] s
  | short {e y : UInt8} {s x r : Bytes} (he : unescape e = some y)
      (h : parseStringRest s = some (x, r)) : Next backslash (e :: s) (y :: x) r
  | unicode {a b c d : UInt8} {s x r : Bytes} (k : ℕ)
      (hhex : ∀ e ∈ [a, b, c, d], hexDigit e ≠ none) (h : parseStringRest s = some (x, r)) :
      Next backslash (117 :: a :: b :: c :: d :: s) (utf8 k ++ x) r
  | plain {c : UInt8} {s x r : Bytes} (hquote : c ≠ quote) (hback : c ≠ backslash)
      (h : parseStringRest s = some (x, r)) : Next c s (c :: x) r

lemma next_of_parseStringRest {c : UInt8}
    (h : parseStringRest (c :: s) = some (x, r)) : Next c s x r := by
  unfold parseStringRest at h
  split_ifs at h with hquo hback
  · rw [beq_iff_eq] at hquo
    subst hquo
    cases h
    exact .close s
  · rw [beq_iff_eq] at hback
    subst hback
    split at h
    · cases h
    · rename_i e u
      split_ifs at h with he
      · rw [beq_iff_eq] at he
        subst he
        split at h
        · rename_i a b c d u
          split at h
          · rename_i k l m n ha hb hc hd
            obtain ⟨⟨x, r⟩, hrest, heq⟩ := map_eq_some_iff.1 h
            cases heq
            refine .unicode _ ?_ hrest
            simp [ha, hb, hc, hd]
          · cases h
        · cases h
      · split at h
        · rename_i y hy
          obtain ⟨⟨x, r⟩, hrest, heq⟩ := map_eq_some_iff.1 h
          cases heq
          exact .short hy hrest
        · cases h
  · obtain ⟨⟨x, r⟩, hrest, heq⟩ := map_eq_some_iff.1 h
    cases heq
    exact .plain (by simpa using hquo) (by simpa using hback) hrest

lemma parseString_chars (h : Chars x raw) (s : Bytes) :
    parseString (34 :: (raw ++ 34 :: s)) = some (x, s) := by
  simp [parseString, quote, parseStringRest_chars h]

def Brackets (o c : UInt8) : Prop :=
  o = openBrace ∧ c = closeBrace ∨ o = openBracket ∧ c = closeBracket

section Nested

variable {o c : UInt8} {depth : ℕ} {b : UInt8}

lemma skipNested_plain (hquo : b ≠ quote) (hback : b ≠ backslash) (s : Bytes) :
    skipNested o c (b :: s) depth true false = skipNested o c s depth true false := by
  simp [skipNested, hquo, hback]

lemma skipNested_escape (b : UInt8) (s : Bytes) :
    skipNested o c (92 :: b :: s) depth true false = skipNested o c s depth true false := by
  simp [skipNested, backslash]

lemma skipNested_chars (h : Chars x raw) (s : Bytes) :
    skipNested o c (raw ++ 34 :: s) depth true false = skipNested o c s depth false false := by
  induction h with
  | nil => simp [skipNested, quote, backslash]
  | plain _ hquo hback _ ih => rw [cons_append, skipNested_plain hquo hback, ih]
  | short _ _ ih => rw [cons_append, cons_append, skipNested_escape, ih]
  | unicode ha hb hc hd _ ih =>
    simp only [cons_append]
    rw [skipNested_escape, skipNested_plain (hexDigit_plain ha).1 (hexDigit_plain ha).2,
      skipNested_plain (hexDigit_plain hb).1 (hexDigit_plain hb).2,
      skipNested_plain (hexDigit_plain hc).1 (hexDigit_plain hc).2,
      skipNested_plain (hexDigit_plain hd).1 (hexDigit_plain hd).2, ih]

lemma skipNested_string (h : Chars x raw) (s : Bytes) :
    skipNested o c (34 :: (raw ++ 34 :: s)) depth false false =
      skipNested o c s depth false false := by
  calc skipNested o c (34 :: (raw ++ 34 :: s)) depth false false
      = skipNested o c (raw ++ 34 :: s) depth true false := by simp [skipNested, quote]
    _ = skipNested o c s depth false false := skipNested_chars h s

/-- Inside brackets the text is passed over. -/
def Skips (o c : UInt8) (t : Bytes) : Prop :=
  ∀ depth s, 0 < depth → skipNested o c (t ++ s) depth false false =
    skipNested o c s depth false false

section

variable (hb : Brackets o c)
include hb

lemma skipNested_open (s : Bytes) :
    skipNested o c (o :: s) depth false false = skipNested o c s (depth + 1) false false := by
  have hquo : o ≠ quote := by rcases hb with ⟨rfl, -⟩ | ⟨rfl, -⟩ <;> decide
  simp [skipNested, hquo]

lemma skipNested_close (s : Bytes) : skipNested o c (c :: s) (depth + 1) false false =
      if depth = 0 then some s else skipNested o c s depth false false := by
  have hquo : c ≠ quote := by rcases hb with ⟨-, rfl⟩ | ⟨-, rfl⟩ <;> decide
  have hopen : c ≠ o := by rcases hb with ⟨rfl, rfl⟩ | ⟨rfl, rfl⟩ <;> decide
  simp [skipNested, hquo, hopen]

omit hb in
lemma skipNested_other (hquo : b ≠ quote) (hopen : b ≠ o) (hcl : b ≠ c)
    (s : Bytes) : skipNested o c (b :: s) depth false false
      = skipNested o c s depth false false := by
  simp [skipNested, hquo, hopen, hcl]

lemma skipNested_neutral_cons (h : Neutral b) (s : Bytes) :
    skipNested o c (b :: s) depth false false = skipNested o c s depth false false := by
  obtain ⟨hquo, hbrackets, hbrackets', hbra, hbra'⟩ := h
  rcases hb with ⟨rfl, rfl⟩ | ⟨rfl, rfl⟩
  · exact skipNested_other hquo hbrackets hbrackets' s
  · exact skipNested_other hquo hbra hbra' s

lemma skipNested_neutral {l : Bytes} (hl : ∀ b ∈ l, Neutral b) (s : Bytes) :
    skipNested o c (l ++ s) depth false false = skipNested o c s depth false false := by
  induction l with
  | nil => rfl
  | cons b l ih =>
    rw [cons_append, skipNested_neutral_cons hb (hl b mem_cons_self),
      ih fun b hb => hl b (mem_cons_of_mem _ hb)]

lemma skips_ws (hw : Ws w) : Skips o c w :=
  fun _ s _ => skipNested_neutral hb (fun b hmem => neutral_of_isWs (hw b hmem)) s

lemma skips_closed {o' c' : UInt8} (hb' : Brackets o' c') (ht : Skips o c t) :
    Skips o c (o' :: (t ++ [c'])) := by
  intro depth s hdep
  rw [cons_append, append_assoc, singleton_append]
  by_cases hsame : o' = o
  · have hcl : c' = c := by
      rcases hb with ⟨rfl, rfl⟩ | ⟨rfl, rfl⟩ <;> rcases hb' with ⟨rfl, rfl⟩ | ⟨rfl, rfl⟩
      · rfl
      · cases hsame
      · cases hsame
      · rfl
    rw [hsame, hcl, skipNested_open hb, ht _ _ (succ_pos _), skipNested_close hb,
      if_neg hdep.ne']
  · have hoth : o' ≠ quote ∧ o' ≠ c ∧ c' ≠ quote ∧ c' ≠ o ∧ c' ≠ c := by
      rcases hb with ⟨rfl, rfl⟩ | ⟨rfl, rfl⟩ <;> rcases hb' with ⟨rfl, rfl⟩ | ⟨rfl, rfl⟩
      · exact absurd rfl hsame
      · decide
      · decide
      · exact absurd rfl hsame
    obtain ⟨hquo, hcl, hquo', hopen', hcl'⟩ := hoth
    rw [skipNested_other hquo hsame hcl, ht _ _ hdep, skipNested_other hquo' hopen' hcl']

lemma skips_text {p : Phrase} (h : Text p t) : Skips o c t := by
  induction h with
  | null | true | false => exact fun depth s _ => skipNested_neutral hb (by decide +kernel) s
  | number ht => exact fun depth s _ =>
    skipNested_neutral hb (fun b hmem => (plain_of_number ht b hmem).1) s
  | string hx =>
    intro depth s _
    rw [cons_append, append_assoc]
    exact skipNested_string hx s
  | emptyArray hw => exact skips_closed hb (.inr ⟨rfl, rfl⟩) (skips_ws hb hw)
  | array _ ih => exact skips_closed hb (.inr ⟨rfl, rfl⟩) ih
  | emptyObject hw => exact skips_closed hb (.inl ⟨rfl, rfl⟩) (skips_ws hb hw)
  | object _ ih => exact skips_closed hb (.inl ⟨rfl, rfl⟩) ih
  | lastElement hw _ hw' ih =>
    intro depth s hdep
    simp only [append_assoc]
    rw [skips_ws hb hw _ _ hdep, ih depth _ hdep, skips_ws hb hw' _ _ hdep]
  | element hw _ hw' _ ih ihs =>
    intro depth s hdep
    simp only [append_assoc, cons_append]
    rw [skips_ws hb hw _ _ hdep, ih depth _ hdep, skips_ws hb hw' _ _ hdep,
      skipNested_neutral_cons hb (by decide), ihs depth _ hdep]
  | lastMember hw₁ hname hw₂ hw₃ _ hw₄ ih =>
    intro depth s hdep
    simp only [append_assoc, cons_append]
    rw [skips_ws hb hw₁ _ _ hdep, skipNested_string hname, skips_ws hb hw₂ _ _ hdep,
      skipNested_neutral_cons hb (by decide), skips_ws hb hw₃ _ _ hdep, ih depth _ hdep,
      skips_ws hb hw₄ _ _ hdep]
  | member hw₁ hname hw₂ hw₃ _ hw₄ _ ih ihs =>
    intro depth s hdep
    simp only [append_assoc, cons_append]
    rw [skips_ws hb hw₁ _ _ hdep, skipNested_string hname, skips_ws hb hw₂ _ _ hdep,
      skipNested_neutral_cons hb (by decide), skips_ws hb hw₃ _ _ hdep, ih depth _ hdep,
      skips_ws hb hw₄ _ _ hdep, skipNested_neutral_cons hb (by decide), ihs depth _ hdep]

lemma skipNested_whole (ht : Skips o c t) (s : Bytes) :
    skipNested o c (o :: (t ++ c :: s)) 0 false false = some s := by
  rw [skipNested_open hb, ht _ _ Nat.one_pos]
  exact (skipNested_close hb s).trans (if_pos rfl)

end

lemma exists_of_skipNested {rest : Bytes} {inString skip : Bool}
    (h : skipNested o c s depth inString skip = some rest) : ∃ a, s = a ++ c :: rest := by
  induction s generalizing depth inString skip with
  | nil =>
    cases inString
    · cases h
    · cases h
  | cons d s ih =>
    have hcons {depth : ℕ} {inString skip : Bool}
        (h : skipNested o c s depth inString skip = some rest) : ∃ a, d :: s = a ++ c :: rest := by
      obtain ⟨a, rfl⟩ := ih h
      exact ⟨d :: a, rfl⟩
    cases inString with
    | true =>
      rw [skipNested] at h
      split_ifs at h
      · exact hcons h
      · exact hcons h
      · exact hcons h
      · exact hcons h
    | false =>
      rw [skipNested] at h
      split_ifs at h with h₁ h₂ h₃ h₄
      · exact hcons h
      · exact hcons h
      · cases h
        rw [beq_iff_eq] at h₃
        subst h₃
        exact ⟨[], rfl⟩
      · exact hcons h
      · exact hcons h

end Nested

lemma skipWs_cases (t : Bytes) {c : UInt8} (hc : isWs c = false) (u : Bytes) :
    skipWs (t ++ c :: u) = c :: u ∨
      ∃ d t', skipWs (t ++ c :: u) = d :: (t' ++ c :: u) ∧ t'.length < t.length ∧
        isWs d = false := by
  induction t with
  | nil => exact .inl (skipWs_cons hc)
  | cons d t ih =>
    cases hd : isWs d with
    | false => exact .inr ⟨d, t, skipWs_cons hd, by simp, hd⟩
    | true =>
      have hskip : skipWs (d :: t ++ c :: u) = skipWs (t ++ c :: u) := dropWhile_cons_of_pos hd
      rw [hskip]
      refine ih.imp_right ?_
      rintro ⟨e, t', h, hlt, he⟩
      exact ⟨e, t', h, by simp only [length_cons]; omega, he⟩

lemma head_of_text (h : Text (.value v) t) :
    ∃ c u, t = c :: u ∧ isWs c = false ∧ (c = quote ↔ ∃ x, v = .string x) := by
  cases h with
  | null => exact ⟨110, str "ull", rfl, rfl, by simp [quote]⟩
  | true => exact ⟨116, str "rue", rfl, rfl, by simp [quote]⟩
  | false => exact ⟨102, str "alse", rfl, rfl, by simp [quote]⟩
  | number ht =>
    obtain ⟨c, u, rfl⟩ := exists_cons_of_ne_nil (ne_nil_of_number ht)
    obtain ⟨hneutral, hdelim⟩ := plain_of_number ht c mem_cons_self
    refine ⟨c, u, rfl, ?_, by simp [hneutral.1]⟩
    simp only [isDelimiter, Bool.or_eq_false_iff] at hdelim
    exact hdelim.2
  | string => exact ⟨34, _, rfl, rfl, by simp [quote]⟩
  | emptyArray | array => exact ⟨91, _, rfl, rfl, by simp [quote]⟩
  | emptyObject | object => exact ⟨123, _, rfl, rfl, by simp [quote]⟩

lemma skipWs_text (h : Text (.value v) t) (s : Bytes) : skipWs (t ++ s) = t ++ s := by
  obtain ⟨c, u, rfl, hc, -⟩ := head_of_text h
  exact skipWs_cons hc

lemma parseValueRaw_plain (ht : ∀ c ∈ t, Plain c) (hne : t ≠ [])
    (hs : ∀ d, s.head? = some d → isDelimiter d) : parseValueRaw (t ++ s) = some (t, s) := by
  obtain ⟨c, u, rfl⟩ := exists_cons_of_ne_nil hne
  obtain ⟨hneutral, hdelim⟩ := ht c mem_cons_self
  have hws : isWs c = false := by
    simp only [isDelimiter, Bool.or_eq_false_iff] at hdelim
    exact hdelim.2
  have htake : (c :: (u ++ s)).takeWhile (fun c => !isDelimiter c) = c :: u := by
    rw [← cons_append, takeWhile_append_of_pos]
    · cases s with
      | nil => simp
      | cons d => simp [hs d rfl]
    · intro b hb
      simp [(ht b hb).2]
  unfold parseValueRaw
  rw [cons_append, skipWs_cons hws]
  dsimp only
  rw [htake]
  simp [hneutral.2.1, hneutral.2.2.2.1]

lemma parseValueRaw_nested {o c : UInt8} (hb : Brackets o c) (ht : Skips o c t) (s : Bytes) :
    parseValueRaw (o :: (t ++ c :: s)) = some (o :: (t ++ [c]), s) := by
  have hkind : isWs o = false ∧ (o == openBrace || o == openBracket) ∧
      (if o == openBrace then closeBrace else closeBracket) = c := by
    rcases hb with ⟨rfl, rfl⟩ | ⟨rfl, rfl⟩ <;> decide
  have htake : (o :: (t ++ c :: s)).take ((o :: (t ++ c :: s)).length - s.length) =
      o :: (t ++ [c]) := by
    have hsplit : o :: (t ++ c :: s) = (o :: (t ++ [c])) ++ s := by simp
    rw [hsplit, length_append, Nat.add_sub_cancel, take_left]
  unfold parseValueRaw
  rw [skipWs_cons hkind.1]
  dsimp only
  rw [if_pos hkind.2.1, hkind.2.2, skipNested_whole hb ht s, map_some, htake]

lemma parseValueRaw_inv {c : UInt8} (hws : isWs c = false)
    (h : parseValueRaw (c :: s) = some (x, r)) : c :: s = x ++ r ∧
      ((∃ e a, (e = closeBrace ∨ e = closeBracket) ∧ c :: s = a ++ e :: r) ∨
        x = (c :: s).takeWhile fun c => !isDelimiter c) := by
  unfold parseValueRaw at h
  rw [skipWs_cons hws] at h
  dsimp only at h
  by_cases hopen : (c == openBrace || c == openBracket)
  · rw [if_pos hopen] at h
    obtain ⟨rest, hrest, heq⟩ := map_eq_some_iff.1 h
    obtain ⟨a, ha⟩ := exists_of_skipNested hrest
    cases heq
    refine ⟨?_, .inl ⟨_, a, ?_, ha⟩⟩
    · have hsuffix : r <:+ c :: s := by
        rw [ha]
        exact (suffix_cons _ _).trans (suffix_append _ _)
      exact (suffix_iff_eq_append.1 hsuffix).symm
    · split_ifs
      · exact .inl rfl
      · exact .inr rfl
  · rw [if_neg hopen] at h
    split_ifs at h
    cases h
    exact ⟨(prefix_iff_eq_append.1 ( takeWhile_prefix _)).symm, .inr rfl⟩

lemma parseValueRaw_text (h : Text (.value v) t)
    (hv : ∀ x, v ≠ .string x) (hs : ∀ d, s.head? = some d → isDelimiter d) :
    parseValueRaw (t ++ s) = some (t, s) := by
  have hbrackets : Brackets 123 125 := .inl ⟨rfl, rfl⟩
  have hbra : Brackets 91 93 := .inr ⟨rfl, rfl⟩
  cases h with
  | null | true | false => exact parseValueRaw_plain (by decide +kernel) (by decide +kernel) hs
  | number ht => exact parseValueRaw_plain (plain_of_number ht) (ne_nil_of_number ht) hs
  | string => exact absurd rfl (hv _)
  | emptyArray hw =>
    rw [cons_append, append_assoc]
    exact parseValueRaw_nested hbra (skips_ws hbra hw) s
  | array ht =>
    rw [cons_append, append_assoc]
    exact parseValueRaw_nested hbra (skips_text hbra ht) s
  | emptyObject hw =>
    rw [cons_append, append_assoc]
    exact parseValueRaw_nested hbrackets (skips_ws hbrackets hw) s
  | object ht =>
    rw [cons_append, append_assoc]
    exact parseValueRaw_nested hbrackets (skips_text hbrackets ht) s

lemma cons_ne_null {c : UInt8} {u : Bytes} (hc : c ≠ 110) : c :: u ≠ str "null" := by
  intro h
  have hnull : str "null" = 110 :: str "ull" := rfl
  rw [hnull] at h
  exact hc (List.cons.inj h).1

lemma eq_null_iff (h : Text (.value v) t) : t = str "null" ↔ v = .null := by
  cases h with
  | null => simp
  | number ht => simp [number_ne_null ht]
  | true | false => exact iff_of_false (by decide) (by simp)
  | string | emptyArray | array | emptyObject | object =>
    exact iff_of_false (cons_ne_null (by decide)) (by simp)

namespace JsonBody

def add (b : JsonBody) (m : Written) : JsonBody :=
  match m.value with
  | .null => { b with nulls := b.nulls ++ [m.name] }
  | .string x => { b with fields := b.fields ++ [(m.name, x)] }
  | _ => { b with fields := b.fields ++ [(m.name, m.text)] }

variable {m : Written} {p : Bytes × Bytes} {ms : List Written}

lemma add_of_ne {b : JsonBody} (hnull : m.value ≠ .null) (hstring : ∀ x, m.value ≠ .string x) :
    b.add m = { b with fields := b.fields ++ [(m.name, m.text)] } := by
  unfold add
  split
  · contradiction
  · rename_i x hx
    exact absurd hx (hstring x)
  · rfl

inductive Round (b : JsonBody) (s : Bytes) : JsonBody → UInt8 → Bytes → Prop
  | string {key s₁ s₂ x s₃ s₄ : Bytes} {d : UInt8}
      (hkey : parseString (skipWs s) = some (key, s₁)) (hcolon : skipWs s₁ = 58 :: s₂)
      (hvalue : parseString (skipWs s₂) = some (x, s₃)) (hnext : skipWs s₃ = d :: s₄) :
      Round b s { b with fields := b.fields ++ [(key, x)] } d s₄
  | raw {key s₁ s₂ x s₃ s₄ : Bytes} {d : UInt8}
      (hkey : parseString (skipWs s) = some (key, s₁)) (hcolon : skipWs s₁ = 58 :: s₂)
      (hquote : (skipWs s₂).head? ≠ some quote)
      (hvalue : parseValueRaw (skipWs s₂) = some (x, s₃)) (hnext : skipWs s₃ = d :: s₄) :
      Round b s (if x = str "null" then { b with nulls := b.nulls ++ [key] }
        else { b with fields := b.fields ++ [(key, x)] }) d s₄

lemma head_of_parseString (h : parseString s = some p) :
    ∃ u, s = quote :: u ∧ parseStringRest u = some p := by
  cases s with
  | nil => cases h
  | cons c u =>
    rw [parseString] at h
    split_ifs at h with hc
    rw [beq_iff_eq] at hc
    exact ⟨u, by rw [hc], h⟩

lemma parseValueRaw_nil : parseValueRaw [] = none := rfl

lemma Round.parseMembers_eq {b b₁ : JsonBody} {s₄ : Bytes} {d : UInt8} (h : Round b s b₁ d s₄)
    (n : ℕ) : parseMembers (n + 1) b s =
      if d == comma then parseMembers n b₁ s₄ else if d == closeBrace then some b₁ else none := by
  rw [parseMembers]
  cases h with
  | string hkey hcol hval hnext =>
    obtain ⟨u, hu, -⟩ := head_of_parseString hval
    rw [hu] at hval
    rw [hkey]
    dsimp only
    rw [hcol]
    simp [hu, hval, hnext]
  | @raw _ _ s₂ _ _ _ _ hkey hcol hquo hval hnext =>
    rw [hkey]
    dsimp only
    rw [hcol]
    cases hs : skipWs s₂ with
    | nil =>
      rw [hs, parseValueRaw_nil] at hval
      cases hval
    | cons c =>
      rw [hs] at hval
      have hc : c ≠ quote := by simpa [hs] using hquo
      simp [hs, hc, hval, hnext]

lemma exists_round {b b' : JsonBody} (h : parseMembers (n + 1) b s = some b') :
    ∃ b₁ d s₄, Round b s b₁ d s₄ ∧
      (d = comma ∧ parseMembers n b₁ s₄ = some b' ∨ d = closeBrace ∧ b₁ = b') := by
  have hround {b₁ : JsonBody} {s₄ : Bytes} {d : UInt8} (hr : Round b s b₁ d s₄) : ∃ b₁ d s₄,
      Round b s b₁ d s₄ ∧
        (d = comma ∧ parseMembers n b₁ s₄ = some b' ∨ d = closeBrace ∧ b₁ = b') := by
    rw [hr.parseMembers_eq] at h
    refine ⟨b₁, d, s₄, hr, ?_⟩
    split_ifs at h with hcomma hcl
    · exact .inl ⟨by simpa using hcomma, h⟩
    · exact .inr ⟨by simpa using hcl, some.inj h⟩
  rw [parseMembers] at h
  split at h
  · cases h
  · rename_i key s₁ hkey
    split at h
    · cases h
    · rename_i e s₂ hcol
      split_ifs at h with he
      rw [bne_iff_ne, ne_eq, not_not] at he
      subst he
      dsimp only at h
      split at h
      · cases h
      · rename_i b₁ s₃ hval
        split at h
        · cases h
        · rename_i d s₄ hnext
          split at hval
          · cases hval
          · rename_i c u hs
            split_ifs at hval with hc
            · obtain ⟨p, hp, heq⟩ := map_eq_some_iff.1 hval
              cases heq
              exact hround (.string hkey hcol hp hnext)
            · obtain ⟨p, hp, heq⟩ := map_eq_some_iff.1 hval
              cases heq
              exact hround (.raw hkey hcol (by simpa [hs] using hc) hp hnext)

variable {name : Bytes}

lemma parseMembers_member {w₁ w₂ w₃ w₄ : Bytes} {d : UInt8}
    (hw₁ : Ws w₁) (hname : Chars name raw) (hw₂ : Ws w₂) (hw₃ : Ws w₃) (h : Text (.value v) t)
    (hw₄ : Ws w₄) (hd : d = comma ∨ d = closeBrace) (n : ℕ) (b : JsonBody) : parseMembers (n + 1) b
        (w₁ ++ 34 :: (raw ++ 34 :: (w₂ ++ 58 :: (w₃ ++ (t ++ (w₄ ++ d :: s)))))) =
      if d = comma then parseMembers n (b.add ⟨name, v, t⟩) s else some (b.add ⟨name, v, t⟩) := by
  have hws : isWs d = false := by rcases hd with rfl | rfl <;> decide
  have haft : skipWs (w₄ ++ d :: s) = d :: s := by rw [skipWs_append hw₄, skipWs_cons hws]
  have hdelim : ∀ c, (w₄ ++ d :: s).head? = some c → isDelimiter c := by
    intro c hc
    cases w₄ with
    | nil =>
      cases hc
      rcases hd with rfl | rfl <;> decide
    | cons =>
      cases hc
      have hwhite : isWs c := hw₄ c mem_cons_self
      simp [isDelimiter, hwhite]
  have hkey : parseString (skipWs
      (w₁ ++ 34 :: (raw ++ 34 :: (w₂ ++ 58 :: (w₃ ++ (t ++ (w₄ ++ d :: s))))))) =
        some (name, w₂ ++ 58 :: (w₃ ++ (t ++ (w₄ ++ d :: s)))) := by
    rw [skipWs_append hw₁, skipWs_cons (by decide), parseString_chars hname]
  have hcol : skipWs (w₂ ++ 58 :: (w₃ ++ (t ++ (w₄ ++ d :: s)))) =
      58 :: (w₃ ++ (t ++ (w₄ ++ d :: s))) := by
    rw [skipWs_append hw₂, skipWs_cons (by decide)]
  have hval : skipWs (w₃ ++ (t ++ (w₄ ++ d :: s))) = t ++ (w₄ ++ d :: s) := by
    rw [skipWs_append hw₃, skipWs_text h]
  have hround : parseMembers (n + 1) b
      (w₁ ++ 34 :: (raw ++ 34 :: (w₂ ++ 58 :: (w₃ ++ (t ++ (w₄ ++ d :: s)))))) =
        if d == comma then parseMembers n (b.add ⟨name, v, t⟩) s
          else if d == closeBrace then some (b.add ⟨name, v, t⟩) else none := by
    obtain ⟨c, u, ht, hc, hquo⟩ := head_of_text h
    by_cases hstring : ∃ x, v = .string x
    · obtain ⟨x, rfl⟩ := hstring
      cases h with
      | string hx =>
        refine (Round.string hkey hcol ?_ haft).parseMembers_eq n
        rw [hval, cons_append, append_assoc]
        exact parseString_chars hx _
    · have hne := mt hquo.1 hstring
      have hread : parseValueRaw (skipWs (w₃ ++ (t ++ (w₄ ++ d :: s))))
        = some (t, w₄ ++ d :: s) := by
        rw [hval]
        exact parseValueRaw_text h (fun x hx => hstring ⟨x, hx⟩) hdelim
      have hadd : b.add ⟨name, v, t⟩ = if t = str "null" then { b with nulls := b.nulls ++ [name] }
          else { b with fields := b.fields ++ [(name, t)] } := by
        split_ifs with hnull
        · rw [eq_null_iff h] at hnull
          subst hnull
          rfl
        · exact add_of_ne (mt (eq_null_iff h).2 hnull) fun x hx => hstring ⟨x, hx⟩
      rw [hadd]
      refine (Round.raw hkey hcol ?_ hread haft).parseMembers_eq n
      rw [hval, ht]
      simpa using hne
  rw [hround]
  rcases hd with rfl | rfl <;> rfl

lemma parseMembers_text (h : Text (.members ms) t) (s : Bytes) :
    ∀ n b, ms.length ≤ n → parseMembers n b (t ++ 125 :: s) = some (ms.foldl add b) := by
  generalize hp : Phrase.members ms = p at h
  induction h generalizing ms with
  | lastMember hw₁ hname hw₂ hw₃ h hw₄ =>
    cases hp
    intro n b hn
    obtain ⟨n, rfl⟩ := Nat.exists_eq_add_of_lt hn
    simp only [append_assoc, cons_append]
    exact parseMembers_member hw₁ hname hw₂ hw₃ h hw₄ (.inr rfl) _ b
  | member hw₁ hname hw₂ hw₃ h hw₄ _ _ ih =>
    cases hp
    intro n b hn
    obtain ⟨n, rfl⟩ := Nat.exists_eq_add_of_lt hn
    simp only [append_assoc, cons_append]
    refine (parseMembers_member hw₁ hname hw₂ hw₃ h hw₄ (.inl rfl) _ b).trans ?_
    rw [if_pos rfl]
    exact ih rfl _ _ (le_add_right _ _)
  | _ => cases hp

lemma length_le_of_text (h : Text (.members ms) t) : ms.length ≤ t.length := by
  generalize hp : Phrase.members ms = p at h
  induction h generalizing ms with
  | lastMember =>
    cases hp
    simp only [length_cons, length_nil, length_append]
    omega
  | member _ _ _ _ _ _ _ _ ih =>
    cases hp
    have := ih rfl
    simp only [length_cons, length_append]
    omega
  | _ => cases hp

lemma parseMembers_skipWs (n : ℕ) (b : JsonBody) (s : Bytes) :
    parseMembers n b (skipWs s) = parseMembers n b s := by
  have hidem : skipWs (skipWs s) = skipWs s := dropWhile_idempotent _ _
  cases n with
  | zero => rfl
  | succ => rw [parseMembers, parseMembers, hidem]

lemma skipWs_members (h : Text (.members ms) t) (s : Bytes) : ∃ u, skipWs (t ++ s) = 34 :: u := by
  cases h with
  | lastMember hw₁ | member hw₁ =>
    rw [append_assoc, skipWs_append hw₁]
    exact ⟨_, skipWs_cons (by decide)⟩

lemma parse_members (h : Members s ms) : parse s = some (ms.foldl add {}) := by
  obtain ⟨w, t, w', hw, ht, -, rfl⟩ := h
  unfold parse
  rw [skipWs_append hw, skipWs_cons (by decide)]
  dsimp only
  rcases ht with ht | ⟨ht, rfl⟩
  · obtain ⟨u, hu⟩ := skipWs_members ht (125 :: w')
    have hlen := length_le_of_text ht
    rw [hu]
    dsimp only
    rw [← hu, parseMembers_skipWs, parseMembers_text ht]
    · rfl
    · simp only [length_append, length_cons]
      omega
  · rw [skipWs_append ht, skipWs_cons (by decide)]
    rfl

def field (m : Written) : Option (Bytes × Bytes) :=
  match m.value with
  | .null => none
  | .string x => some (m.name, x)
  | _ => some (m.name, m.text)

lemma fields_foldl_add (ms : List Written) (b : JsonBody) :
    (ms.foldl add b).fields = b.fields ++ ms.filterMap field := by
  induction ms generalizing b with
  | nil => simp
  | cons m _ ih =>
    rw [foldl_cons, ih, filterMap_cons]
    obtain ⟨name, v, t⟩ := m
    cases v <;> simp [add, field]

lemma nulls_foldl_add (ms : List Written) (b : JsonBody) :
    (ms.foldl add b).nulls = b.nulls ++ (ms.filter fun m => (field m).isNone).map (·.name) := by
  induction ms generalizing b with
  | nil => simp
  | cons m _ ih =>
    rw [foldl_cons, ih, filter_cons]
    obtain ⟨name, v, t⟩ := m
    cases v <;> simp [add, field]

lemma name_of_field (h : field m = some p) : p.1 = m.name := by
  obtain ⟨name, v, t⟩ := m
  cases v <;> simp_all [field] <;> simp [← h]

lemma get_foldl_add (hfind : ms.find? (fun m => m.name == name) = some m) (hp : field m = some p) :
    (ms.foldl add {}).get name = some p.2 := by
  have hfield : (ms.filterMap field).find? (fun q => q.1 == name) = some p := by
    induction ms with
    | nil => cases hfind
    | cons e _ ih =>
      rw [find?_cons] at hfind
      split at hfind
      · rename_i hname
        cases hfind
        rw [filterMap_cons_some hp, find?_cons_of_pos]
        rw [name_of_field hp]
        exact hname
      · rename_i hname
        cases he : field e with
        | none => rw [filterMap_cons_none he, ih hfind]
        | some =>
          rw [filterMap_cons_some he, find?_cons_of_neg, ih hfind]
          rw [name_of_field he]
          simpa using hname
  rw [get, fields_foldl_add, nil_append, hfield, map_some]

lemma exists_of_member (h : Member s name v) : ∃ body,
    parse s = some body ∧ (name ∈ body.fields.map Prod.fst ∨ name ∈ body.nulls) := by
  obtain ⟨ms, t, hms, hmem⟩ := h
  refine ⟨_, parse_members hms, ?_⟩
  rw [fields_foldl_add, nulls_foldl_add]
  cases hfield : field ⟨name, v, t⟩ with
  | none =>
    refine .inr (mem_append_right _ (mem_map.2 ⟨_, mem_filter.2 ⟨hmem, ?_⟩, rfl⟩))
    simp [hfield]
  | some p =>
    refine .inl (mem_map.2 ⟨p, mem_append_right _ ?_, name_of_field hfield⟩)
    exact mem_filterMap.2 ⟨_, hmem, hfield⟩

end JsonBody

end SpidoNG.Service
