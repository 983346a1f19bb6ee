import SpidoNG.Lib.Separated
import SpidoNG.Jwt.Gate

/-!
# Roles in a token

The role checks flatten an array of strings to text: quotes and blanks are removed, and what is left
is cut at commas and trimmed.
-/

namespace SpidoNG.Service

open Bytes JsonText List Separated

def HasRoles (payload name csv : Bytes) (strs : List Bytes) : Prop :=
  ∃ ms, Members payload ms ∧
    ms.find? (fun m => m.name == name) = some ⟨name, .array (strs.map .string), csv⟩

def Gates (auth : AuthConfig) (header : Bytes) (req : Request) (strs : List Bytes) : Prop :=
  ∀ perms : Perms,
    (perms.roles ≠ [] →
      (roleCheck auth (some perms) header req = true ↔ ∃ s ∈ strs, s ∈ perms.roles)) ∧
    (bypassOwn auth (some perms) header req = true ↔ ∃ s ∈ strs, s ∈ perms.bypassOwnership)

/-- An array that the checks read as it is meant: it is written without escapes and on one line; its
strings have neither blanks nor commas; an empty array has no tab in it; and if the last string is
empty, then another one is, or a tab stands beside it. -/
structure Legible (csv : Bytes) (strs : List Bytes) : Prop where
  plain : ∀ c ∈ csv, c ≠ backslash ∧ c ≠ 10 ∧ c ≠ 13
  separate : ∀ s ∈ strs, 32 ∉ s ∧ comma ∉ s
  empty : strs = [] → 9 ∉ csv
  last : strs.getLast? = some [] → [] ∈ strs.dropLast ∨ 9 ∈ csv.rtakeWhile (· != comma)

def kept (c : UInt8) : Bool := c != quote && c != 32

def rolesIn (t : Bytes) : List Bytes := (pieces comma (t.filter kept)).map trim

variable {s q v w csv header : Bytes}

lemma mem_splitOn_of_mem_pieces {sep : UInt8} (h : q ∈ pieces sep s) : q ∈ s.splitOn sep := by
  unfold pieces at h
  dsimp only at h
  split_ifs at h
  · exact mem_of_mem_dropLast h
  · exact h

lemma mem_pieces_of_ne_nil {sep : UInt8} (h : q ∈ s.splitOn sep) (hq : q ≠ []) :
    q ∈ pieces sep s := by
  unfold pieces
  dsimp only
  split_ifs with hlast
  · rw [getLast?_eq_some_iff] at hlast
    obtain ⟨l, hl⟩ := hlast
    rw [hl] at h ⊢
    rw [dropLast_concat]
    simpa [hq] using h
  · exact h

lemma filter_dropWhile {p : UInt8 → Bool} (s : Bytes) :
    (s.dropWhile p).filter (fun c => !p c) = s.filter fun c => !p c := by
  conv_rhs => rw [← takeWhile_append_dropWhile (p := p) (l := s), filter_append]
  have hnone : (s.takeWhile p).filter (fun c => !p c) = [] := by
    refine filter_eq_nil_iff.2 fun c hc => ?_
    simp [mem_takeWhile_imp hc]
  rw [hnone, nil_append]

lemma filter_trim (s : Bytes) :
    (trim s).filter (fun c => !Http.isBlank c) = s.filter fun c => !Http.isBlank c := by
  unfold trim rdropWhile
  rw [filter_reverse, filter_dropWhile, ← filter_reverse, reverse_reverse, filter_dropWhile]

variable {c : UInt8}

lemma mem_trim (hc : Http.isBlank c = false) : c ∈ trim s ↔ c ∈ s := by
  have h := congrArg (c ∈ ·) (filter_trim s)
  simpa [hc] using h

lemma mem_of_mem_trim (h : c ∈ trim s) : c ∈ s := by
  exact (dropWhile_sublist _).subset (( rdropWhile_prefix _ _).subset h)

lemma dropWhile_eq_self {p : UInt8 → Bool} (h : ∀ c ∈ v, p c = false) (b : Bytes)
    (hv : v ≠ []) : (v ++ b).dropWhile p = v ++ b := by
  obtain ⟨c, v, rfl⟩ := exists_cons_of_ne_nil hv
  exact dropWhile_cons_of_neg (by simp [h c mem_cons_self])

lemma trim_append {a b : Bytes} (ha : ∀ c ∈ a, Http.isBlank c)
    (hv : ∀ c ∈ v, Http.isBlank c = false) (hb : ∀ c ∈ b, Http.isBlank c) :
    trim (a ++ (v ++ b)) = v := by
  unfold trim rdropWhile
  rw [dropWhile_append_of_pos ha]
  by_cases hne : v = []
  · have hall : b.dropWhile Http.isBlank = [] := dropWhile_eq_nil_iff.2 hb
    rw [hne, nil_append, hall]
    rfl
  · rw [dropWhile_eq_self hv b hne, reverse_append, dropWhile_append_of_pos (by simpa using hb)]
    have hself := dropWhile_eq_self (v := v.reverse) (by simpa using hv) [] (by simpa using hne)
    rw [append_nil] at hself
    rw [hself, reverse_reverse]

structure Item where
  value : Bytes
  before : Bytes
  raw : Bytes
  after : Bytes
  ws_before : Ws before
  ws_after : Ws after
  chars : Chars value raw

variable {strs : List Bytes}

namespace Item

def text (i : Item) : Bytes := i.before ++ quote :: (i.raw ++ quote :: i.after)

def flat (i : Item) : Bytes := i.text.filter kept

lemma exists_of_text {t : Bytes} (h : Text (.elements (strs.map .string)) t) :
    ∃ items : List Item, items ≠ [] ∧ items.map value = strs ∧
      t = intercalate [comma] (items.map text) := by
  generalize hp : Phrase.elements (strs.map .string) = p at h
  induction h generalizing strs with
  | lastElement hw h hw' =>
    obtain ⟨x, rfl, rfl⟩ := map_eq_singleton_iff.1 (Phrase.elements.inj hp)
    cases h with
    | string hx => exact ⟨[⟨x, _, _, _, hw, hw', hx⟩], by simp, rfl, by simp [text, quote]⟩
  | element hw h hw' _ _ ih =>
    obtain ⟨x, xs, rfl, rfl, rfl⟩ := map_eq_cons_iff.1 (Phrase.elements.inj hp)
    cases h with
    | string hx =>
      obtain ⟨items, hne, rfl, rfl⟩ := ih rfl
      obtain ⟨j, items, rfl⟩ := exists_cons_of_ne_nil hne
      refine ⟨⟨x, _, _, _, hw, hw', hx⟩ :: j :: items, by simp, rfl, ?_⟩
      simp [text, quote, comma, intercalate_cons_cons]
  | _ => cases hp

lemma flat_eq (i : Item) :
    i.flat = i.before.filter kept ++ (i.raw.filter kept ++ i.after.filter kept) := by
  simp [flat, text, filter_append, kept]

lemma comma_not_mem_text {i : Item} (h : comma ∉ i.value) : comma ∉ i.text := by
  intro hmem
  have hws {w : Bytes} (hw : Ws w) : comma ∉ w := fun hc => absurd (hw _ hc) (by decide)
  simp only [text, mem_append, mem_cons, hws i.ws_before, hws i.ws_after, false_or,
    or_false] at hmem
  rcases hmem with hc | hc | hc
  · exact absurd hc (by decide)
  · exact h (i.chars.mem_of_mem_raw (by decide) (by decide) (by decide) (by decide) hc)
  · exact absurd hc (by decide)

lemma kept_of_hexDigit {n : ℕ} (h : hexDigit c = some n) : kept c := by
  simp only [kept, Bool.and_eq_true, bne_iff_ne, ne_eq]
  constructor
  · rintro rfl
    cases h
  · rintro rfl
    cases h

lemma length_encode_le (n : ℕ) : (JsonText.encode n).length ≤ 3 := by
  unfold JsonText.encode
  split_ifs <;> simp

lemma length_filter_raw {x raw : Bytes} (h : Chars x raw) (hblank : 32 ∉ x) :
    x.length ≤ (raw.filter kept).length ∧ (92 ∈ x → x.length < (raw.filter kept).length) := by
  induction h with
  | nil => simp
  | @plain c _ _ _ hquo hback _ ih =>
    rw [mem_cons, not_or] at hblank
    obtain ⟨hle, hlt⟩ := ih hblank.2
    have hkept : kept c := by
      simp only [kept, Bool.and_eq_true, bne_iff_ne]
      exact ⟨hquo, Ne.symm hblank.1⟩
    simp only [filter_cons_of_pos hkept, length_cons, mem_cons, hback.symm, false_or]
    exact ⟨by omega, fun hmem => by have := hlt hmem; omega⟩
  | @short e _ _ _ he _ ih =>
    rw [mem_cons, not_or] at hblank
    obtain ⟨hle, hlt⟩ := ih hblank.2
    have hkept : kept 92 := by decide
    simp only [filter_cons_of_pos hkept, length_cons, mem_cons]
    by_cases hquo : e = quote
    · -- The quote goes, its backslash stays.
      subst hquo
      cases he
      rw [filter_cons_of_neg (by decide)]
      refine ⟨by omega, ?_⟩
      rintro (hmem | hmem)
      · exact absurd hmem (by decide)
      · have := hlt hmem
        omega
    · have hkept' : kept e := by
        simp only [kept, Bool.and_eq_true, bne_iff_ne]
        refine ⟨hquo, ?_⟩
        rintro rfl
        cases he
      rw [filter_cons_of_pos hkept', length_cons]
      exact ⟨by omega, fun _ => by omega⟩
  | @unicode _ _ _ _ k l m n _ _ ha hb hc hd _ ih =>
    rw [mem_append, not_or] at hblank
    obtain ⟨hle, -⟩ := ih hblank.2
    have hlen := length_encode_le (((k * 16 + l) * 16 + m) * 16 + n)
    simp only [filter_cons_of_pos (show kept 92 by decide),
      filter_cons_of_pos (show kept 117 by decide),
      filter_cons_of_pos (kept_of_hexDigit ha), filter_cons_of_pos (kept_of_hexDigit hb),
      filter_cons_of_pos (kept_of_hexDigit hc), filter_cons_of_pos (kept_of_hexDigit hd),
      length_cons, length_append]
    exact ⟨by omega, fun _ => by omega⟩

lemma longer {i : Item} (hblank : 32 ∉ i.value) (hback : 92 ∈ i.value) :
    92 ∈ trim i.flat ∧ i.value.length < (trim i.flat).length := by
  have hraw : 92 ∈ i.raw := by
    by_contra hnot
    rw [(i.chars.eq_raw hnot).1] at hback
    exact hnot hback
  have hnone : ∀ c ∈ i.raw.filter kept, Http.isBlank c = false := by
    intro c hc
    obtain ⟨hmem, hkept⟩ := mem_filter.1 hc
    have hle := i.chars.le_of_mem_raw c hmem
    simp only [kept, Bool.and_eq_true, bne_iff_ne] at hkept
    simp only [Http.isBlank, Bool.or_eq_false_iff, beq_eq_false_iff_ne]
    refine ⟨hkept.2, ?_⟩
    rintro rfl
    exact absurd hle (by decide)
  constructor
  · rw [mem_trim (by decide), flat_eq, mem_append, mem_append]
    exact .inr (.inl (mem_filter.2 ⟨hraw, by decide⟩))
  · calc i.value.length < (i.raw.filter kept).length := (length_filter_raw i.chars hblank).2 hback
      _ = ((i.raw.filter kept).filter fun c => !Http.isBlank c).length := by
        refine congrArg List.length (filter_eq_self.2 fun c hc => ?_).symm
        simp [hnone c hc]
      _ ≤ (i.flat.filter fun c => !Http.isBlank c).length := by
        rw [flat_eq, filter_append, filter_append, length_append, length_append]
        omega
      _ = ((trim i.flat).filter fun c => !Http.isBlank c).length := by rw [filter_trim]
      _ ≤ (trim i.flat).length := length_filter_le _ _

lemma flat_eq_of_plain {i : Item} (hplain : ∀ c ∈ i.text, c ≠ backslash ∧ c ≠ 10 ∧ c ≠ 13)
    (hblank : 32 ∉ i.value) : i.flat = i.before.filter kept ++
      (i.value ++ i.after.filter kept) := by
  have hback : 92 ∉ i.raw := fun hmem => (hplain 92 (by simp [text, hmem])).1 rfl
  obtain ⟨hraw, hquo⟩ := i.chars.eq_raw hback
  have hall : i.value.filter kept = i.value := by
    refine filter_eq_self.2 fun c hc => ?_
    simp only [kept, Bool.and_eq_true, bne_iff_ne]
    exact ⟨ne_of_mem_of_not_mem hc hquo, ne_of_mem_of_not_mem hc hblank⟩
  rw [flat_eq, ← hraw, hall]

lemma eq_tab (hw : Ws w) (hline : ∀ c ∈ w, c ≠ 10 ∧ c ≠ 13) : ∀ c ∈ w.filter kept, c = 9 := by
  intro c hc
  obtain ⟨hmem, hkept⟩ := mem_filter.1 hc
  have hws := hw c hmem
  simp only [JsonText.isWs, Bool.or_eq_true, beq_iff_eq] at hws
  simp only [kept, Bool.and_eq_true, bne_iff_ne] at hkept
  rcases hws with ((rfl | rfl) | rfl) | rfl
  · exact absurd rfl hkept.2
  · rfl
  · exact absurd rfl (hline _ hmem).1
  · exact absurd rfl (hline _ hmem).2

lemma le_of_mem_value {i : Item} (hback : 92 ∉ i.raw) : ∀ c ∈ i.value, 32 ≤ c := by
  rw [(i.chars.eq_raw hback).1]
  exact i.chars.le_of_mem_raw

section Plain

variable {i : Item} (hplain : ∀ c ∈ i.text, c ≠ backslash ∧ c ≠ 10 ∧ c ≠ 13)

include hplain

lemma eq_tab_before : ∀ c ∈ i.before.filter kept, c = 9 :=
  eq_tab i.ws_before fun c hc => (hplain c (by simp [text, hc])).2

lemma eq_tab_after : ∀ c ∈ i.after.filter kept, c = 9 :=
  eq_tab i.ws_after fun c hc => (hplain c (by simp [text, hc])).2

lemma trim_flat (hblank : 32 ∉ i.value) : trim i.flat = i.value := by
  rw [flat_eq_of_plain hplain hblank]
  refine trim_append (fun c hc => ?_) (fun c hc => ?_) fun c hc => ?_
  · rw [eq_tab_before hplain c hc]
    rfl
  · have hback : 92 ∉ i.raw := fun hmem => (hplain 92 (by simp [text, hmem])).1 rfl
    have hle := le_of_mem_value hback c hc
    simp only [Http.isBlank, Bool.or_eq_false_iff, beq_eq_false_iff_ne]
    refine ⟨ne_of_mem_of_not_mem hc hblank, ?_⟩
    rintro rfl
    exact absurd hle (by decide)
  · rw [eq_tab_after hplain c hc]
    rfl

lemma flat_eq_nil_iff (hblank : 32 ∉ i.value) : i.flat = [] ↔ i.value = [] ∧ 9 ∉ i.text := by
  constructor
  · intro h
    refine ⟨?_, fun htab => ?_⟩
    · rw [flat_eq_of_plain hplain hblank] at h
      simp only [append_eq_nil_iff] at h
      exact h.2.1
    · have hmem : 9 ∈ i.flat := mem_filter.2 ⟨htab, by decide⟩
      rw [h] at hmem
      cases hmem
  · rintro ⟨hval, htab⟩
    rw [flat_eq_of_plain hplain hblank, hval]
    have hnone {w : Bytes} (hw : ∀ c ∈ w.filter kept, c = 9) (hsub : w ⊆ i.text) :
        w.filter kept = [] := by
      refine eq_nil_iff_forall_not_mem.2 fun c hc => ?_
      have hmem := hsub (mem_filter.1 hc).1
      rw [hw c hc] at hmem
      exact htab hmem
    have hbef : i.before ⊆ i.text := fun c hc => by simp [text, hc]
    have haft : i.after ⊆ i.text := fun c hc => by simp [text, hc]
    rw [hnone (eq_tab_before hplain) hbef, hnone (eq_tab_after hplain) haft]
    rfl

end Plain

end Item

lemma exists_mem_rolesIn {t : Bytes} (hc : c ∈ t) (hkept : kept c)
    (hcomma : c ≠ comma) (hblank : Http.isBlank c = false) : ∃ q ∈ rolesIn t, c ∈ q := by
  obtain ⟨q, hq, hmem⟩ := (mem_splitOn_iff hcomma).2 (mem_filter.2 ⟨hc, hkept⟩)
  refine ⟨trim q, mem_map_of_mem (mem_pieces_of_ne_nil hq (ne_nil_of_mem hmem)), ?_⟩
  exact (mem_trim hblank).2 hmem

lemma separate_of_mem_rolesIn {t : Bytes} (h : q ∈ rolesIn t) : 32 ∉ q ∧ comma ∉ q := by
  obtain ⟨r, hr, rfl⟩ := mem_map.1 h
  have hsplit := mem_splitOn_of_mem_pieces hr
  refine ⟨fun hmem => ?_, fun hmem => ?_⟩
  · have hfilter := (mem_splitOn_iff (s := comma) (by decide)).1
      ⟨r, hsplit, mem_of_mem_trim hmem⟩
    exact absurd (mem_filter.1 hfilter).2 (by decide)
  · exact not_mem_of_mem_splitOn hsplit (mem_of_mem_trim hmem)

section Items

variable {items : List Item} {t : Bytes} (hne : items ≠ [])
  (ht : t = intercalate [comma] (items.map Item.text))

include ht

lemma mem_of_mem_text {i : Item} (hi : i ∈ items) (hc : c ∈ i.text) (hcomma : c ≠ comma) : c ∈ t := by
  rw [ht]
  exact (mem_intercalate hcomma).2 ⟨i.text, mem_map_of_mem hi, hc⟩

include hne

lemma splitOn_items (hcomma : ∀ i ∈ items, comma ∉ i.value) :
    (t.filter kept).splitOn comma = items.map Item.flat := by
  rw [ht, filter_intercalate (by decide), map_map]
  refine splitOn_intercalate comma (fun l hl => ?_) (by simpa using hne)
  obtain ⟨i, hi, rfl⟩ := mem_map.1 hl
  exact fun hmem => Item.comma_not_mem_text (hcomma i hi) (mem_filter.1 hmem).1

section Exact

variable (h : ∀ r, r ∈ rolesIn t ↔ r ∈ items.map Item.value)

include h

omit hne ht in
lemma separate_of_exact : ∀ i ∈ items, 32 ∉ i.value ∧ comma ∉ i.value :=
  fun i hi => separate_of_mem_rolesIn ((h i.value).2 (mem_map_of_mem hi))

lemma backslash_not_mem : backslash ∉ t := by
  intro hback
  have hsep := separate_of_exact h
  have hlong (n : ℕ) : ∃ s ∈ items.map Item.value, backslash ∈ s ∧ n ≤ s.length := by
    induction n with
    | zero =>
      obtain ⟨q, hq, hmem⟩ := exists_mem_rolesIn hback (by decide) (by decide) (by decide)
      exact ⟨q, (h q).1 hq, hmem, Nat.zero_le _⟩
    | succ n ih =>
      obtain ⟨s, hs, hmem, hn⟩ := ih
      obtain ⟨i, hi, rfl⟩ := mem_map.1 hs
      obtain ⟨hmem', hlt⟩ := Item.longer (hsep i hi).1 hmem
      have hsplit : i.flat ∈ (t.filter kept).splitOn comma := by
        rw [splitOn_items hne ht fun i hi => (hsep i hi).2]
        exact mem_map_of_mem hi
      have hseen : trim i.flat ∈ rolesIn t := by
        refine mem_map_of_mem (mem_pieces_of_ne_nil hsplit ?_)
        exact ne_nil_of_mem (mem_of_mem_trim hmem')
      exact ⟨trim i.flat, (h _).1 hseen, hmem', by omega⟩
  obtain ⟨s, hs, -, hlen⟩ := hlong ((items.map Item.value).flatten.length + 1)
  have hle := (sublist_flatten_of_mem hs).length_le
  omega

lemma plain_of_exact : ∀ c ∈ t, c ≠ backslash ∧ c ≠ 10 ∧ c ≠ 13 := by
  have hback := backslash_not_mem hne ht h
  -- A line end would be seen in a role, and strings have none without escapes.
  have hline {c : UInt8} (hkept : kept c) (hcomma : c ≠ comma)
      (hblank : Http.isBlank c = false) (hlt : ¬ 32 ≤ c) : c ∉ t := by
    intro hc
    obtain ⟨q, hq, hmem⟩ := exists_mem_rolesIn hc hkept hcomma hblank
    obtain ⟨i, hi, rfl⟩ := mem_map.1 ((h q).1 hq)
    refine hlt (Item.le_of_mem_value (fun hraw => hback ?_) c hmem)
    exact mem_of_mem_text ht hi (by simp [Item.text, backslash, hraw]) (by decide)
  intro c hc
  refine ⟨ne_of_mem_of_not_mem hc hback, ?_, ?_⟩
  · exact ne_of_mem_of_not_mem hc (hline (by decide) (by decide) (by decide) (by decide))
  · exact ne_of_mem_of_not_mem hc (hline (by decide) (by decide) (by decide) (by decide))

end Exact

section Readable

variable (hplain : ∀ c ∈ t, c ≠ backslash ∧ c ≠ 10 ∧ c ≠ 13)
  (hsep : ∀ i ∈ items, 32 ∉ i.value ∧ comma ∉ i.value)

include hplain

omit hne in
lemma plain_item {i : Item} (hi : i ∈ items) : ∀ c ∈ i.text, c ≠ backslash ∧ c ≠ 10 ∧ c ≠ 13 := by
  intro c hc
  by_cases hcomma : c = comma
  · subst hcomma
    decide
  · exact hplain c (mem_of_mem_text ht hi hc hcomma)

include hsep

lemma rolesIn_items : rolesIn t =
    if (items.map Item.flat).getLast? = some [] then (items.map Item.value).dropLast
    else items.map Item.value := by
  have htrim : (items.map Item.flat).map trim = items.map Item.value := by
    rw [map_map]
    exact map_congr_left fun i hi => Item.trim_flat (plain_item ht hplain hi) (hsep i hi).1
  unfold rolesIn pieces
  rw [splitOn_items hne ht fun i hi => (hsep i hi).2]
  split_ifs with hlast
  · rw [if_pos hlast, map_dropLast, htrim]
  · rw [if_neg hlast, htrim]

omit hne hplain hsep in
lemma tab_mem_iff {init : List Item} {l : Item} (hitem : items = init ++ [l]) (hl : comma ∉ l.text) :
    9 ∈ (openBracket :: (t ++ [closeBracket])).rtakeWhile (· != comma) ↔ 9 ∈ l.text := by
  by_cases hinit : init = []
  · have htext : t = l.text := by simp [ht, hitem, hinit]
    have hcsv : comma ∉ openBracket :: (t ++ [closeBracket]) := by
      rw [htext]
      simpa [comma, openBracket, closeBracket] using hl
    rw [rtakeWhile_of_not_mem hcsv, htext]
    simp [openBracket, closeBracket]
  · have hcsv : openBracket :: (t ++ [closeBracket]) =
        (openBracket :: intercalate [comma] (init.map Item.text)) ++
          comma :: (l.text ++ [closeBracket]) := by
      rw [ht, hitem, map_append, map_singleton,
        intercalate_concat (by simpa using hinit)]
      simp
    rw [hcsv, rtakeWhile_append_cons]
    · simp [closeBracket]
    · simpa [comma, closeBracket] using hl

lemma exact_iff_last : (∀ r, r ∈ rolesIn t ↔ r ∈ items.map Item.value) ↔
    ((items.map Item.value).getLast? = some [] → [] ∈ (items.map Item.value).dropLast ∨
      9 ∈ (openBracket :: (t ++ [closeBracket])).rtakeWhile (· != comma)) := by
  obtain hnil | ⟨init, l, hitem⟩ := eq_nil_or_concat' items
  · exact absurd hnil hne
  have hl : l ∈ items := by simp [hitem]
  have hflat := Item.flat_eq_nil_iff (plain_item ht hplain hl) (hsep l hl).1
  rw [rolesIn_items hne ht hplain hsep, tab_mem_iff ht hitem (Item.comma_not_mem_text (hsep l hl).2)]
  simp only [hitem, map_append, map_cons, map_nil, getLast?_concat,
    dropLast_concat, Option.some.injEq]
  by_cases hnone : l.flat = []
  · obtain ⟨hval, htab⟩ := hflat.1 hnone
    rw [if_pos hnone, hval]
    constructor
    · exact fun h _ => .inl ((h []).2 (by simp))
    · intro h r
      have hmem := (h rfl).resolve_right htab
      rw [mem_append, mem_singleton]
      exact ⟨.inl, fun hr => hr.elim id fun hr => hr ▸ hmem⟩
  · rw [if_neg hnone]
    refine iff_of_true (fun r => Iff.rfl) fun hval => .inr ?_
    by_contra htab
    exact hnone (hflat.2 ⟨hval, htab⟩)

end Readable

lemma rolesIn_iff_legible : (∀ r, r ∈ rolesIn t ↔ r ∈ items.map Item.value) ↔
    Legible (openBracket :: (t ++ [closeBracket])) (items.map Item.value) := by
  have hplain : (∀ c ∈ openBracket :: (t ++ [closeBracket]), c ≠ backslash ∧ c ≠ 10 ∧ c ≠ 13) ↔
      ∀ c ∈ t, c ≠ backslash ∧ c ≠ 10 ∧ c ≠ 13 := by
    rw [forall_mem_cons, forall_mem_append, forall_mem_singleton]
    exact ⟨fun h => h.2.1, fun h => ⟨by decide, h, by decide⟩⟩
  constructor
  · intro h
    have hp := plain_of_exact hne ht h
    have hsep := separate_of_exact h
    refine ⟨hplain.2 hp, ?_, fun hnil => absurd hnil (by simpa using hne),
      (exact_iff_last hne ht hp hsep).1 h⟩
    intro s hs
    obtain ⟨i, hi, rfl⟩ := mem_map.1 hs
    exact hsep i hi
  · intro h
    exact (exact_iff_last hne ht (hplain.1 h.plain)
      fun i hi => h.separate i.value (mem_map_of_mem hi)).2 h.last

end Items

lemma rolesIn_iff_legible_empty (hw : Ws w) :
    (∀ r, r ∈ rolesIn w ↔ r ∈ []) ↔ Legible (openBracket :: (w ++ [closeBracket])) [] := by
  constructor
  · intro h
    have hblank : ∀ c ∈ w, c = 32 := by
      intro c hc
      by_contra hne
      have hneutral := neutral_of_isWs (hw c hc)
      have hkept : kept c := by
        simp only [kept, Bool.and_eq_true, bne_iff_ne]
        exact ⟨hneutral.1, hne⟩
      have hcomma : c ≠ comma := by
        rintro rfl
        exact absurd (hw _ hc) (by decide)
      obtain ⟨q, hq, hmem⟩ := (mem_splitOn_iff hcomma).2 (mem_filter.2 ⟨hc, hkept⟩)
      have hseen := mem_pieces_of_ne_nil hq (ne_nil_of_mem hmem)
      exact absurd ((h _).1 (mem_map_of_mem hseen)) not_mem_nil
    have hcsv : ∀ c ∈ openBracket :: (w ++ [closeBracket]),
        c = openBracket ∨ c = 32 ∨ c = closeBracket := by
      intro c hc
      simp only [mem_cons, mem_append, not_mem_nil, or_false] at hc
      rcases hc with hc | hc | hc
      · exact .inl hc
      · exact .inr (.inl (hblank c hc))
      · exact .inr (.inr hc)
    refine ⟨fun c hc => ?_, fun s hs => absurd hs not_mem_nil, fun _ htab => ?_, by simp⟩
    · rcases hcsv c hc with rfl | rfl | rfl <;> decide
    · exact absurd (hcsv 9 htab) (by decide)
  · intro h
    have hnone : w.filter kept = [] := by
      refine filter_eq_nil_iff.2 fun c hc => ?_
      have hmem : c ∈ openBracket :: (w ++ [closeBracket]) := by simp [hc]
      have hplain := h.plain c hmem
      have hws := hw c hc
      simp only [JsonText.isWs, Bool.or_eq_true, beq_iff_eq] at hws
      rcases hws with ((rfl | rfl) | rfl) | rfl
      · decide
      · exact absurd hmem (h.empty rfl)
      · exact absurd rfl hplain.2.1
      · exact absurd rfl hplain.2.2
    have hpieces : pieces comma [] = [] := by decide
    simp [rolesIn, hnone, hpieces]

lemma anyRoleMatches_iff {required : List Bytes} :
    anyRoleMatches csv required ↔ ∃ q ∈ (pieces comma csv).map trim, q ∈ required := by
  simp [anyRoleMatches]

lemma gates_iff_forall {auth : AuthConfig} {req : Request} : Gates auth header req strs ↔
      ∀ r, r ∈ (pieces comma (rolesCsv auth header req)).map trim ↔ r ∈ strs := by
  constructor
  · intro h r
    have hbypass := (h { bypassOwnership := [r] }).2
    simpa [bypassOwn, anyRoleMatches_iff] using hbypass
  · intro h perms
    refine ⟨fun hne => ?_, ?_⟩
    · simp only [roleCheck, List.isEmpty_iff, hne, Bool.or_eq_true, anyRoleMatches_iff, h, false_or]
    · cases hperms : perms.bypassOwnership with
      | nil => simp [bypassOwn, hperms]
      | cons => simp only [bypassOwn, hperms, isEmpty_cons, Bool.not_false, Bool.true_and,
          anyRoleMatches_iff, h]

lemma jwtClaim_of_hasRoles {payload name : Bytes}
    (h : HasRoles payload name csv strs) : jwtClaim payload name = csv ∧
      Text (.value (.array (strs.map .string))) csv := by
  obtain ⟨ms, hms, hfind⟩ := h
  refine ⟨?_, hms.text _ (mem_of_find?_eq_some hfind)⟩
  unfold jwtClaim
  rw [JsonBody.parse_members hms]
  dsimp only
  rw [JsonBody.get_foldl_add hfind rfl, Option.getD_some]

lemma rolesCsv_of_array {auth : AuthConfig} (hjwt : auth.type = .jwt) {t : Bytes} {req : Request}
    (h : jwtClaim (jwtPayload req) auth.rolesClaim = openBracket :: (t ++ [closeBracket])) :
    rolesCsv auth header req = t.filter kept := by
  unfold rolesCsv
  rw [hjwt]
  have hinn : ((openBracket :: (t ++ [closeBracket])).drop 1).take
      ((openBracket :: (t ++ [closeBracket])).length - 2) = t := by simp
  rw [h, if_pos (by simp), hinn]
  rfl

/-- The checks are right for a token exactly if its array of roles is legible. -/
theorem gates_iff {auth : AuthConfig} (hjwt : auth.type = .jwt) (header : Bytes) {req : Request}
    {csv : Bytes} {strs : List Bytes} (h : HasRoles (jwtPayload req) auth.rolesClaim csv strs) :
    Gates auth header req strs ↔ Legible csv strs := by
  obtain ⟨hclaim, htext⟩ := jwtClaim_of_hasRoles h
  rw [gates_iff_forall]
  generalize hvs : strs.map Value.string = vs at htext
  cases htext with
  | emptyArray hw =>
    obtain rfl := map_eq_nil_iff.1 hvs
    rw [rolesCsv_of_array hjwt hclaim]
    exact rolesIn_iff_legible_empty hw
  | array ht =>
    rw [← hvs] at ht
    obtain ⟨items, hne, rfl, htext⟩ := Item.exists_of_text ht
    rw [rolesCsv_of_array hjwt hclaim]
    exact rolesIn_iff_legible hne htext

lemma text_self (x : Bytes) (h : Chars x x) : Text (.value (.string x)) (34 :: (x ++ [34])) :=
  .string h

lemma hasRoles_of_text (name t : Bytes) (xs : List Bytes) (hname : Chars name name)
    (ht : Text (.elements (xs.map Value.string)) t) :
    HasRoles (openBrace :: quote :: (name ++ quote :: 58 :: openBracket ::
      (t ++ [closeBracket, closeBrace]))) name (openBracket :: (t ++ [closeBracket])) xs := by
  refine ⟨[⟨name, .array (xs.map Value.string), _⟩], ⟨[], _, [], ws_nil,
    .inl (.lastMember ws_nil hname ws_nil ws_nil (.array ht) ws_nil), ws_nil, ?_⟩, ?_⟩
  · simp [openBrace, closeBrace, quote, openBracket, closeBracket]
  · simp [openBracket, closeBracket]

def adminToken : Bytes := str "e30.eyJyb2xlcyI6WyJndWVzdCIsImFkbWluIl19.AA"

theorem gates_admin :
    Gates { type := .jwt } [] (Jwt.bearerRequest adminToken) [str "guest", str "admin"] := by
  have hpayload : jwtPayload (Jwt.bearerRequest adminToken) =
      str "\x7b\"roles\":[\"guest\",\"admin\"]\x7d" := by decide +kernel
  have hroles : HasRoles (jwtPayload (Jwt.bearerRequest adminToken)) (str "roles")
      (str "[\"guest\",\"admin\"]") [str "guest", str "admin"] := by
    rw [hpayload]
    exact hasRoles_of_text (str "roles") (str "\"guest\",\"admin\"") [str "guest", str "admin"]
      (Chars.self (by decide +kernel))
      (.element ws_nil (text_self (str "guest") (Chars.self (by decide +kernel))) ws_nil
        (.lastElement ws_nil (text_self (str "admin") (Chars.self (by decide +kernel))) ws_nil))
  have hjwt : ({ type := .jwt } : AuthConfig).type = .jwt := rfl
  exact (gates_iff hjwt [] hroles).2 ⟨by decide +kernel, by decide +kernel, by decide +kernel,
    by decide +kernel⟩

def guestToken : Bytes := str "e30.eyJyb2xlcyI6WyJndWVzdCxhZG1pbiJdfQ.AA"

theorem not_gates : HasRoles (jwtPayload (Jwt.bearerRequest guestToken)) (str "roles")
    (str "[\"guest,admin\"]") [str "guest,admin"] ∧
      roleCheck { type := .jwt } (some { roles := [str "admin"] }) []
        (Jwt.bearerRequest guestToken) = true ∧
      ¬ Gates { type := .jwt } [] (Jwt.bearerRequest guestToken) [str "guest,admin"] := by
  have hpayload : jwtPayload (Jwt.bearerRequest guestToken) =
      str "\x7b\"roles\":[\"guest,admin\"]\x7d" := by decide +kernel
  have hcheck : roleCheck { type := .jwt } (some { roles := [str "admin"] }) []
      (Jwt.bearerRequest guestToken) = true := by decide +kernel
  refine ⟨?_, hcheck, fun h => ?_⟩
  · rw [hpayload]
    exact hasRoles_of_text (str "roles") (str "\"guest,admin\"") [str "guest,admin"]
      (Chars.self (by decide +kernel))
      (.lastElement ws_nil (text_self (str "guest,admin") (Chars.self (by decide +kernel))) ws_nil)
  · have hrole := ((h { roles := [str "admin"] }).1 (by simp)).1 hcheck
    exact absurd hrole (by decide)

end SpidoNG.Service
