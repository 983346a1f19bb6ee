import SpidoNG.Http.Response
import SpidoNG.Uring.Connection

/-!
# Responses and the clients that read them

A client that sends requests one behind the other has to find the end of each response.
-/

namespace SpidoNG.Http

open Bytes ResponseReader List Option

def Parts.message (head : Bool) (p : Parts) (rest : Bytes) : Message :=
  ⟨p.status.toNat, if bodiless head p.status.toNat then [] else p.body, rest⟩

/-- The header text has no empty line and says nothing else about the length of the body. `last`
says that nothing follows. -/
def Parts.Plain (lf closes last head : Bool) (p : Parts) : Prop :=
  if bodiless head p.status.toNat then p.body = []
  else if values (str "transfer-encoding") (linesOf lf p.givenText) = [] then
    ∀ v ∈ values (str "content-length") (linesOf lf p.givenText), numeral v = some p.body.length
  else chunkedLast (values (str "transfer-encoding") (linesOf lf p.givenText)) = false ∧
    last = true ∧
    closes = true

def Parts.Smuggled (lf head : Bool) (p : Parts) (lines : List Bytes) (x : Bytes) : Prop :=
  bodiless head p.status.toNat = false ∧ values (str "transfer-encoding") lines ≠ [] ∧
    chunkedLast (values (str "transfer-encoding") lines) = true ∧
    readChunks lf (x ++ p.ownText ++ [CR, LF] ++ p.body) = some (p.body, [])

def Parts.Fits (lf closes last head : Bool) (p : Parts) : Prop :=
  200 ≤ p.status ∧ p.status ≤ 999 ∧
    (readLines lf p.givenText).elim (p.Plain lf closes last head) fun x =>
    p.Smuggled lf head x.1 x.2

section

variable (lf closes last head : Bool) (p : Parts)

instance : Decidable (p.Plain lf closes last head) :=
  inferInstanceAs (Decidable (if bodiless head p.status.toNat then p.body = []
    else if values (str "transfer-encoding") (linesOf lf p.givenText) = [] then
      ∀ v ∈ values (str "content-length") (linesOf lf p.givenText), numeral v = some p.body.length
    else chunkedLast (values (str "transfer-encoding") (linesOf lf p.givenText)) = false ∧
      last = true ∧ closes = true))

instance (lines : List Bytes) (x : Bytes) : Decidable (p.Smuggled lf head lines x) :=
  inferInstanceAs (Decidable (_ ∧ _ ∧ _ ∧ _))

instance decidableElim {α : Type} (o : Option α) (a : Prop) (f : α → Prop) [Decidable a]
    [DecidablePred f] :
    Decidable (o.elim a f) :=
  match o with
  | none => inferInstanceAs (Decidable a)
  | some x => inferInstanceAs (Decidable (f x))

instance : Decidable (p.Fits lf closes last head) := inferInstanceAs (Decidable (_ ∧ _ ∧ _))

end

lemma decimal_digit : ∀ d < 10, decimal d = [UInt8.ofNat (48 + d)] := by decide +kernel

lemma decimal_concat {n : ℕ} (hn : 10 ≤ n) :
    decimal n = decimal (n / 10) ++ [UInt8.ofNat (48 + n % 10)] := by
  rw [← decimal_digit _ (Nat.mod_lt n (by norm_num))]
  conv_lhs => rw [← Nat.div_add_mod n 10]
  rw [decimal, ← Nat.toDigits_append_toDigits (by norm_num) (by omega) (by omega), map_append]
  rfl

lemma version_bytes : str "HTTP/1.1 " = [72, 84, 84, 80, 47, 49, 46, 49, 32] := rfl

lemma statusOf_digits {n : ℕ} (hlow : 100 ≤ n) (hhigh : n < 1000) (s : Bytes) :
    statusOf (str "HTTP/1.1 " ++ decimal n ++ 32 :: s) = some n := by
  have hdecimal : decimal n =
      [UInt8.ofNat (48 + n / 100), UInt8.ofNat (48 + n / 10 % 10), UInt8.ofNat (48 + n % 10)] := by
    rw [decimal_concat (by omega), decimal_concat (by omega : 10 ≤ n / 10), Nat.div_div_eq_div_mul,
      decimal_digit _ (by omega)]
    rfl
  have hdig : ∀ d < 10, (48 ≤ UInt8.ofNat (48 + d) && UInt8.ofNat (48 + d) ≤ 57) ∧
      (UInt8.ofNat (48 + d)).toNat = 48 + d := by
    decide +kernel
  obtain ⟨h1, h1'⟩ := hdig (n / 100) (by omega)
  obtain ⟨h2, h2'⟩ := hdig (n / 10 % 10) (by omega)
  obtain ⟨h3, h3'⟩ := hdig (n % 10) (by omega)
  rw [hdecimal, version_bytes]
  simp only [cons_append, nil_append, statusOf]
  rw [if_pos, h1', h2', h3']
  · congr 1
    omega
  · simp only [all_cons, h1, h2, h3, all_nil]
    rfl

lemma statusOf_statusLine {s : ℤ} {k : ℕ} (h : statusOf (statusLine s) = some k) : s ≤ 999 := by
  unfold statusLine statusOf at h
  rw [version_bytes] at h
  split at h
  · rename_i x y a b c t heq
    simp only [cons_append, nil_append, List.cons.injEq, true_and] at heq
    obtain ⟨-, -, heq⟩ := heq
    split_ifs at h with hall
    simp only [all_cons, all_nil, Bool.and_true, Bool.and_eq_true, decide_eq_true_eq] at hall
    obtain ⟨-, -, ha, hb, hc⟩ := hall
    by_cases hneg : s < 0
    · -- A minus sign is not a digit.
      rw [printInt, if_pos hneg, cons_append, List.cons.injEq] at heq
      rw [← heq.1] at ha
      exact absurd ha.1 (by decide)
    · rw [printInt, if_neg hneg] at heq
      have hdigits : decimal s.natAbs = [a, b, c] := by
        have hspace : ∀ d ∈ decimal s.natAbs, (d != 32) := by
          intro d hd
          obtain ⟨hlow, -⟩ := digit_of_mem_decimal hd
          refine bne_iff_ne.2 ?_
          rintro rfl
          exact absurd hlow (by decide)
        have hword := congrArg (takeWhile (· != 32)) heq
        rw [takeWhile_append_of_pos hspace] at hword
        have hne : ∀ {d : UInt8}, 48 ≤ d → (d != 32) := by
          intro d hd
          refine bne_iff_ne.2 ?_
          rintro rfl
          exact absurd hd (by decide)
        simpa [takeWhile_cons, hne ha.1, hne hb.1, hne hc.1] using hword
      have hval := numeral_decimal s.natAbs
      rw [hdigits] at hval
      have hread : numeral [a, b, c] =
          some ((a.toNat - 48) * 100 + (b.toNat - 48) * 10 + (c.toNat - 48)) := by
        rw [numeral, if_pos (by simp [ha, hb, hc])]
        have hchar (d : UInt8) : (Char.ofNat d.toNat).toNat = d.toNat := by
          rw [Char.ofNat, dif_pos (.inl (d.toNat_lt.trans (by norm_num)))]
          rfl
        simp only [Nat.ofDigitChars, map_cons, map_nil, foldl_cons, foldl_nil, hchar,
          Char.reduceToNat]
        congr 1
        omega
      rw [hread, some.injEq] at hval
      have hle : a.toNat ≤ 57 ∧ b.toNat ≤ 57 ∧ c.toNat ≤ 57 :=
        ⟨UInt8.le_iff_toNat_le.1 ha.2, UInt8.le_iff_toNat_le.1 hb.2, UInt8.le_iff_toNat_le.1 hc.2⟩
      omega
  · cases h

lemma statusOf_of_le {s : ℤ} (hlow : 100 ≤ s) (hhigh : s ≤ 999) :
    statusOf (statusLine s) = some s.toNat := by
  have habs : s.natAbs = s.toNat := by omega
  rw [statusLine, printInt, if_neg (by omega), habs]
  exact statusOf_digits (by omega) (by omega) _

lemma feed_notMem_statusLine (s : ℤ) : (10 : UInt8) ∉ statusLine s := by
  have hdecimal : (10 : UInt8) ∉ decimal s.natAbs := fun h =>
    absurd (digit_of_mem_decimal h).1 (by decide)
  have hint : (10 : UInt8) ∉ printInt s := by
    unfold printInt
    split_ifs
    · simp [hdecimal]
    · exact hdecimal
  have hreason : (10 : UInt8) ∉ reasonPhrase s := by
    have hall : ∀ x ∈ reasonPhrases, (10 : UInt8) ∉ x.2 := by decide +kernel
    unfold reasonPhrase
    cases hfind : reasonPhrases.find? (·.1 == s) with
    | none => decide +kernel
    | some x => exact hall x (mem_of_find?_eq_some hfind)
  unfold statusLine
  simp [hint, hreason, version_bytes]

structure OwnLine (body l : Bytes) : Prop where
  line : l ≠ [] ∧ 10 ∉ l ∧ (l.head?).any ResponseReader.isBlank = false
  coding : valueOf (str "transfer-encoding") l = none
  length : ∀ v, valueOf (str "content-length") l = some v → numeral v = some body.length

lemma ownLine_of_none {body l : Bytes}
    (h : l ≠ [] ∧ 10 ∉ l ∧ (l.head?).any ResponseReader.isBlank = false ∧
      valueOf (str "transfer-encoding") l = none ∧ valueOf (str "content-length") l = none) :
    OwnLine body l := by
  obtain ⟨hne, hfeed, hblank, hcoding, hlen⟩ := h
  refine ⟨⟨hne, hfeed, hblank⟩, hcoding, fun v hv => ?_⟩
  rw [hlen] at hv
  cases hv

lemma valueOf_lengthLine (name body : Bytes) : valueOf name (lengthLine body) =
    if str "content-length" = name then some (decimal body.length) else none := by
  have hname : str "Content-Length: " = str "Content-Length" ++ 58 :: [32] := rfl
  have hlower : (str "Content-Length").map lower = str "content-length" := rfl
  have hblank : ∀ c ∈ decimal body.length, ResponseReader.isBlank c = false := by
    intro c hc
    obtain ⟨hlow, -⟩ := digit_of_mem_decimal hc
    unfold ResponseReader.isBlank
    rw [Bool.or_eq_false_iff, beq_eq_false_iff_ne, beq_eq_false_iff_ne]
    constructor <;>
    · rintro rfl
      exact absurd hlow (by decide)
  rw [lengthLine, hname, append_assoc, cons_append, singleton_append,
    valueOf_colon (by decide +kernel), hlower, trim_blank hblank]

lemma ownLine_lengthLine (body : Bytes) : OwnLine body (lengthLine body) := by
  refine ⟨?_, ?_, fun v hv => ?_⟩
  · have hname : str "Content-Length: " = 67 :: str "ontent-Length: " := rfl
    have hfeed : (10 : UInt8) ∉ str "ontent-Length: " := by decide +kernel
    have hdecimal : (10 : UInt8) ∉ decimal body.length := fun h =>
      absurd (digit_of_mem_decimal h).1 (by decide)
    rw [lengthLine, hname]
    simp [hfeed, hdecimal, ResponseReader.isBlank]
  · rw [valueOf_lengthLine, if_neg (by decide +kernel)]
  · rw [valueOf_lengthLine, if_pos rfl, some.injEq] at hv
    rw [← hv, numeral_decimal]

lemma ownLine_connectionLine (body : Bytes) (keepAlive : Bool) :
    OwnLine body (connectionLine keepAlive) := by
  refine ownLine_of_none ?_
  cases keepAlive <;> decide +kernel

structure Parts.Sound (p : Parts) : Prop where
  own : ∀ l ∈ p.own, OwnLine p.body l
  length : lengthLine p.body ∈ p.own ∨ ∃ h ∈ p.given, ieqLit h.1 (str "content-length") = true

lemma sound_response (res : Response) :
    Parts.Sound ⟨res.status, res.headers, res.ownLines, res.body⟩ := by
  refine ⟨fun l hl => ?_, ?_⟩
  · rcases mem_append.1 hl with hl | hl
    · split_ifs at hl
      · cases hl
      · rw [mem_singleton.1 hl]
        exact ownLine_lengthLine _
    · split_ifs at hl
      · cases hl
      · rw [mem_singleton.1 hl]
        exact ownLine_connectionLine _ _
  · by_cases hlen : (res.headers.any fun h => ieqLit h.1 (str "content-length"))
    · exact .inr (any_eq_true.1 hlen)
    · refine .inl (mem_append_left _ ?_)
      rw [if_neg hlen]
      exact mem_singleton_self _

lemma sound_parts (date : Option Bytes) (req : Request) (reply : Reply) :
    (reply.parts date req).Sound := by
  cases reply with
  | unauthorized =>
    refine ⟨?_, .inl (by simp [Reply.parts])⟩
    simp only [Reply.parts, forall_mem_cons, not_mem_nil, false_implies, implies_true, and_true]
    exact ⟨ownLine_of_none (by decide +kernel), ownLine_lengthLine _, ownLine_connectionLine _ _⟩
  | cached =>
    refine ⟨?_, .inl (by simp [Reply.parts])⟩
    simp only [Reply.parts, forall_mem_cons, not_mem_nil, false_implies, implies_true, and_true]
    exact ⟨ownLine_lengthLine _, ownLine_connectionLine _ _⟩
  | handled => exact sound_response _
  | notFound =>
    have hlen : str "Content-Length: 9" = lengthLine (str "Not Found") := rfl
    refine ⟨?_, .inl ?_⟩
    · simp only [Reply.parts, forall_mem_cons, not_mem_nil, false_implies, implies_true, and_true]
      rw [hlen]
      exact ⟨ownLine_lengthLine _, ownLine_of_none (by decide +kernel),
        ownLine_connectionLine _ true⟩
    · dsimp only [Reply.parts]
      rw [hlen]
      exact mem_cons_self

namespace Parts

variable {lf closes head : Bool} {p : Parts} {rest : Bytes}

lemma ended_givenText (p : Parts) : Ended p.givenText := by
  unfold givenText
  induction p.given with
  | nil => exact .inl rfl
  | cons h _ ih =>
    refine Ended.append (.inr ⟨h.1 ++ str ": " ++ h.2, rfl⟩) ih

lemma text_append (p : Parts) (rest : Bytes) : p.text ++ rest =
    statusLine p.status ++ 13 :: 10 ::
      (p.givenText ++ (p.ownText ++ 13 :: 10 :: (p.body ++ rest))) := by
  simp [text, CR, LF]

lemma chars_of_ieqLit {k : Bytes} (hk : ieqLit k (str "content-length")) :
    k.map lower = str "content-length" ∧ k ≠ [] ∧
      ∀ c ∈ k, c ≠ 58 ∧ c ≠ 10 ∧ c ≠ 13 ∧ ResponseReader.isBlank c = false := by
  have hsame : ∀ n < 256, toLower (UInt8.ofNat n) = lower (UInt8.ofNat n) := by decide +kernel
  have hmap : k.map lower = str "content-length" := by
    rw [← beq_iff_eq.1 hk]
    refine map_congr_left fun c _ => ?_
    have hc := hsame c.toNat c.toNat_lt
    rw [UInt8.ofNat_toNat] at hc
    exact hc.symm
  refine ⟨hmap, ?_, fun c hc => ?_⟩
  · rintro rfl
    exact absurd hmap (by decide +kernel)
  · -- None of these characters is in the name, and lower case is the same for them.
    have hin : lower c ∈ str "content-length" := hmap ▸ mem_map_of_mem hc
    have hout : ∀ d ∈ [(58 : UInt8), 10, 13, 32, 9], lower d ∉ str "content-length" := by
      decide +kernel
    have hne : ∀ d ∈ [(58 : UInt8), 10, 13, 32, 9], c ≠ d := by
      rintro d hd rfl
      exact hout c hd hin
    simp only [forall_mem_cons, not_mem_nil, false_implies, implies_true, and_true] at hne
    obtain ⟨hcol, hfeed, hreturn, hspace, htab⟩ := hne
    refine ⟨hcol, hfeed, hreturn, ?_⟩
    simp [ResponseReader.isBlank, hspace, htab]

lemma exists_line (lf : Bool) {h : Bytes × Bytes} (hh : h ∈ p.given)
    (hname : ieqLit h.1 (str "content-length")) :
    ∃ l ∈ linesOf lf p.givenText, ∃ v, l = h.1 ++ 58 :: v := by
  obtain ⟨hs, hs', hgiven⟩ := append_of_mem hh
  obtain ⟨-, -, hchars⟩ := chars_of_ieqLit hname
  have hbef : Ended (hs.flatMap fieldText) := ended_givenText ⟨0, hs, [], []⟩
  have hcol : str ": " = [58, 32] := rfl
  have htext : p.givenText = hs.flatMap fieldText ++
      ((h.1 ++ [58]) ++ (32 :: h.2 ++ 13 :: 10 :: hs'.flatMap fieldText)) := by
    rw [givenText, hgiven]
    simp [fieldText, hcol, CR, LF]
  obtain ⟨l, r, hcut⟩ := exists_cut lf (32 :: h.2) (hs'.flatMap fieldText)
  have hline : cut lf ((h.1 ++ [58]) ++ (32 :: h.2 ++ 13 :: 10 :: hs'.flatMap fieldText)) =
      some ((h.1 ++ [58]) ++ l, r) := by
    rw [cut_skip, hcut]
    · rfl
    · intro c hc
      rcases mem_append.1 hc with hc | hc
      · exact ⟨(hchars c hc).2.1, (hchars c hc).2.2.1⟩
      · rw [mem_singleton.1 hc]
        decide
  refine ⟨(h.1 ++ [58]) ++ l, ?_, l, by simp⟩
  rw [htext, linesOf_append hbef, linesOf_cons hline]
  exact mem_append_right _ mem_cons_self

lemma length_ne_nil (hp : p.Sound) :
    values (str "content-length") (linesOf lf p.givenText ++ p.own) ≠ [] := by
  rcases hp.length with hown | ⟨h, hh, hname⟩
  · rw [values_append fun l hl => (hp.own l hl).line.2.2]
    refine append_ne_nil_of_left_ne_nil (ne_nil_of_mem (a := decimal p.body.length) ?_) _
    refine mem_filterMap.2 ⟨lengthLine p.body, mem_reverse.2 hown, ?_⟩
    rw [valueOf_lengthLine, if_pos rfl]
  · obtain ⟨hlower, hne, hchars⟩ := chars_of_ieqLit hname
    obtain ⟨l, hl, hv⟩ := exists_line lf hh hname
    refine values_ne_nil hlower (fun hc => (hchars _ hc).1 rfl) ?_ hne
      ⟨l, mem_append_left _ hl, hv⟩
    cases hk : h.1 with
    | nil => exact absurd hk hne
    | cons c =>
      rw [hk] at hchars
      exact (hchars c mem_cons_self).2.2.2

lemma values_coding (hp : p.Sound) (ls : List Bytes) :
    values (str "transfer-encoding") (ls ++ p.own) = values (str "transfer-encoding") ls := by
  rw [values_append fun l hl => (hp.own l hl).line.2.2]
  have hnone : p.own.reverse.filterMap (valueOf (str "transfer-encoding")) = [] :=
    filterMap_eq_nil_iff.2 fun l hl => (hp.own l (mem_reverse.1 hl)).coding
  rw [hnone, nil_append]

lemma values_length (hp : p.Sound) (ls : List Bytes) :
    (∀ v ∈ values (str "content-length") (ls ++ p.own), numeral v = some p.body.length) ↔
      ∀ v ∈ values (str "content-length") ls, numeral v = some p.body.length := by
  rw [values_append fun l hl => (hp.own l hl).line.2.2]
  constructor
  · exact fun h v hv => h v (mem_append_right _ hv)
  · intro h v hv
    rcases mem_append.1 hv with hv | hv
    · obtain ⟨l, hl, hval⟩ := mem_filterMap.1 hv
      exact (hp.own l (mem_reverse.1 hl)).length v hval
    · exact h v hv

lemma read_plain (hp : p.Sound) (hlow : 200 ≤ p.status) (hhigh : p.status ≤ 999)
    (hlines : readLines lf p.givenText = none) :
    read lf closes head (p.text ++ rest) = some (p.message head rest) ↔
      p.Plain lf closes (rest = []) head := by
  have hstatus : statusOf (statusLine p.status) = some p.status.toNat :=
    statusOf_of_le (by omega) hhigh
  have hhead : readLines lf (p.givenText ++ (p.ownText ++ 13 :: 10 :: (p.body ++ rest))) =
      some (linesOf lf p.givenText ++ p.own, p.body ++ rest) := by
    rw [readLines_append p.ended_givenText hlines, ownText,
      readLines_written fun l hl => ⟨(hp.own l hl).line.1, (hp.own l hl).line.2.1⟩]
    rfl
  rw [text_append, read_of_head (feed_notMem_statusLine _) hstatus (by omega) hhead, Plain, message]
  by_cases hbody : bodiless head p.status.toNat
  · rw [if_pos hbody, if_pos hbody, if_pos hbody]
    simp
  · rw [if_neg hbody, if_neg hbody, if_neg hbody]
    have hiff := readBody_iff lf closes p.status.toNat (linesOf lf p.givenText ++
      p.own) [] p.body rest
    rw [nil_append, nil_append] at hiff
    rw [hiff, values_coding hp]
    split_ifs with hcoding hlen hchunked
    · exact absurd hlen (length_ne_nil hp)
    · rw [values_length hp]
      simp
    · -- A body is not its own encoding.
      refine iff_of_false (fun h => ?_) (by simp [hchunked])
      have hlt := length_lt_of_readChunks h
      simp at hlt
    · simp [hchunked]

lemma read_smuggled {lines : List Bytes} {x : Bytes} (hlow : 200 ≤ p.status)
    (hhigh : p.status ≤ 999) (hlines : readLines lf p.givenText = some (lines, x)) :
    read lf closes head (p.text ++ rest) = some (p.message head rest)
      ↔ p.Smuggled lf head lines x := by
  have hhead : readLines lf (p.givenText ++ (p.ownText ++ 13 :: 10 :: (p.body ++ rest))) =
      some (lines, (x ++ p.ownText ++ [CR, LF]) ++ (p.body ++ rest)) := by
    obtain ⟨u, hu, -, hloc⟩ := readLines_local hlines
    rw [hu, append_assoc, hloc]
    simp [CR, LF]
  have hleft : x ++ p.ownText ++ [CR, LF] ≠ [] := by simp
  rw [text_append, read_of_head (feed_notMem_statusLine _) (statusOf_of_le (by omega) hhigh)
    (by omega)
    hhead, Smuggled, message]
  by_cases hbody : bodiless head p.status.toNat
  · rw [if_pos hbody, if_pos hbody]
    refine iff_of_false (fun h => ?_) (by simp [hbody])
    simp only [some.injEq, Message.mk.injEq, true_and] at h
    have hlen := congrArg List.length h
    simp at hlen
    omega
  · rw [if_neg hbody, if_neg hbody, readBody_iff]
    split_ifs with hcoding hlen hchunked
    · simp [hcoding]
    · simp [hcoding]
    · simp [hbody, hcoding, hchunked]
    · simp [hchunked]

lemma read_iff_fits (hp : p.Sound) :
    read lf closes head (p.text ++ rest) = some (p.message head rest) ↔
      p.Fits lf closes (rest = []) head := by
  by_cases hstatus : 200 ≤ p.status ∧ p.status ≤ 999
  · unfold Fits
    cases hlines : readLines lf p.givenText with
    | none =>
      rw [read_plain hp hstatus.1 hstatus.2 hlines]
      simp [hstatus]
    | some =>
      rw [read_smuggled hstatus.1 hstatus.2 hlines]
      simp [hstatus]
  · refine iff_of_false (fun h => ?_) fun h => hstatus ⟨h.1, h.2.1⟩
    have hfinal : 200 ≤ p.status.toNat := status_of_readFor h
    rw [text_append] at h
    obtain ⟨k, hk⟩ := statusOf_of_read (feed_notMem_statusLine _) h
    have hle := statusOf_statusLine hk
    omega

end Parts

def textOf (date : Option Bytes) (xs : List (Request × Reply)) : Bytes :=
  xs.flatMap fun x => x.2.bytes date x.1

def Delimited (lf : Bool) (date : Option Bytes) (closes : Bool) : List (Request × Reply) → Prop
  | [] => True
  | x :: xs =>
    read lf closes (x.1.method = .HEAD) (x.2.bytes date x.1 ++ textOf date xs) =
        some ((x.2.parts date x.1).message (x.1.method = .HEAD) (textOf date xs)) ∧
      Delimited lf date closes xs

def AllFit (lf : Bool) (date : Option Bytes) (closes : Bool) : List (Request × Reply) → Prop
  | [] => True
  | x :: xs => (x.2.parts date x.1).Fits lf closes (xs = []) (x.1.method = .HEAD) ∧
      AllFit lf date closes xs

instance Delimited.decidable (lf : Bool) (date : Option Bytes) (closes : Bool) :
    (xs : List (Request × Reply)) → Decidable (Delimited lf date closes xs)
  | [] => .isTrue trivial
  | _ :: xs =>
    have := Delimited.decidable lf date closes xs
    inferInstanceAs (Decidable (_ ∧ _))

instance AllFit.decidable (lf : Bool) (date : Option Bytes) (closes : Bool) :
    (xs : List (Request × Reply)) → Decidable (AllFit lf date closes xs)
  | [] => .isTrue trivial
  | _ :: xs =>
    have := AllFit.decidable lf date closes xs
    inferInstanceAs (Decidable (_ ∧ _))

variable {date : Option Bytes} {xs : List (Request × Reply)}

lemma textOf_eq_nil : textOf date xs = [] ↔ xs = [] := by
  cases xs with
  | nil => simp [textOf]
  | cons x xs =>
    refine iff_of_false (fun h => ?_) (cons_ne_nil x xs)
    have hlen := congrArg List.length h
    simp [textOf, Reply.bytes_eq, Parts.text] at hlen

lemma delimited_iff_allFit {lf closes : Bool} :
    Delimited lf date closes xs ↔ AllFit lf date closes xs := by
  induction xs with
  | nil => exact Iff.rfl
  | cons x xs ih =>
    have hlast : decide (textOf date xs = []) = decide (xs = []) := by
      rw [decide_eq_decide]
      exact textOf_eq_nil
    rw [Delimited, AllFit, ih, Reply.bytes_eq,
      Parts.read_iff_fits (sound_parts date x.1 x.2), hlast]

def exchanges (reply : ℕ → Request → Reply) (requests : List Request) : List (Request × Reply) :=
  requests.zipIdx.map fun q => (q.1, reply q.2 q.1)

lemma out_serve (cfg : Uring.ServerConfig) (env : Uring.Env) (qs : List (Request × ℕ))
    (c : Uring.Conn) :
    (qs.foldl (Uring.Conn.serve cfg env) c).out = c.out ++ qs.flatMap fun q =>
      env.respond q.2 q.1 := by
  induction qs generalizing c with
  | nil => simp
  | cons _ _ ih =>
    rw [foldl_cons, ih, flatMap_cons, ← append_assoc]
    rfl

/-- What `process_input` appends when all that is in the buffer is well-formed is read as one
response for each request, in order and with its status and body, exactly if every response fits. -/
theorem delimited_iff_fits (lf : Bool) (date : Option Bytes) (reply : ℕ → Request → Reply)
    (cfg : Uring.ServerConfig) (env : Uring.Env) (c : Uring.Conn)
    (hwell : (processInput cfg.maxRequestBytes c.inp).stop = .needMore ∨
      (processInput cfg.maxRequestBytes c.inp).stop = .closed) :
    (c.processInput cfg { env with respond := fun i q => (reply i q).bytes date q }).out =
        c.out ++ textOf date (exchanges reply (processInput cfg.maxRequestBytes c.inp).requests) ∧
      (Delimited lf date ((processInput cfg.maxRequestBytes c.inp).stop = .closed)
          (exchanges reply (processInput cfg.maxRequestBytes c.inp).requests) ↔
        AllFit lf date ((processInput cfg.maxRequestBytes c.inp).stop = .closed)
          (exchanges reply (processInput cfg.maxRequestBytes c.inp).requests)) := by
  refine ⟨?_, delimited_iff_allFit⟩
  have hfinish : ∀ d : Uring.Conn,
      (d.finish (processInput cfg.maxRequestBytes c.inp).stop).out = d.out := by
    intro d
    rcases hwell with hstop | hstop <;> rw [hstop] <;> rfl
  dsimp only [Uring.Conn.processInput]
  rw [hfinish]
  dsimp only
  rw [out_serve, textOf, exchanges, flatMap_map]

def plainServer : Uring.ServerConfig := ⟨1048576, 10, 30, 60, 30, false⟩

def twoGets : Uring.Conn := { inp := str "GET / HTTP/1.1\r\n\r\nGET /x HTTP/1.1\r\n\r\n" }

def greeting : Reply := .handled
    { headers := [(str "Content-Type", str "text/plain")], body := str "hi" }

theorem delimited_twoGets :
    (processInput plainServer.maxRequestBytes twoGets.inp).stop = .needMore ∧
      (exchanges (fun _ _ => greeting)
        (processInput plainServer.maxRequestBytes twoGets.inp).requests).length = 2 ∧
      Delimited false none ((processInput plainServer.maxRequestBytes twoGets.inp).stop = .closed)
        (exchanges (fun _ _ => greeting)
          (processInput plainServer.maxRequestBytes twoGets.inp).requests) := by
  have hstop : (processInput plainServer.maxRequestBytes twoGets.inp).stop = .needMore := by
    decide +kernel
  refine ⟨hstop, by decide +kernel, ?_⟩
  exact ((delimited_iff_fits false none (fun _ _ => greeting) plainServer {} twoGets
    (.inl hstop)).2).2 (by decide +kernel)

def headFirst : Uring.Conn := { inp := str "HEAD /x HTTP/1.1\r\n\r\nGET / HTTP/1.1\r\n\r\n" }

def aGet : Request := ⟨.GET, str "/", [], str "HTTP/1.1", [], [], true⟩

theorem not_delimited_headFirst :
    (processInput plainServer.maxRequestBytes headFirst.inp).stop = .needMore ∧
      ¬ Delimited false none ((processInput plainServer.maxRequestBytes headFirst.inp).stop
        = .closed)
        (exchanges (fun i _ => if i = 0 then .notFound else greeting)
          (processInput plainServer.maxRequestBytes headFirst.inp).requests) ∧
      ∀ res ∈ ([{ status := 204, body := str "hi" },
          { headers := [(str "Content-Length", str "1")], body := str "hi" },
          { headers := [(str "X-Name", str "a\r\n\r\nb")] }] : List Response),
        ¬ Delimited false none false [(aGet, .handled res), (aGet, greeting)] := by
  decide +kernel

end SpidoNG.Http
