import SpidoNG.Http.Chunked
import SpidoNG.Http.Framing

/-!
# Accepted requests

What a call of the parser does to its buffer, and which part of it a request shows.
-/

namespace SpidoNG.Http

open Bytes Incremental Incremental.Reader List

variable {hs : List Header} {l : RequestLine} {head rest lines : Bytes}

def Request.texts (req : Request) : List Bytes :=
  req.path :: req.query :: req.version :: req.headers.flatMap fun h => [h.name, h.value]

structure Bounded (data : Bytes) (maxBody : ℕ) (out : Result × Bytes) : Prop where
  returns : out.1 ≠ .outOfBounds
  head : ∀ l hs head rest, RequestHead l hs head → data = head ++ rest → head <+: out.2
  noHead : (∀ l hs head, RequestHead l hs head → ¬ head <+: data) → out.2 = data
  done : ∀ req used, out.1 = .done req used → used ≤ data.length ∧ req.body.length ≤ maxBody ∧
    (∃ head tail, out.2.take used = head ++ (req.body ++ tail) ∧ ∀ t ∈ req.texts, t <:+: head) ∧
    out.2.drop used = data.drop used

lemma HeaderLines.texts_infix (hl : HeaderLines hs lines) :
    ∀ h ∈ hs, h.name <:+: lines ∧ h.value <:+: lines := by
  induction hl with
  | nil => simp
  | @cons h hs line lines hline _ ih =>
    obtain ⟨-, -, -, -, lead, trail, -, -, rfl⟩ := hline
    refine forall_mem_cons.2 ⟨⟨?_, ?_⟩, fun h' hmem => ?_⟩
    · exact ⟨[], colon :: (lead ++ (h.value ++ (trail ++ CR :: LF :: lines))), by simp⟩
    · exact ⟨h.name ++ colon :: lead, trail ++ CR :: LF :: lines, by simp⟩
    · have hlines := (suffix_append
        (h.name ++ colon :: (lead ++ (h.value ++ (trail ++ [CR, LF])))) lines).isInfix
      exact ⟨(ih h' hmem).1.trans hlines, (ih h' hmem).2.trans hlines⟩

variable {maxBody : ℕ}

lemma addHeaders_line {s t : Head} (ha : addHeaders maxBody s hs = .ok t) :
    t.path = s.path ∧ t.query = s.query ∧ t.version = s.version := by
  induction hs generalizing s with
  | nil =>
    cases ha
    simp
  | cons h hs ih =>
    rw [addHeaders] at ha
    cases hadd : addHeader maxBody s h with
    | error => simp [hadd] at ha
    | ok s' =>
      rw [hadd] at ha
      have hstep : s'.path = s.path ∧ s'.query = s.query ∧ s'.version = s.version := by
        unfold addHeader at hadd
        repeat' split at hadd
        all_goals cases hadd
        all_goals simp
      simpa [hstep] using ih ha

lemma RequestHead.texts_infix (hh : RequestHead l hs head) {h : Head}
    (ha : addHeaders maxBody l.start hs = .ok h) (body : Bytes) :
    ∀ t ∈ (h.request body).texts, t <:+: head := by
  obtain ⟨-, lines, hl, rfl⟩ := hh
  have htarget : l.target <:+: l.method ++ SP ::
    (l.target ++ SP :: (l.version ++ CR :: LF :: lines)) :=
    ⟨l.method ++ [SP], SP :: (l.version ++ CR :: LF :: lines), by simp⟩
  have hlines : lines <:+: l.method ++ SP :: (l.target ++ SP :: (l.version ++ CR :: LF :: lines)) :=
    ⟨l.method ++ SP :: (l.target ++ SP :: (l.version ++ [CR, LF])), [], by simp⟩
  obtain ⟨hpath, hquery, hversion⟩ := addHeaders_line ha
  intro t ht
  simp only [Request.texts, Head.request, hpath, hquery, hversion, addHeaders_headers ha,
    RequestLine.start, mem_cons, mem_flatMap, nil_append, not_mem_nil,
    or_false] at ht
  rcases ht with rfl | rfl | rfl | ⟨hd, hmem, rfl | rfl⟩
  · exact ( takeWhile_prefix _).isInfix.trans htarget
  · exact ((tail_suffix _).trans (dropWhile_suffix _)).isInfix.trans htarget
  · exact ⟨l.method ++ SP :: (l.target ++ [SP]), CR :: LF :: lines, by simp⟩
  · exact (hl.texts_infix hd hmem).1.trans hlines
  · exact (hl.texts_infix hd hmem).2.trans hlines

lemma Chunks.length_le {w : ℕ} {body enc : Bytes} (hc : Chunks maxBody w body enc)
    (hw : w ≤ maxBody) (hlen : w + enc.length < 2 ^ 64) : w + body.length ≤ maxBody := by
  induction hc with
  | last => simpa using hw
  | chunk _ _ _ hsum hdata _ ih =>
    simp only [length_append, length_cons, hdata] at hlen ⊢
    rw [wrap_of_lt (by omega)] at hsum
    have := ih hsum (by omega)
    omega

lemma decodeChunks_ne_outOfBounds (hmax : maxBody + 2 < 2 ^ 64) (fuel : ℕ) (c : Cursor) :
    decodeChunks maxBody fuel c ≠ .outOfBounds := by
  induction fuel generalizing c with
  | zero => simp [decodeChunks]
  | succ fuel ih =>
    rw [decodeChunks]
    cases readChunkSize c.rest with
    | more | fail => simp
    | ok size rest =>
      dsimp only
      split_ifs with h1 h2 h3 h4 h5 h6
      · cases readTrailers rest <;> simp
      · simp
      · simp
      · simp
      · rw [wrap_of_lt (by omega)] at h4
        omega
      · exact ih _
      · simp

lemma parseBody_bounds {buf : Bytes} {used : ℕ} {h : Head} {req : Request}
    (hlen : rest.length < 2 ^ 64)
    (hp : parseBody (head ++ rest) maxBody head.length h rest = (.done req used, buf)) :
    req = h.request req.body ∧ used ≤ (head ++ rest).length ∧ req.body.length ≤ maxBody ∧
      (∃ tail, buf.take used = head ++ (req.body ++ tail)) ∧
      buf.drop used = (head ++ rest).drop used := by
  unfold parseBody at hp
  split_ifs at hp with h1 h2 h3 h4 h5
  · cases hp
  · cases hd : decodeChunks maxBody (rest.length + 1) ⟨[], [], rest⟩ with
    | needMore | reject e | outOfBounds => simp [hd] at hp
    | done c =>
      obtain ⟨body, enc, hch, henc, hbody⟩ := decodeChunks_eq_done hd
      obtain rfl : rest = enc ++ c.rest := henc
      have hencl : (enc ++ c.rest).length = enc.length + c.rest.length := length_append
      have hfuel : enc.length < (enc ++ c.rest).length + 1 := by omega
      obtain ⟨c', hd', -, -, hbytes⟩ := decodeChunks_of_chunks (c := ⟨[], [], enc ++ c.rest⟩)
        hch rfl rfl hfuel
      obtain rfl : c = c' := ChunkEnd.done.inj (hd.symm.trans hd')
      have hle := hch.length_le (by simp) (by simp; omega)
      -- what has been read lies in front of the unread bytes, written or stale
      have hread : (enc ++ c.rest).length - c.rest.length = (c.body ++ c.gap).length := by
        simp only [Cursor.bytes, nil_append, length_append] at hbytes ⊢
        omega
      simp only [hd, take_left, hread, Prod.mk.injEq, Result.done.injEq] at hp
      obtain ⟨⟨rfl, rfl⟩, rfl⟩ := hp
      refine ⟨rfl, ?_, ?_, ⟨c.gap, ?_⟩, ?_⟩
      · simp only [length_append] at hread ⊢
        omega
      · simpa [Head.request, hbody] using hle
      · rw [Cursor.bytes, ← append_assoc, ← length_append, take_left]
        rfl
      · rw [Cursor.bytes, ← drop_drop, ← drop_drop, drop_left, drop_left,
          drop_left, ← hread, drop_left' (by simp)]
  · cases hp
  · cases hp
  · cases hp
    refine ⟨rfl, by simp; omega, by simp [Head.request]; omega, ⟨[], ?_⟩, rfl⟩
    rw [take_append, take_of_length_le (by omega)]
    simp [Head.request]
  · cases hp
    exact ⟨rfl, by simp, by simp [Head.request], ⟨[], by simp [Head.request]⟩, rfl⟩

lemma prefix_parseBody {h : Head} :
    head <+: (parseBody (head ++ rest) maxBody head.length h rest).2 := by
  unfold parseBody
  split_ifs
  · exact prefix_append _ _
  · rw [take_left]
    cases decodeChunks maxBody (rest.length + 1) ⟨[], [], rest⟩ <;> exact prefix_append _ _
  all_goals exact prefix_append _ _

lemma parse_bounded {maxBody : UInt64} (hmax : maxBody.toNat + 2 < 2 ^ 64) {data : Bytes}
    (hlen : data.length < 2 ^ 64) : Bounded data maxBody.toNat (parse data maxBody) := by
  unfold parse
  cases hread : readHead maxBody.toNat data with
  | more => exact ⟨by simp, fun _ _ _ _ _ h => ⟨_, h.symm⟩, fun _ => rfl, by simp⟩
  | fail e =>
    refine ⟨?_, fun _ _ _ _ _ h => ⟨_, h.symm⟩, fun _ => rfl, by simp⟩
    cases e <;> simp [Reject.result]
  | ok h rest =>
    obtain ⟨l, hs, head, hhead, rfl, hadd⟩ := readHead_eq_ok hread
    have hsub : (head ++ rest).length - rest.length = head.length := by simp
    rw [length_append] at hlen
    dsimp only
    rw [hsub]
    refine ⟨?_, ?_, fun hno => absurd (prefix_append _ _) (hno l hs head hhead), ?_⟩
    · unfold parseBody
      split_ifs <;> try simp
      have hne := decodeChunks_ne_outOfBounds hmax (rest.length + 1) ⟨[], [], rest⟩
      cases hd : decodeChunks maxBody.toNat (rest.length + 1) ⟨[], [], rest⟩ with
      | reject e => cases e <;> simp [Reject.result]
      | outOfBounds => exact absurd hd hne
      | _ => simp
    · intro l' hs' head' rest' hhead' hdata
      -- the head is read the same way whatever it is cut into
      rw [hdata, readHead_of_requestHead hhead'] at hread
      obtain ⟨-, -, rfl⟩ := headers_of_outcome hread
      obtain rfl := append_cancel_right hdata
      exact prefix_parseBody
    · intro req used hdone
      obtain ⟨hreq, hused, hbody, ⟨tail, htail⟩, hdrop⟩ :=
        parseBody_bounds (by omega) (Prod.ext hdone rfl)
      refine ⟨hused, hbody, ⟨head, tail, htail, ?_⟩, hdrop⟩
      rw [hreq]
      exact hhead.texts_infix hadd _

def hugeChunk : Bytes :=
  str "POST / HTTP/1.1\r\nTransfer-Encoding: chunked\r\n\r\nfffffffffffffffe\r\n"

lemma parse_hugeChunk : (parse hugeChunk 0xffffffffffffffff).1 = .outOfBounds := rfl

theorem not_bounded_hugeChunk :
    ¬ Bounded hugeChunk (2 ^ 64 - 1) (parse hugeChunk 0xffffffffffffffff) := by
  intro h
  exact h.returns parse_hugeChunk

/-- **Bounds of the parser** are kept exactly when the limit of the body size is far enough from the
largest word. -/
theorem bounded_iff (maxBody : UInt64) :
    (∀ data : Bytes, data.length < 2 ^ 64 → Bounded data maxBody.toNat (parse data maxBody)) ↔
      maxBody.toNat + 2 < 2 ^ 64 := by
  constructor
  · intro h
    by_contra hmax
    apply (h hugeChunk (by decide +kernel)).returns
    have hcases : maxBody.toNat = 2 ^ 64 - 1 ∨ maxBody.toNat = 2 ^ 64 - 2 := by
      have := maxBody.toNat_lt
      omega
    rcases hcases with hcase | hcase
    · obtain rfl : maxBody = 0xffffffffffffffff := UInt64.toNat_inj.1 hcase
      exact parse_hugeChunk
    · obtain rfl : maxBody = 0xfffffffffffffffe := UInt64.toNat_inj.1 hcase
      decide +kernel
  · exact fun hmax data hlen => parse_bounded hmax hlen

def isControl (c : UInt8) : Bool := c < 32 || c == 127

structure Grammatical (l : RequestLine) (hs : List Header) : Prop where
  target : l.target ≠ [] ∧ ∀ c ∈ l.target, isControl c = false
  names : ∀ h ∈ hs, h.name ≠ [] ∧ ∀ c ∈ h.name, isToken c = true
  values : ∀ h ∈ hs, LF ∉ h.value ∧ CR ∉ h.value ∧ 0 ∉ h.value

/-- Up to the first line that starts with a carriage return no byte is zero, a line feed stands
behind a carriage return, and no line starts with a colon; the first argument is the byte before. -/
def tidyLines : UInt8 → Bytes → Bool
  | _, [] => true
  | prev, c :: s =>
    if prev = LF ∧ c = CR then true
    else c != 0 && (c != LF || prev == CR) && !(prev == LF && c == colon) && tidyLines c s

def Tidy (data : Bytes) : Prop :=
  (∀ c ∈ data.takeWhile (· != CR), isControl c = false) ∧
    (data.dropWhile (· != SP)).tail.head? ≠ some SP ∧
    tidyLines CR (data.dropWhile (· != CR)).tail = true

lemma tidyLines_line {u : Bytes} {prev : UInt8} (hcr : CR ∉ u) (hprev : prev ≠ CR)
    (hne : prev = LF → u ≠ []) (s : Bytes) : tidyLines prev (u ++ CR :: LF :: s) ↔
      (prev = LF → u.head? ≠ some colon) ∧ 0 ∉ u ∧ LF ∉ u ∧ tidyLines LF s := by
  induction u generalizing prev with
  | nil =>
    have hlf : prev ≠ LF := fun h => hne h rfl
    simp [tidyLines, hlf, show CR ≠ 0 by decide, show CR ≠ LF by decide, show LF ≠ 0 by decide,
      show LF ≠ colon by decide]
  | cons c u ih =>
    obtain ⟨hc, hu⟩ : CR ≠ c ∧ CR ∉ u := by simpa using hcr
    by_cases hlf : c = LF
    · simp [tidyLines, hlf, hprev, show LF ≠ CR by decide]
    · simp [tidyLines, Ne.symm hc, hlf, Ne.symm hlf, @eq_comm _ 0 c,
        ih hu (Ne.symm hc) (fun h => absurd h hlf)]
      tauto

lemma HeaderLine.tidyLines_append {h : Header} {line s : Bytes} (hl : HeaderLine h line) :
    tidyLines LF (line ++ s) ↔ (h.name ≠ [] ∧ LF ∉ h.value ∧ 0 ∉ h.value) ∧ tidyLines LF s := by
  obtain ⟨htok, hcr, -, -, lead, trail, hlead, htrail, rfl⟩ := hl
  -- names and blanks hold none of the bytes that matter
  have hname : ∀ c ∈ h.name, c ≠ CR ∧ c ≠ LF ∧ c ≠ 0 ∧ c ≠ colon := by
    intro c hc
    refine ⟨?_, ?_, ?_, ?_⟩ <;> rintro rfl <;> exact absurd (htok _ hc) (by decide)
  have hblank : ∀ c, isBlank c → c ≠ CR ∧ c ≠ LF ∧ c ≠ 0 := by
    intro c hc
    refine ⟨?_, ?_, ?_⟩ <;> rintro rfl <;> exact absurd hc (by decide)
  have hnot : ∀ {x : UInt8}, x ≠ colon → x ∉ h.name → x ∉ lead → x ∉ trail →
      (x ∉ h.name ++ colon :: (lead ++ (h.value ++ trail)) ↔ x ∉ h.value) := by
    intro x hx h1 h2 h3
    simp [hx, h1, h2, h3]
  have hCR := @hnot CR (by decide) (fun hc => (hname _ hc).1 rfl)
    (fun hc => (hblank _ (hlead _ hc)).1 rfl) (fun hc => (hblank _ (htrail _ hc)).1 rfl)
  have hLF := @hnot LF (by decide) (fun hc => (hname _ hc).2.1 rfl)
    (fun hc => (hblank _ (hlead _ hc)).2.1 rfl) (fun hc => (hblank _ (htrail _ hc)).2.1 rfl)
  have hnul := @hnot 0 (by decide) (fun hc => (hname _ hc).2.2.1 rfl)
    (fun hc => (hblank _ (hlead _ hc)).2.2 rfl) (fun hc => (hblank _ (htrail _ hc)).2.2 rfl)
  have hhead : (h.name ++ colon :: (lead ++ (h.value ++ trail))).head? ≠ some colon ↔
      h.name ≠ [] := by
    cases hn : h.name with
    | nil => simp
    | cons c => simpa using (hname c (by simp [hn])).2.2.2
  have hline := tidyLines_line (hCR.2 hcr) (show LF ≠ CR by decide) (by simp) s
  rw [hLF, hnul, hhead] at hline
  simp only [append_assoc, cons_append, nil_append] at hline ⊢
  rw [hline]
  simp [and_assoc, and_left_comm]

lemma HeaderLines.tidyLines_append (hl : HeaderLines hs lines) :
    tidyLines LF (lines ++ rest) ↔ ∀ h ∈ hs, h.name ≠ [] ∧ LF ∉ h.value ∧ 0 ∉ h.value := by
  induction hl with
  | nil => simp [tidyLines]
  | cons hline _ ih => rw [append_assoc, hline.tidyLines_append, ih, forall_mem_cons]

lemma HeaderLines.lineOf (hl : HeaderLines hs lines) :
    ∀ h ∈ hs, (∀ c ∈ h.name, isToken c) ∧ CR ∉ h.value := by
  induction hl with
  | nil => simp
  | cons hline _ ih => exact forall_mem_cons.2 ⟨⟨hline.token, hline.noCR⟩, ih⟩

/-- **Grammar of accepted heads.** The head of an accepted request is grammatical exactly when
the bytes of the input are tidy up to its first empty line. -/
theorem grammatical_iff (data buf : Bytes) (maxBody : UInt64) (req : Request) (used : ℕ)
    (hp : parse data maxBody = (.done req used, buf)) :
    (∃ l head rest, RequestHead l req.headers head ∧ data = head ++ rest) ∧
      ∀ l hs head rest, RequestHead l hs head → data = head ++ rest →
        (Grammatical l hs ↔ Tidy data) := by
  refine ⟨requestHead_of_done hp, ?_⟩
  rintro l hs head rest ⟨hwell, lines, hlines, rfl⟩ rfl
  -- the method and the version hold neither separators nor control characters
  have hmethod : ∀ m ∈ [str "GET", str "PUT", str "POST", str "HEAD", str "PATCH", str "DELETE",
      str "OPTIONS"], ∀ c ∈ m, c ≠ SP ∧ c ≠ CR ∧ isControl c = false := by decide +kernel
  have hm := hmethod _ (methodFrom_ne_unknown hwell.method)
  have hv : ∀ c ∈ l.version, c ≠ CR ∧ isControl c = false := by
    rcases hwell.version with h | h <;> rw [h] <;> decide +kernel
  have hline : ∀ c ∈ l.method ++ SP :: (l.target ++ SP :: l.version), (c != CR) = true := by
    simp only [mem_append, mem_cons, bne_iff_ne]
    rintro c (hc | rfl | hc | rfl | hc)
    · exact (hm c hc).2.1
    · decide
    · exact ne_of_mem_of_not_mem hc hwell.noCR
    · decide
    · exact (hv c hc).1
  have hsp : (l.method ++ SP :: (l.target ++ SP :: (l.version ++ CR :: LF :: lines)) ++
    rest).dropWhile
      (· != SP) = SP :: (l.target ++ SP :: (l.version ++ CR :: LF :: (lines ++ rest))) := by
    rw [append_assoc, dropWhile_append_of_pos fun c hc => by simpa using (hm c hc).1]
    simp
  have hcr : l.method ++ SP :: (l.target ++ SP :: (l.version ++ CR :: LF :: lines)) ++ rest =
      (l.method ++ SP :: (l.target ++ SP :: l.version)) ++ CR :: LF :: (lines ++ rest) := by simp
  have htarget : (l.target ++ SP :: (l.version ++ CR :: LF :: (lines ++ rest))).head? ≠ some SP ↔
      l.target ≠ [] := by
    cases ht : l.target with
    | nil => simp
    | cons c => simpa using fun h : c = SP => hwell.noSP (by simp [ht, h])
  rw [Tidy, hsp, tail_cons, htarget, hcr, takeWhile_append_of_pos hline,
    dropWhile_append_of_pos hline]
  have hend : tidyLines CR (LF :: (lines ++ rest)) = tidyLines LF (lines ++ rest) := by
    simp [tidyLines, show LF ≠ CR by decide, show LF ≠ 0 by decide, show CR ≠ LF by decide]
  simp only [show (CR != CR) = false from rfl, takeWhile_cons, dropWhile_cons,
    Bool.false_eq_true, if_false, append_nil, tail_cons, hend, hlines.tidyLines_append]
  constructor
  · rintro ⟨⟨hne, ht⟩, hnames, hvalues⟩
    refine ⟨?_, hne, fun h hh => ⟨(hnames h hh).1, (hvalues h hh).1, (hvalues h hh).2.2⟩⟩
    simp only [mem_append, mem_cons]
    rintro c (hc | rfl | hc | rfl | hc)
    · exact (hm c hc).2.2
    · rfl
    · exact ht c hc
    · rfl
    · exact (hv c hc).2
  · rintro ⟨hc, hne, htidy⟩
    have hlineOf := hlines.lineOf
    exact ⟨⟨hne, fun c hmem => hc c (by simp [hmem])⟩,
      fun h hh => ⟨(htidy h hh).1, (hlineOf h hh).1⟩,
      fun h hh => ⟨(htidy h hh).2.1, (hlineOf h hh).2, (htidy h hh).2.2⟩⟩

theorem grammatical_oneLength :
    ∃ req, parse oneLength 8 = (.done req 38, oneLength) ∧ Tidy oneLength ∧
      ∀ l hs head rest, RequestHead l hs head → oneLength = head ++ rest → Grammatical l hs := by
  have ht : Tidy oneLength := by
    unfold Tidy
    decide +kernel
  exact ⟨_, parse_oneLength, ht, fun l hs head rest hh hd =>
    ((grammatical_iff _ _ _ _ _ parse_oneLength).2 l hs head rest hh hd).2 ht⟩

def nameless : Bytes := str "GET  HTTP/1.1\r\n: a\nb\r\n\r\n"

theorem not_grammatical_nameless : ∃ req l head rest, parse nameless 0 = (.done req 24, nameless) ∧
      RequestHead l req.headers head ∧ nameless = head ++ rest ∧ ¬ Grammatical l req.headers := by
  have hp : parse nameless 0 = (.done ⟨.GET, [], [], str "HTTP/1.1", [⟨[], str "a\nb"⟩],
    [], true⟩ 24,
      nameless) := rfl
  obtain ⟨l, head, rest, hhead, hdata⟩ := requestHead_of_done hp
  refine ⟨_, l, head, rest, hp, hhead, hdata, fun hg => ?_⟩
  exact (hg.names ⟨[], str "a\nb"⟩ (by simp)).1 rfl

end SpidoNG.Http
