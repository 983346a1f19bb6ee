import SpidoNG.Http.Parser

/-!
# The syntax of a request head

A grammar of request heads, and the proof that the parser reads exactly these.
-/

namespace SpidoNG.Http

open Bytes Incremental Incremental.Reader List

/-- `line` is the header line of `h`: a name of token characters, a colon, and the value between
blanks that do not belong to it. -/
structure HeaderLine (h : Header) (line : Bytes) : Prop where
  token : ∀ c ∈ h.name, isToken c = true
  noCR : CR ∉ h.value
  head : ∀ c, h.value.head? = some c → isBlank c = false
  last : ∀ c, h.value.getLast? = some c → isBlank c = false
  split : ∃ lead trail : Bytes, (∀ c ∈ lead, isBlank c = true) ∧ (∀ c ∈ trail, isBlank c = true) ∧
    line = h.name ++ colon :: (lead ++ (h.value ++ (trail ++ [CR, LF])))

inductive HeaderLines : List Header → Bytes → Prop
  | nil : HeaderLines [] [CR, LF]
  | cons {h : Header} {hs : List Header} {line lines : Bytes} :
      HeaderLine h line → HeaderLines hs lines → HeaderLines (h :: hs) (line ++ lines)

structure RequestLine where
  method : Bytes
  target : Bytes
  version : Bytes

structure RequestLine.WellFormed (l : RequestLine) : Prop where
  method : methodFrom l.method ≠ .Unknown
  noSP : SP ∉ l.target
  noCR : CR ∉ l.target
  version : l.version = str "HTTP/1.1" ∨ l.version = str "HTTP/1.0"

def RequestHead (l : RequestLine) (hs : List Header) (head : Bytes) : Prop :=
  l.WellFormed ∧ ∃ lines, HeaderLines hs lines ∧
    head = l.method ++ SP :: (l.target ++ SP :: (l.version ++ CR :: LF :: lines))

def RequestLine.start (l : RequestLine) : Head where
  method := methodFrom l.method
  path := (splitTarget l.target).1
  query := (splitTarget l.target).2
  version := l.version
  keepAlive := l.version == str "HTTP/1.1"
  headers := []
  contentLength := 0
  hasCl := false
  hasTeChunked := false

def addHeaders (maxBody : ℕ) : Head → List Header → Except Reject Head
  | s, [] => .ok s
  | s, h :: hs =>
    match addHeader maxBody s h with
    | .error e => .error e
    | .ok s' => addHeaders maxBody s' hs

def outcomeOf (rest : Bytes) : Except Reject Head → Outcome Reject UInt8 Head
  | .error e => .fail e
  | .ok h => .ok h rest

structure Added (maxBody : ℕ) (s : Head) (h : Header) (s' : Head) : Prop where
  headers : s'.headers = s.headers ++ [h]
  chunked : headerKind h.name = .TransferEncoding → ieqLit h.value (str "chunked") = true
  hasTe : s'.hasTeChunked = (s.hasTeChunked || headerKind h.name == .TransferEncoding)
  length : headerKind h.name = .ContentLength → s'.hasCl = true ∧ s'.contentLength ≤ maxBody ∧
    parseContentLength h.value maxBody = some s'.contentLength
  noLength : headerKind h.name ≠ .ContentLength → s'.hasCl = s.hasCl ∧
    s'.contentLength = s.contentLength

variable {v m lead trail : Bytes}

lemma ieqLit_chunked_of_eqLit (h : eqLit v (str "chunked")) : ieqLit v (str "chunked") := by
  obtain rfl : v = str "chunked" := by simpa [eqLit] using h
  decide

variable {h : Header} {maxBody : ℕ} {s : Head} {hs : List Header} {rest xs line : Bytes}

lemma added_of_addHeader {s' : Head}
    (ha : addHeader maxBody s h = .ok s') : Added maxBody s h s' := by
  unfold addHeader at ha
  cases hk : headerKind h.name with
  | ContentLength =>
    rw [hk] at ha
    cases hp : parseContentLength h.value maxBody with
    | none => simp [hp] at ha
    | some =>
      simp only [hp] at ha
      split_ifs at ha with hv
      cases ha
      exact ⟨rfl, by simp [hk], by simp [hk], fun _ => ⟨rfl, by simpa using hv, hp⟩, by simp [hk]⟩
  | Connection =>
    simp only [hk] at ha
    split_ifs at ha <;> cases ha <;>
      exact ⟨rfl, by simp [hk], by simp [hk], by simp [hk], fun _ => ⟨rfl, rfl⟩⟩
  | TransferEncoding =>
    simp only [hk] at ha
    split_ifs at ha with hv
    cases ha
    rw [Bool.or_eq_true] at hv
    exact ⟨rfl, fun _ => hv.elim ieqLit_chunked_of_eqLit id, by simp [hk], by simp [hk],
      fun _ => ⟨rfl, rfl⟩⟩
  | Other =>
    simp only [hk] at ha
    cases ha
    exact ⟨rfl, by simp [hk], by simp [hk], by simp [hk], fun _ => ⟨rfl, rfl⟩⟩

variable {t : Head}

lemma addHeaders_induct {motive : Head → List Header → Head → Prop} (hnil : ∀ s, motive s [] s)
    (hcons : ∀ s h s' hs t, Added maxBody s h s' → motive s' hs t → motive s (h :: hs) t)
    (ha : addHeaders maxBody s hs = .ok t) : motive s hs t := by
  induction hs generalizing s with
  | nil => cases ha; exact hnil _
  | cons h hs ih =>
    rw [addHeaders] at ha
    cases hadd : addHeader maxBody s h with
    | error => rw [hadd] at ha; cases ha
    | ok s' =>
      rw [hadd] at ha
      exact hcons s h s' hs t (added_of_addHeader hadd) (ih ha)

lemma addHeaders_headers (ha : addHeaders maxBody s hs = .ok t) : t.headers = s.headers ++ hs := by
  refine addHeaders_induct (motive := fun s hs t => t.headers = s.headers ++ hs) ?_ ?_ ha
  · intro s
    simp
  · intro s h s' hs t hadd ih
    rw [ih, hadd.headers, append_assoc, singleton_append]

lemma addHeaders_hasTeChunked (ha : addHeaders maxBody s hs = .ok t) :
    t.hasTeChunked = (s.hasTeChunked || hs.any fun h =>
      headerKind h.name == .TransferEncoding) := by
  refine addHeaders_induct (motive := fun s hs t => t.hasTeChunked =
    (s.hasTeChunked || hs.any fun h => headerKind h.name == .TransferEncoding)) ?_ ?_ ha
  · intro s
    simp
  · intro s h s' hs t hadd ih
    rw [ih, hadd.hasTe, any_cons, Bool.or_assoc]

lemma headers_of_outcome {l : RequestLine} {h : Head}
    {rest' : Bytes} (ha : outcomeOf rest (addHeaders maxBody l.start hs) = .ok h rest') :
    h.headers = hs ∧ addHeaders maxBody l.start hs = .ok h ∧ rest = rest' := by
  cases hadd : addHeaders maxBody l.start hs with
  | error => rw [hadd] at ha; cases ha
  | ok =>
    rw [hadd] at ha
    cases ha
    exact ⟨addHeaders_headers hadd, rfl, rfl⟩

lemma methodFrom_ne_unknown (h : methodFrom m ≠ .Unknown) :
    m ∈ [str "GET", str "PUT", str "POST", str "HEAD", str "PATCH", str "DELETE",
      str "OPTIONS"] := by
  contrapose! h
  simp only [mem_cons, not_mem_nil, or_false, not_or] at h
  simp [methodFrom, h]

lemma isToken_of_method (h : methodFrom m ≠ .Unknown) :
    ∀ c ∈ m, (c == SP) = false ∧ (!isToken c) = false := by
  have hall : ∀ m ∈ [str "GET", str "PUT", str "POST", str "HEAD", str "PATCH", str "DELETE",
      str "OPTIONS"], ∀ c ∈ m, (c == SP) = false ∧ (!isToken c) = false := by decide +kernel
  exact hall m (methodFrom_ne_unknown h)

lemma readMethod_append (h : methodFrom m ≠ .Unknown) :
    readMethod (m ++ SP :: rest) = .ok (methodFrom m) rest := by
  have hscan : scanTo (· == SP) (fun c => !isToken c) Reject.badRequest (m ++ SP :: rest) =
      .ok m (SP :: rest) := scanTo_append (by decide) (isToken_of_method h)
  unfold readMethod
  rw [bind_of_ok hscan, if_neg h]
  rfl

lemma readMethod_eq_ok {m : Method} (h : readMethod xs = .ok m rest) :
    ∃ t, m = methodFrom t ∧ methodFrom t ≠ .Unknown ∧ xs = t ++ SP :: rest := by
  obtain ⟨t, mid, hscan, h'⟩ := bind_eq_ok h
  obtain ⟨rfl, -, x, tl, rfl, hx⟩ := scanTo_eq_ok hscan
  obtain rfl : x = SP := by simpa using hx
  split_ifs at h' with hm
  · cases h'
  · cases h'
    exact ⟨t, rfl, hm, rfl⟩

lemma readTarget_append {t : Bytes} (hs : SP ∉ t) (hc : CR ∉ t) :
    readTarget (t ++ SP :: rest) = .ok t rest := by
  have hscan : scanTo (· == SP) (· == CR) Reject.badRequest (t ++ SP :: rest) =
      .ok t (SP :: rest) := by
    refine scanTo_append (by decide) fun c hc' => ⟨?_, ?_⟩
    · simpa using ne_of_mem_of_not_mem hc' hs
    · simpa using ne_of_mem_of_not_mem hc' hc
  unfold readTarget
  rw [bind_of_ok hscan]
  rfl

lemma readTarget_eq_ok {t : Bytes} (h : readTarget xs = .ok t rest) :
    SP ∉ t ∧ CR ∉ t ∧ xs = t ++ SP :: rest := by
  obtain ⟨t', mid, hscan, h'⟩ := bind_eq_ok h
  obtain ⟨rfl, hgood, x, tl, rfl, hx⟩ := scanTo_eq_ok hscan
  obtain rfl : x = SP := by simpa using hx
  cases h'
  refine ⟨fun hmem => ?_, fun hmem => ?_, rfl⟩
  · simpa using (hgood SP hmem).1
  · simpa using (hgood CR hmem).2

lemma readVersion_append (hv : v = str "HTTP/1.1" ∨ v = str "HTTP/1.0") :
    readVersion (v ++ CR :: LF :: rest) = .ok v rest := by
  have hlen : v.length = 8 := by rcases hv with rfl | rfl <;> rfl
  have htake : (v ++ CR :: LF :: rest).take 8 = v := by rw [← hlen, take_left]
  have hdrop : (v ++ CR :: LF :: rest).drop 8 = CR :: LF :: rest := by rw [← hlen, drop_left]
  have hdrop' : (v ++ CR :: LF :: rest).drop 10 = rest := by
    rw [show 10 = 8 + 2 from rfl, ← drop_drop, hdrop]
    rfl
  unfold readVersion
  rw [htake, hdrop, hdrop', if_neg (by simp [hlen]), if_neg (fun h => hv.elim h.1 h.2),
    if_neg (by simp [hlen]; omega), if_neg (by simp)]

lemma readVersion_eq_ok (h : readVersion xs = .ok v rest) :
    xs = v ++ CR :: LF :: rest ∧ (v = str "HTTP/1.1" ∨ v = str "HTTP/1.0") := by
  unfold readVersion at h
  split_ifs at h with h1 h2 h3 h4 h5 h6
  cases h
  refine ⟨?_, (not_and_or.1 h3).imp not_not.1 not_not.1⟩
  have h7 : xs.drop 8 = CR :: LF :: xs.drop 10 := by
    have := take_append_drop 2 (xs.drop 8)
    rw [not_not.1 h6, drop_drop] at this
    exact this.symm
  rw [← h7, take_append_drop]

lemma readLF_eq_ok {u : Unit} (h : readLF xs = .ok u rest) : xs = LF :: rest := by
  obtain ⟨c, mid, h1, h2⟩ := bind_eq_ok h
  split_ifs at h2 with hc
  · cases xs <;> cases h1
    cases h2
    rw [hc]
  · cases h2

lemma readValue_eq_ok (h : readValue xs = .ok v rest) :
    ∃ w, scanTo (· == CR) (fun _ => false) Reject.badRequest (xs.dropWhile isBlank) = .ok w rest ∧
      v = w.rdropWhile isBlank := by
  unfold readValue at h
  split at h
  · cases h
  · cases h
  · next w rest' hs => cases h; exact ⟨w, hs, rfl⟩

lemma dropWhile_append_of_all {p : UInt8 → Bool} (h : ∀ c ∈ lead, p c) :
    (lead ++ xs).dropWhile p = xs.dropWhile p := by
  induction lead with
  | nil => rfl
  | cons c _ ih =>
    rw [cons_append, dropWhile_cons_of_pos (h c (by simp))]
    exact ih fun d hd => h d (by simp [hd])

lemma rdropWhile_append_of_all {p : UInt8 → Bool}
    (h : ∀ c ∈ trail, p c) : (v ++ trail).rdropWhile p = v.rdropWhile p := by
  unfold rdropWhile
  rw [reverse_append, dropWhile_append_of_all (by simpa using h)]

lemma readValue_append (hlead : ∀ c ∈ lead, isBlank c)
    (htrail : ∀ c ∈ trail, isBlank c) (hcr : CR ∉ v)
    (hhead : ∀ c, v.head? = some c → isBlank c = false)
    (hlast : ∀ c, v.getLast? = some c → isBlank c = false) :
    readValue (lead ++ (v ++ (trail ++ CR :: rest))) = .ok v (CR :: rest) := by
  have htrailCR : CR ∉ trail := fun hmem => absurd (htrail CR hmem) (by decide)
  have hv : v.rdropWhile isBlank = v := by
    rw [rdropWhile_eq_self_iff]
    intro hne
    simpa using hlast _ (getLast?_eq_some_getLast hne)
  -- what is left after the leading blanks still ends in the value and blanks to be trimmed
  obtain ⟨w, hdrop, hw, hnoCR⟩ : ∃ w, (lead ++ (v ++ (trail ++ CR :: rest))).dropWhile isBlank =
      w ++ CR :: rest ∧ w.rdropWhile isBlank = v ∧ CR ∉ w := by
    rw [dropWhile_append_of_all hlead]
    cases v with
    | nil =>
      refine ⟨[], ?_, rfl, by simp⟩
      rw [nil_append, dropWhile_append_of_all htrail, dropWhile_cons_of_neg (by decide), nil_append]
    | cons c v =>
      refine ⟨c :: v ++ trail, ?_, ?_, ?_⟩
      · rw [cons_append, dropWhile_cons_of_neg (by simp [hhead c rfl])]
        simp
      · rw [rdropWhile_append_of_all htrail, hv]
      · rw [mem_append]
        exact fun h => h.elim hcr htrailCR
  have hscan : scanTo (· == CR) (fun _ => false) Reject.badRequest (w ++ CR :: rest) =
      .ok w (CR :: rest) := by
    refine scanTo_append (by decide) fun c hc => ⟨?_, rfl⟩
    simpa using ne_of_mem_of_not_mem hc hnoCR
  unfold readValue
  rw [hdrop, hscan, ← hw]

lemma readHeaderLine_append (hl : HeaderLine h line) (rest : Bytes) :
    readHeaderLine (line ++ rest) = .ok h rest := by
  obtain ⟨htok, hcr, hhead, hlast, lead, trail, hlead, htrail, rfl⟩ := hl
  have hscan : scanTo (· == colon) (fun c => !isToken c) Reject.badRequest
      (h.name ++ colon :: (lead ++ (h.value ++ (trail ++ CR :: LF :: rest)))) =
      .ok h.name (colon :: (lead ++ (h.value ++ (trail ++ CR :: LF :: rest)))) := by
    refine scanTo_append (by decide) fun c hc => ⟨?_, by simp [htok c hc]⟩
    have hne : c ≠ colon := fun heq => absurd (heq ▸ htok c hc) (by decide)
    simpa using hne
  have hval := @readValue_append _ _ _ (LF :: rest) hlead htrail hcr hhead hlast
  have happ : h.name ++ colon :: (lead ++ (h.value ++ (trail ++ [CR, LF]))) ++ rest =
      h.name ++ colon :: (lead ++ (h.value ++ (trail ++ CR :: LF :: rest))) := by simp
  unfold readHeaderLine
  rw [happ, bind_of_ok hscan, bind_of_ok (r := symbol) rfl, bind_of_ok hval]
  rfl

lemma readHeaderLine_eq_ok (hr : readHeaderLine xs = .ok h rest) :
    ∃ line, HeaderLine h line ∧ xs = line ++ rest := by
  obtain ⟨name, mid1, h1, hr1⟩ := bind_eq_ok hr
  obtain ⟨rfl, hname, x, tl, rfl, hx⟩ := scanTo_eq_ok h1
  obtain ⟨_, mid2, h2, hr2⟩ := bind_eq_ok hr1
  cases h2
  obtain ⟨value, mid3, h3, hr3⟩ := bind_eq_ok hr2
  obtain ⟨w, hw, rfl⟩ := readValue_eq_ok h3
  obtain ⟨hdrop, hnoCR, y, tl', rfl, hy⟩ := scanTo_eq_ok hw
  obtain ⟨_, mid4, h4, hr4⟩ := bind_eq_ok hr3
  cases h4
  obtain ⟨_, mid5, h5, hr5⟩ := bind_eq_ok hr4
  obtain rfl := readLF_eq_ok h5
  cases hr5
  obtain rfl : x = colon := by simpa using hx
  obtain rfl : y = CR := by simpa using hy
  have hpre : w.rdropWhile isBlank ++ w.rtakeWhile isBlank = w :=
    rdropWhile_append_rtakeWhile
  have hline : tl = tl.takeWhile isBlank ++ (w.rdropWhile isBlank ++
      (w.rtakeWhile isBlank ++ [CR, LF])) ++ rest := by
    have hcat : tl.takeWhile isBlank ++ tl.dropWhile isBlank = tl := takeWhile_append_dropWhile
    rw [hdrop] at hcat
    conv_lhs => rw [← hcat, ← hpre]
    simp only [append_assoc, cons_append, nil_append]
  refine ⟨name ++ colon :: (tl.takeWhile isBlank ++ (w.rdropWhile isBlank ++
      (w.rtakeWhile isBlank ++ [CR, LF]))), ⟨?_, ?_, ?_, ?_, ?_⟩, ?_⟩
  · intro c hc
    simpa using (hname c hc).2
  · intro hmem
    have := (hnoCR CR (( rdropWhile_prefix isBlank w).subset hmem)).1
    simp at this
  · intro c hc
    -- the first byte behind the blanks is not a blank
    have hhead : (tl.dropWhile isBlank).head? = some c := by
      have : w.head? = some c := by
        rw [← hpre, head?_append, hc]
        rfl
      rw [hdrop, head?_append, this]
      rfl
    have := head?_dropWhile_not isBlank tl
    rw [hhead] at this
    simpa using this
  · intro c hc
    have hne : w.rdropWhile isBlank ≠ [] := by
      intro h0
      rw [h0] at hc
      cases hc
    have := rdropWhile_last_not isBlank w hne
    rw [getLast?_eq_some_getLast hne] at hc
    cases hc
    simpa using this
  · refine ⟨tl.takeWhile isBlank, w.rtakeWhile isBlank, fun c hc => mem_takeWhile_imp hc,
      fun c hc => mem_rtakeWhile_imp hc, rfl⟩
  · conv_lhs => rw [hline]
    simp

lemma progress_readLF : readLF.Progress :=
  progress_symbol.bind fun c => by
    split_ifs
    · exact shrinks_pure _
    · exact shrinks_reject _

lemma progress_readHeaderLine : readHeaderLine.Progress where
  shrinks := by
    intro xs rest h hr
    obtain ⟨line, -, rfl⟩ := readHeaderLine_eq_ok hr
    exact suffix_append _ _
  length_lt := by
    intro xs rest h hr
    obtain ⟨line, ⟨-, -, -, -, lead, trail, -, -, rfl⟩, rfl⟩ := readHeaderLine_eq_ok hr
    simp
    omega

lemma progress_headerStep (maxBody : ℕ) (s : Head) : (headerStep maxBody s).Progress :=
  Shrinks.bind_progress shrinks_peek fun c => by
    split_ifs
    · exact progress_symbol.bind fun _ => Shrinks.bind progress_readLF.shrinks fun _ =>
        shrinks_pure _
    · refine progress_readHeaderLine.bind fun h => ?_
      cases addHeader maxBody s h with
      | error e => exact shrinks_reject e
      | ok => exact shrinks_pure _

lemma HeaderLine.ne_CR (hl : HeaderLine h line) : ∃ c tl, line = c :: tl ∧ c ≠ CR := by
  obtain ⟨htok, -, -, -, lead, trail, -, -, rfl⟩ := hl
  cases hn : h.name with
  | nil => exact ⟨colon, _, rfl, by decide⟩
  | cons c =>
    refine ⟨c, _, rfl, fun heq => ?_⟩
    have := htok c (by simp [hn])
    rw [heq] at this
    exact absurd this (by decide)

lemma headerStep_line (hl : HeaderLine h line) (rest : Bytes) :
    headerStep maxBody s (line ++ rest) =
      match addHeader maxBody s h with
      | .error e => .fail e
      | .ok s' => .ok (.inl s') rest := by
  obtain ⟨c, tl, hline, hc⟩ := hl.ne_CR
  have hpeek : (peek : Reader Reject UInt8 UInt8) (line ++ rest) = .ok c (line ++ rest) := by
    rw [hline]
    rfl
  unfold headerStep
  rw [bind_of_ok hpeek, if_neg hc, bind_of_ok (readHeaderLine_append hl rest)]
  cases addHeader maxBody s h <;> rfl

lemma headerStep_eq_ok {r : Head ⊕ Head} (h : headerStep maxBody s xs = .ok r rest) :
    (r = .inr s ∧ xs = CR :: LF :: rest) ∨
      ∃ hd line s', r = .inl s' ∧ HeaderLine hd line ∧ xs = line ++ rest ∧
        addHeader maxBody s hd = .ok s' := by
  obtain ⟨c, mid, h1, h2⟩ := bind_eq_ok h
  cases xs <;> cases h1
  split_ifs at h2 with hc
  · obtain ⟨_, mid2, h3, h4⟩ := bind_eq_ok h2
    cases h3
    obtain ⟨_, mid3, h5, h6⟩ := bind_eq_ok h4
    obtain rfl := readLF_eq_ok h5
    cases h6
    exact .inl ⟨rfl, by rw [hc]⟩
  · obtain ⟨hd, mid2, h3, h4⟩ := bind_eq_ok h2
    obtain ⟨line, hl, hx⟩ := readHeaderLine_eq_ok h3
    cases ha : addHeader maxBody s hd with
    | error => rw [ha] at h4; cases h4
    | ok s' =>
      rw [ha] at h4
      cases h4
      exact .inr ⟨hd, line, s', rfl, hl, hx, ha⟩

lemma readHeaders_append {lines : Bytes} (hl : HeaderLines hs lines) (s : Head) (rest : Bytes) :
    iterate (headerStep maxBody) s (lines ++ rest) = outcomeOf rest (addHeaders maxBody s hs) := by
  induction hl generalizing s with
  | nil =>
    rw [iterate_eq (progress_headerStep maxBody)]
    rfl
  | @cons h _ _ _ hl _ ih =>
    rw [iterate_eq (progress_headerStep maxBody), append_assoc, headerStep_line hl, addHeaders]
    cases addHeader maxBody s h with
    | error => rfl
    | ok s' => exact ih s'

lemma readHeaders_eq_ok {h : Head} (hr : iterate (headerStep maxBody) s xs = .ok h rest) :
    ∃ hs lines, HeaderLines hs lines ∧ xs = lines ++ rest ∧ addHeaders maxBody s hs = .ok h := by
  refine iterate_induct (progress_headerStep maxBody)
    (motive := fun s xs h rest => ∃ hs lines, HeaderLines hs lines ∧ xs = lines ++ rest ∧
      addHeaders maxBody s hs = .ok h) ?_ ?_ hr
  · intro s xs a rest hb
    obtain ⟨hra, hx⟩ | ⟨_, _, _, hra, _⟩ := headerStep_eq_ok hb
    · cases hra
      exact ⟨[], _, .nil, hx, rfl⟩
    · cases hra
  · rintro s xs s' mid a rest hb ⟨hs, lines, hl, rfl, ha⟩
    obtain ⟨hra, -⟩ | ⟨hd, line, s'', hra, hline, hx, hadd⟩ := headerStep_eq_ok hb
    · cases hra
    · cases hra
      refine ⟨hd :: hs, _, .cons hline hl, by rw [hx, append_assoc], ?_⟩
      rw [addHeaders, hadd]
      exact ha

lemma readHead_of_requestHead {l : RequestLine} {head : Bytes}
    (h : RequestHead l hs head) (rest : Bytes) :
    readHead maxBody (head ++ rest) = outcomeOf rest (addHeaders maxBody l.start hs) := by
  obtain ⟨hl, lines, hlines, rfl⟩ := h
  have happ : l.method ++ SP :: (l.target ++ SP :: (l.version ++ CR :: LF :: lines)) ++ rest =
      l.method ++ SP :: (l.target ++ SP :: (l.version ++ CR :: LF :: (lines ++ rest))) := by simp
  unfold readHead
  rw [happ, bind_of_ok (readMethod_append hl.method),
    bind_of_ok (readTarget_append hl.noSP hl.noCR),
    bind_of_ok (readVersion_append hl.version)]
  exact readHeaders_append hlines _ rest

lemma readHead_eq_ok {h : Head} (hr : readHead maxBody xs = .ok h rest) :
    ∃ l hs head, RequestHead l hs head ∧ xs = head ++ rest ∧
      addHeaders maxBody l.start hs = .ok h := by
  obtain ⟨m, mid1, h1, hr1⟩ := bind_eq_ok hr
  obtain ⟨method, rfl, hm, rfl⟩ := readMethod_eq_ok h1
  obtain ⟨target, mid2, h2, hr2⟩ := bind_eq_ok hr1
  obtain ⟨hsp, hcr, rfl⟩ := readTarget_eq_ok h2
  obtain ⟨version, mid3, h3, hr3⟩ := bind_eq_ok hr2
  obtain ⟨rfl, hv⟩ := readVersion_eq_ok h3
  obtain ⟨hs, lines, hlines, rfl, hadd⟩ := readHeaders_eq_ok hr3
  exact ⟨⟨method, target, version⟩, hs, _, ⟨⟨hm, hsp, hcr, hv⟩, lines, hlines, rfl⟩, by simp, hadd⟩

lemma progress_readHead (maxBody : ℕ) : (readHead maxBody).Progress where
  shrinks := by
    intro xs rest h hr
    obtain ⟨l, hs, head, -, rfl, -⟩ := readHead_eq_ok hr
    exact suffix_append _ _
  length_lt := by
    intro xs rest h hr
    obtain ⟨l, hs, head, ⟨-, lines, -, rfl⟩, rfl, -⟩ := readHead_eq_ok hr
    simp
    omega

end SpidoNG.Http
