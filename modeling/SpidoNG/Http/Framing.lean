import SpidoNG.Http.Head

/-!
# Message framing

How far an accepted request reaches, and whether its head says so without ambiguity.
-/

namespace SpidoNG.Http

open Bytes Incremental Incremental.Reader List

def numberFrom (n : ℕ) (v : Bytes) : ℕ := v.foldl (fun n c => n * 10 + (c.toNat - 48)) n

def number (v : Bytes) : ℕ := numberFrom 0 (v.takeWhile isDigit)

lemma le_numberFrom (n : ℕ) (v : Bytes) : n ≤ numberFrom n v := by
  induction v generalizing n with
  | nil => exact le_rfl
  | cons c v ih =>
    calc n ≤ n * 10 + (c.toNat - 48) := by omega
      _ ≤ numberFrom n (c :: v) := ih _

lemma not_isDigit {c : UInt8} (h : (c < 48 || 57 < c) = false) : isDigit c := by
  simp only [isDigit, Bool.or_eq_false_iff, decide_eq_false_iff_not, UInt8.not_lt, Bool.and_eq_true,
    decide_eq_true_eq] at h ⊢
  exact h

lemma parseContentLengthFrom_spec {maxBody n v : ℕ} {value : Bytes} (hmax : maxBody ≤ sizeMax)
    (h : parseContentLengthFrom maxBody n value = some v) (hv : v ≤ maxBody) :
    ((∀ c ∈ value, isDigit c) ∧ numberFrom n value = v) ∨
      (maxBody = sizeMax ∧ v = 0 ∧ sizeMax < numberFrom n (value.takeWhile isDigit)) := by
  induction value generalizing n with
  | nil =>
    cases h
    exact .inl ⟨by simp, rfl⟩
  | cons c _ ih =>
    rw [parseContentLengthFrom] at h
    dsimp only at h
    split_ifs at h with h1 h2 h3
    · -- the next digit overflows: everything behind it is left unread
      have hdig := not_isDigit (by simpa using h1)
      have hover : sizeMax < n * 10 + (c.toNat - 48) := by
        have := c.toNat_lt
        simp only [sizeMax] at h2 ⊢
        omega
      have hwrap : v = wrap (maxBody + 1) := (Option.some.inj h).symm
      obtain rfl : maxBody = sizeMax := by
        by_contra hne
        rw [hwrap, wrap_of_lt (by simp only [sizeMax] at hmax hne; omega)] at hv
        omega
      refine .inr ⟨rfl, by rw [hwrap]; decide, ?_⟩
      rw [takeWhile_cons_of_pos hdig]
      exact hover.trans_le (le_numberFrom _ _)
    · cases h
      omega
    · have hdig := not_isDigit (by simpa using h1)
      obtain ⟨hall, hnum⟩ | ⟨hm, hz, hbig⟩ := ih h
      · exact .inl ⟨forall_mem_cons.2 ⟨hdig, hall⟩, hnum⟩
      · refine .inr ⟨hm, hz, ?_⟩
        rw [takeWhile_cons_of_pos hdig]
        exact hbig

lemma number_of_digits {v : Bytes} (h : ∀ c ∈ v, isDigit c) : number v = numberFrom 0 v := by
  rw [number, takeWhile_eq_self_iff.2 h]

def contentLengths (hs : List Header) : List Bytes :=
  (hs.filter fun h => headerKind h.name == .ContentLength).map (·.value)

def Chunked (hs : List Header) : Prop :=
  ∃ h ∈ hs, headerKind h.name = .TransferEncoding ∧ ieqLit h.value (str "chunked") = true

def Framed (hs : List Header) (headLen used : ℕ) : Prop :=
  (Chunked hs ∧ contentLengths hs = []) ∨
    ∃ len, (∀ v ∈ contentLengths hs, v ≠ [] ∧ (∀ c ∈ v, isDigit c = true) ∧ number v = len) ∧
      (contentLengths hs = [] → len = 0) ∧ used = headLen + len

/-- No Content-Length value is empty, no two denote different numbers, and, where the body size is
not limited below the largest word, none denotes a number that does not fit a word. -/
def UnambiguousLengths (maxBody : UInt64) (hs : List Header) : Prop :=
  (∀ v ∈ contentLengths hs, v ≠ []) ∧
    (∀ v ∈ contentLengths hs, ∀ w ∈ contentLengths hs, number v = number w) ∧
    (maxBody.toNat = sizeMax → ∀ v ∈ contentLengths hs, number v ≤ sizeMax)

variable {hs : List Header} {req : Request} {maxBody : UInt64}

lemma contentLengths_cons_of_pos {h : Header} (hk : headerKind h.name = .ContentLength) :
    contentLengths (h :: hs) = h.value :: contentLengths hs := by
  simp [contentLengths, hk]

lemma contentLengths_cons_of_neg {h : Header}
    (hk : headerKind h.name ≠ .ContentLength) : contentLengths (h :: hs) = contentLengths hs := by
  simp [contentLengths, hk]

/-- The head `t` is `s` with what the lengths in `hs` say. -/
def TakesLengths (maxBody : ℕ) (s : Head) (hs : List Header) (t : Head) : Prop :=
  (∀ v ∈ contentLengths hs, ∃ n ≤ maxBody, parseContentLength v maxBody = some n) ∧
    (contentLengths hs = [] → t.hasCl = s.hasCl ∧ t.contentLength = s.contentLength) ∧
    (contentLengths hs ≠ [] → t.hasCl ∧ t.contentLength ≤ maxBody ∧
      ∃ v ∈ contentLengths hs, parseContentLength v maxBody = some t.contentLength)

lemma addHeaders_lengths {maxBody : ℕ} {s t : Head} (ha : addHeaders maxBody s hs = .ok t) :
    TakesLengths maxBody s hs t := by
  refine addHeaders_induct (motive := TakesLengths maxBody) ?_ ?_ ha
  · intro s
    simp [TakesLengths, contentLengths]
  · rintro s h s' hs t hadd ⟨ih1, ih2, ih3⟩
    unfold TakesLengths
    by_cases hk : headerKind h.name = .ContentLength
    · obtain ⟨hcl, hle, hparse⟩ := hadd.length hk
      rw [contentLengths_cons_of_pos hk]
      refine ⟨?_, by simp, fun _ => ?_⟩
      · intro v hv
        rcases mem_cons.1 hv with rfl | hv
        · exact ⟨_, hle, hparse⟩
        · exact ih1 v hv
      · by_cases hrest : contentLengths hs = []
        · obtain ⟨h1, h2⟩ := ih2 hrest
          rw [h1, h2]
          exact ⟨hcl, hle, h.value, by simp, hparse⟩
        · obtain ⟨h1, h2, v, hv, hp⟩ := ih3 hrest
          exact ⟨h1, h2, v, by simp [hv], hp⟩
    · obtain ⟨h1, h2⟩ := hadd.noLength hk
      rw [contentLengths_cons_of_neg hk]
      exact ⟨ih1, fun h => h1 ▸ h2 ▸ ih2 h, ih3⟩

lemma chunked_of_hasTeChunked {maxBody : ℕ} {s t : Head}
    (ha : addHeaders maxBody s hs = .ok t) (hs0 : s.hasTeChunked = false)
    (hte : t.hasTeChunked) : Chunked hs := by
  have hall : ∀ h ∈ hs, headerKind h.name = .TransferEncoding →
      ieqLit h.value (str "chunked") := by
    refine addHeaders_induct (motive := fun _ hs _ => ∀ h ∈ hs,
      headerKind h.name = .TransferEncoding → ieqLit h.value (str "chunked")) ?_ ?_ ha
    · simp
    · intro s h s' hs t hadd ih
      exact forall_mem_cons.2 ⟨hadd.chunked, ih⟩
  rw [addHeaders_hasTeChunked ha, hs0, Bool.false_or, any_eq_true] at hte
  obtain ⟨h, hmem, hk⟩ := hte
  have hk' : headerKind h.name = .TransferEncoding := by simpa using hk
  exact ⟨h, hmem, hk', hall h hmem hk'⟩

variable {data buf : Bytes} {headLen used : ℕ}

lemma parseBody_done {rest : Bytes} {maxBody : ℕ} {h : Head}
    (hp : parseBody data maxBody headLen h rest = (.done req used, buf)) :
    req.headers = h.headers ∧ (h.hasTeChunked → h.hasCl = false) ∧
      (h.hasTeChunked = false → h.hasCl → used = headLen + h.contentLength) ∧
      (h.hasTeChunked = false → h.hasCl = false → used = headLen) := by
  unfold parseBody at hp
  cases hte : h.hasTeChunked <;> cases hcl : h.hasCl <;> simp only [hte, hcl] at hp
  · cases hp
    simp [Head.request]
  · simp only [Bool.false_and, Bool.false_eq_true, if_false, if_true] at hp
    split_ifs at hp <;> cases hp
    simp [Head.request]
  · simp only [Bool.and_false, Bool.false_eq_true, if_false, if_true] at hp
    split at hp
    · cases hp
    · simp at hp
    · cases hp
      simp [Head.request]
    · cases hp
  · cases hp

lemma parse_done (hp : parse data maxBody = (.done req used, buf)) :
    ∃ h rest, readHead maxBody.toNat data = .ok h rest ∧
      parseBody data maxBody.toNat (data.length - rest.length) h rest = (.done req used, buf) := by
  unfold parse at hp
  cases hh : readHead maxBody.toNat data with
  | more => rw [hh] at hp; cases hp
  | fail => rw [hh] at hp; simp at hp
  | ok h rest => rw [hh] at hp; exact ⟨h, rest, rfl, hp⟩

lemma requestHead_of_done (hp : parse data maxBody = (.done req used, buf)) :
    ∃ l head rest, RequestHead l req.headers head ∧ data = head ++ rest := by
  obtain ⟨h, rest, hread, hbody⟩ := parse_done hp
  obtain ⟨l, hs, head, hhead, hdata, hadd⟩ := readHead_eq_ok hread
  have hheaders : h.headers = hs := addHeaders_headers hadd
  refine ⟨l, head, rest, ?_, hdata⟩
  rw [(parseBody_done hbody).1, hheaders]
  exact hhead

lemma framed_iff_of_lengths {len : ℕ} (hte : ¬ Chunked hs)
    (hall : ∀ v ∈ contentLengths hs, ∃ n ≤ maxBody.toNat,
      parseContentLength v maxBody.toNat = some n) (hlen : len ≤ maxBody.toNat)
    (hlast : ∃ v ∈ contentLengths hs, parseContentLength v maxBody.toNat = some len) :
    Framed hs headLen (headLen + len) ↔ UnambiguousLengths maxBody hs := by
  have hmax : maxBody.toNat ≤ sizeMax := Nat.le_of_lt_succ maxBody.toNat_lt
  obtain ⟨w, hw, hwlen⟩ := hlast
  constructor
  · rintro (⟨hc, -⟩ | ⟨n, hn, -, hused⟩)
    · exact absurd hc hte
    · refine ⟨fun v hv => (hn v hv).1, fun v hv v' hv' => ?_, fun _ v hv => ?_⟩
      · rw [(hn v hv).2.2, (hn v' hv').2.2]
      · rw [(hn v hv).2.2]
        omega
  · rintro ⟨hne, heq, hfit⟩
    -- no value overflows, so each denotes the length it was read as
    have hread : ∀ v ∈ contentLengths hs, ∀ n ≤ maxBody.toNat,
        parseContentLength v maxBody.toNat = some n →
        (∀ c ∈ v, isDigit c) ∧ number v = n := by
      intro v hv n hn hp
      obtain ⟨hdig, hnum⟩ | ⟨hm, -, hbig⟩ := parseContentLengthFrom_spec hmax hp hn
      · exact ⟨hdig, by rw [number_of_digits hdig, hnum]⟩
      · exact absurd (hfit hm v hv) (not_le.2 hbig)
    refine .inr ⟨len, fun v hv => ?_, fun hnil => ?_, rfl⟩
    · obtain ⟨n, hn, hp⟩ := hall v hv
      refine ⟨hne v hv, (hread v hv n hn hp).1, ?_⟩
      rw [heq v hv w hw, (hread w hw len hlen hwlen).2]
    · rw [hnil] at hw
      cases hw

/-- **Framing of accepted requests.** The input begins with a request head, and the request that
is read from it is framed without ambiguity exactly when its Content-Length values are. -/
theorem framed_iff (data buf : Bytes) (maxBody : UInt64) (req : Request) (used : ℕ)
    (hp : parse data maxBody = (.done req used, buf)) :
    (∃ l head rest, RequestHead l req.headers head ∧ data = head ++ rest) ∧
      ∀ l hs head rest, RequestHead l hs head → data = head ++ rest →
        (Framed hs head.length used ↔ UnambiguousLengths maxBody hs) := by
  obtain ⟨h, rest, hread, hbody⟩ := parse_done hp
  obtain ⟨-, htecl, hcl, hnone⟩ := parseBody_done hbody
  refine ⟨requestHead_of_done hp, ?_⟩
  intro l hs head rest' hhead hdata
  rw [hdata, readHead_of_requestHead hhead] at hread
  obtain ⟨-, hadd, rfl⟩ := headers_of_outcome hread
  have hlen : data.length - rest'.length = head.length := by simp [hdata]
  rw [hlen] at hcl hnone
  obtain ⟨hall, hempty, hsome⟩ := addHeaders_lengths hadd
  by_cases hte : h.hasTeChunked = true
  · have hnil : contentLengths hs = [] := by
      by_contra hne
      exact absurd (hsome hne).1 (by simp [htecl hte])
    have hchunked : Chunked hs := chunked_of_hasTeChunked hadd rfl hte
    simp [Framed, UnambiguousLengths, hnil, hchunked]
  · have hte' : h.hasTeChunked = false := by simpa using hte
    have hnot : ¬ Chunked hs := by
      rintro ⟨hd, hmem, hk, -⟩
      apply hte
      rw [addHeaders_hasTeChunked hadd, Bool.or_eq_true, any_eq_true]
      exact .inr ⟨hd, hmem, by simp [hk]⟩
    by_cases hne : contentLengths hs = []
    · rw [hnone hte' (hempty hne).1]
      simp [Framed, UnambiguousLengths, hne]
    · obtain ⟨hhas, hle, hlast⟩ := hsome hne
      rw [hcl hte' hhas]
      exact framed_iff_of_lengths hnot hall hle hlast

def oneLength : Bytes := str "PUT / HTTP/1.1\r\nContent-Length: 1\r\n\r\nx"

lemma parse_oneLength : parse oneLength 8 = (.done ⟨.PUT, str "/", [], str "HTTP/1.1",
    [⟨str "Content-Length", str "1"⟩], str "x", true⟩ 38, oneLength) := rfl

theorem framed_oneLength : ∃ req l head rest, parse oneLength 8 = (.done req 38, oneLength) ∧
    RequestHead l req.headers head ∧ oneLength = head ++ rest ∧
      Framed req.headers head.length 38 := by
  obtain ⟨⟨l, head, rest, hhead, hdata⟩, hiff⟩ := framed_iff _ _ _ _ _ parse_oneLength
  refine ⟨_, l, head, rest, parse_oneLength, hhead, hdata, (hiff l _ head rest hhead hdata).2 ?_⟩
  unfold UnambiguousLengths
  decide +kernel

def twoLengths : Bytes :=
  str "PUT / HTTP/1.1\r\nContent-Length: 5\r\nContent-Length: 0\r\n\r\nhello"

theorem not_framed_twoLengths :
    ∃ req used l head rest, parse twoLengths 100 = (.done req used, twoLengths) ∧
      RequestHead l req.headers head ∧ twoLengths = head ++ rest ∧
      ¬ Framed req.headers head.length used := by
  have hp : parse twoLengths 100 =
      (.done ⟨.PUT, str "/", [], str "HTTP/1.1", [⟨str "Content-Length", str "5"⟩,
        ⟨str "Content-Length", str "0"⟩], [], true⟩ 56, twoLengths) := rfl
  obtain ⟨l, head, rest, hhead, hdata⟩ := requestHead_of_done hp
  refine ⟨_, _, l, head, rest, hp, hhead, hdata, ?_⟩
  have hlengths : contentLengths [⟨str "Content-Length", str "5"⟩,
      ⟨str "Content-Length", str "0"⟩] = [str "5", str "0"] := rfl
  rintro (⟨-, hnil⟩ | ⟨len, hlen, -, -⟩)
  · rw [hlengths] at hnil
    cases hnil
  · rw [hlengths] at hlen
    have h5 := (hlen (str "5") (by simp)).2.2
    have h0 := (hlen (str "0") (by simp)).2.2
    rw [← h5] at h0
    exact absurd h0 (by decide)

end SpidoNG.Http
