import SpidoNG.Http.Chunked
import SpidoNG.Http.Framing
import SpidoNG.Http.Pipelining

/-!
# Chunked requests and receive boundaries

The parser is run again on a chunked request after each piece that arrives.
-/

namespace SpidoNG.Http

open Bytes Incremental Incremental.Reader List

def parseSplit (maxBody : UInt64) : Bytes → List Bytes → Result × Bytes
  | buf, [] => (.needMore, buf)
  | buf, piece :: pieces =>
    match parse (buf ++ piece) maxBody with
    | (.needMore, buf') => parseSplit maxBody buf' pieces
    | (.done req used, buf') => (.done req used, buf'.drop used ++ pieces.flatten)
    | (r, buf') => (r, buf' ++ pieces.flatten)

def Survives (maxBody : UInt64) (pieces : List Bytes) (req : Request) (left : Bytes) : Prop :=
  ∃ used, parseSplit maxBody [] pieces = (.done req used, left)

def cutsFrom (n : ℕ) : List Bytes → List ℕ
  | [] => []
  | piece :: pieces => (n + piece.length) :: cutsFrom (n + piece.length) pieces

def cuts (pieces : List Bytes) : List ℕ := cutsFrom 0 pieces

inductive SplitsTrailer : Bytes → Prop
  | here {l : Bytes} : l ≠ [] → CR ∉ l → SplitsTrailer (l ++ [CR])
  | later {l t : Bytes} : l ≠ [] → CR ∉ l → SplitsTrailer t → SplitsTrailer (l ++ CR :: LF :: t)

/-- A cut of the body region after its first `k` bytes is harmless: it lies inside the first chunk,
or the first chunk is the last one and the cut does not split the line end of a trailer. -/
inductive SafeRegionCut (region : Bytes) (k : ℕ) : Prop
  | chunk {n : ℕ} {line data rest : Bytes} : SizeLine n line → 0 < n → data.length = n →
      region = line ++ (data ++ CR :: LF :: rest) → 0 < k → k < line.length + n + 2 →
      SafeRegionCut region k
  | last {line rest : Bytes} : SizeLine 0 line → region = line ++ rest → 0 < k →
      (¬ ∃ t, region.take k = line ++ t ∧ SplitsTrailer t) → SafeRegionCut region k

def SafeCut (head region : Bytes) (cut : ℕ) : Prop :=
  cut < head.length ∨ SafeRegionCut region (cut - head.length)

variable {n k used : ℕ} {line ys t buf : Bytes}

lemma SizeLine.unique {n' : ℕ} {line' rest rest' : Bytes} (h : SizeLine n line)
    (h' : SizeLine n' line') (heq : line ++ rest = line' ++ rest') :
    n = n' ∧ line = line' ∧ rest = rest' := by
  have h1 := readChunkSize_append h rest
  rw [heq, readChunkSize_append h' rest'] at h1
  cases h1
  exact ⟨rfl, append_cancel_right heq, rfl⟩

lemma hexNumberFrom_append (n : ℕ) (ds es : Bytes) :
    hexNumberFrom n (ds ++ es) = hexNumberFrom (hexNumberFrom n ds) es := foldl_append

variable {xs : Bytes}

lemma readChunkSize_part (h : SizeLine n (xs ++ ys)) (hx : xs ≠ [])
    (hy : ys ≠ []) : readChunkSize xs = .more := by
  obtain ⟨hfit, ds, ext, hne, hds, rfl, hhead, hext, hline⟩ := h
  have hcrlf : (ext ++ [CR, LF]).dropWhile (fun c => c != CR && c != LF) = [CR, LF] :=
    dropWhile_ext hext
  obtain ⟨zs, rfl, hzs⟩ | ⟨zs, rfl, hzs⟩ := append_eq_append_iff.1 hline
  · -- the cut is among the digits
    have hdig : hexDigits 0 (xs ++ []) = .ok (hexNumberFrom 0 xs, []) := by
      refine hexDigits_append (fun c hc => hds c (by simp [hc])) ?_ (by simp)
      rw [hexNumberFrom_append] at hfit
      exact (le_hexNumberFrom _ _).trans hfit
    have hlen : ¬ ([] : Bytes).length = xs.length := by
      simpa using (length_pos_iff.2 hx).ne
    rw [append_nil] at hdig
    unfold readChunkSize
    rw [hdig]
    simp only
    rw [if_neg hlen]
    rfl
  · -- the cut is behind them
    have hdig : hexDigits 0 (ds ++ zs) = .ok (hexNumberFrom 0 ds, zs) := by
      refine hexDigits_append hds hfit fun c hc => ?_
      have hc' : (ext ++ [CR, LF]).head? = some c := by
        rw [hzs, head?_append, hc]
        rfl
      cases ext with
      | nil =>
        obtain rfl : CR = c := by simpa using hc'
        decide
      | cons => exact hhead c hc'
    have hlen : ¬ zs.length = (ds ++ zs).length := by
      have := length_pos_iff.2 hne
      simp only [length_append]
      omega
    have hshort : (zs.dropWhile (fun c => c != CR && c != LF)).length < 2 := by
      rw [hzs, dropWhile_append] at hcrlf
      split_ifs at hcrlf with hemp
      · simp [isEmpty_iff.1 hemp]
      · have hlen2 := congrArg List.length hcrlf
        have hpos := length_pos_iff.2 hy
        simp only [length_append, length_cons, length_nil] at hlen2
        omega
    unfold readChunkSize
    rw [hdig]
    simp only
    rw [if_neg hlen]
    split
    · next a b tl hdrop =>
      rw [hdrop] at hshort
      simp at hshort
    · rfl

lemma readChunkSize_take (hline : SizeLine n line) (tl : Bytes)
    (hpos : 0 < k) (hlt : k < line.length) : readChunkSize ((line ++ tl).take k) = .more := by
  rw [take_append_of_le_length hlt.le]
  refine @readChunkSize_part n (line.drop k) _ (by rwa [take_append_drop]) ?_ ?_
  · exact length_pos_iff.1 (by simp; omega)
  · exact length_pos_iff.1 (by simp; omega)

lemma readTrailers_of_not_mem (h : CR ∉ xs) : readTrailers xs = .more := by
  unfold readTrailers
  rw [iterate_eq progress_trailerStep]
  have hscan : scanTo (· == CR) (fun _ => false) Reject.badRequest xs = .more := by
    refine scanTo_eq_more.2 fun c hc => ⟨?_, rfl⟩
    simpa using ne_of_mem_of_not_mem hc h
  match xs, h, hscan with
  | [], _, _ => rfl
  | [_], _, _ => rfl
  | a :: b :: tl, h, hscan =>
    have ha : a ≠ CR := fun heq => h (by simp [heq])
    simp [trailerStep, ha, hscan]

lemma readTrailers_line {l : Bytes} (hne : l ≠ []) (hcr : CR ∉ l) :
    readTrailers (l ++ CR :: LF :: t) = readTrailers t := by
  unfold readTrailers
  rw [iterate_eq progress_trailerStep, trailerStep_line hne hcr]

lemma readTrailers_of_splits (h : SplitsTrailer t) : readTrailers t = .fail .badRequest := by
  induction h with
  | @here l hne hcr =>
    have hscan := @scanTo_line [] _ hcr
    unfold readTrailers
    rw [iterate_eq progress_trailerStep]
    match l, hne, hcr, hscan with
    | a :: l, _, hcr, hscan =>
      have ha : a ≠ CR := fun heq => hcr (by simp [heq])
      obtain ⟨b, tl, hb⟩ : ∃ b tl, l ++ [CR] = b :: tl := by
        cases l with
        | nil | cons => exact ⟨_, _, rfl⟩
      rw [cons_append, hb] at hscan ⊢
      simp [trailerStep, ha, hscan]
  | later hne hcr _ ih => rw [readTrailers_line hne hcr, ih]

lemma readTrailers_part (h : TrailerLines t) (ht : t = xs ++ ys)
    (hy : ys ≠ []) (hsplit : ¬ SplitsTrailer xs) : readTrailers xs = .more := by
  induction h generalizing xs with
  | nil =>
    match xs, ht with
    | [], _ => rfl
    | [a], ht =>
      cases ht
      rfl
    | a :: b :: xs, ht =>
      have hnil : a = CR ∧ b = LF ∧ xs = [] ∧ ys = [] := by simpa using ht.symm
      exact absurd hnil.2.2.2 hy
  | @cons _ _ hne hcr _ ih =>
    obtain ⟨zs, rfl, hzs⟩ | ⟨zs, rfl, hzs⟩ := append_eq_append_iff.1 ht
    rotate_left
    · exact readTrailers_of_not_mem fun hmem => hcr (by simp [hmem])
    · match zs, hzs with
      | [], _ => exact readTrailers_of_not_mem (by simpa using hcr)
      | [a], hzs =>
        cases hzs
        exact absurd (.here hne hcr) hsplit
      | a :: b :: zs, hzs =>
        cases hzs
        rw [readTrailers_line hne hcr]
        exact ih rfl fun h => hsplit (.later hne hcr h)

structure ChunkedHead (maxBody : ℕ) (h : Head) (head : Bytes) : Prop where
  read : ∀ rest, readHead maxBody (head ++ rest) = .ok h rest
  te : h.hasTeChunked = true
  noCl : h.hasCl = false

variable {req : Request}

section Region

variable {maxBody : UInt64} {h : Head} {head : Bytes} (hh : ChunkedHead maxBody.toNat h head)
include hh

lemma ChunkedHead.parse_part
    (heq : head = xs ++ ys) (hy : ys ≠ []) : parse xs maxBody = (.needMore, xs) := by
  have hwhole : readHead maxBody.toNat (xs ++ ys) = .ok h [] := by
    have := hh.read []
    rwa [append_nil, heq] at this
  have hmore : readHead maxBody.toNat xs = .more := by
    cases hx : readHead maxBody.toNat xs with
    | more => rfl
    | fail =>
      rw [(stable_readHead _).fail_append ys hx] at hwhole
      cases hwhole
    | ok _ rest =>
      rw [(stable_readHead _).ok_append ys hx] at hwhole
      have hnil : rest ++ ys = [] := (Outcome.ok.inj hwhole).2
      exact absurd (append_eq_nil_iff.1 hnil).2 hy
  unfold parse
  rw [hmore]

lemma ChunkedHead.parse_append (xs : Bytes) : parse (head ++ xs) maxBody =
      match decodeChunks maxBody.toNat (xs.length + 1) ⟨[], [], xs⟩ with
      | .needMore c => (.needMore, head ++ c.bytes)
      | .reject e c => (e.result, head ++ c.bytes)
      | .done c => (.done (h.request c.body) (head.length + (xs.length - c.rest.length)),
          head ++ c.bytes)
      | .outOfBounds => (.outOfBounds, head ++ xs) := by
  have hlen : (head ++ xs).length - xs.length = head.length := by simp
  unfold parse
  rw [hh.read xs]
  show parseBody (head ++ xs) maxBody.toNat ((head ++ xs).length - xs.length) h xs = _
  unfold parseBody
  rw [hlen, hh.te, hh.noCl, take_left]
  rfl

lemma ChunkedHead.parse_bad (hx : ∀ c, xs.head? = some c → hexVal c = none) :
    parse (head ++ xs) maxBody = (.badRequest, head ++ xs) := by
  have hdig : hexDigits 0 xs = .ok (0, xs) :=
    @hexDigits_append 0 xs [] (by simp) (Nat.zero_le _) hx
  have hsize : readChunkSize xs = .fail .badRequest := by
    unfold readChunkSize
    rw [hdig]
    simp
  rw [hh.parse_append, decodeChunks, hsize]
  simp [Reject.result, Cursor.bytes]

lemma ChunkedHead.parse_chunks {body enc : Bytes}
    (hc : Chunks maxBody.toNat 0 body enc) (rest : Bytes) :
    ∃ buf, parse (head ++ (enc ++ rest)) maxBody =
        (.done (h.request body) (head.length + enc.length), buf) ∧
      buf.drop (head.length + enc.length) = rest := by
  obtain ⟨c, hdec, hbody, hrest, hlen⟩ := @decodeChunks_of_chunks _ rest
    ⟨[], [], enc ++ rest⟩ ((enc ++ rest).length + 1) _ _ _ hc rfl rfl (by simp)
  have hlength : (c.body ++ c.gap).length = enc.length := by
    simp only [Cursor.bytes, hrest, length_append, nil_append] at hlen ⊢
    omega
  refine ⟨head ++ c.bytes, ?_, ?_⟩
  · rw [hh.parse_append, hdec]
    simp only [hbody, hrest, nil_append, length_append]
    rw [Nat.add_sub_cancel]
  · rw [← drop_drop, drop_left, Cursor.bytes, ← hlength, drop_left, hrest]

lemma ChunkedHead.chunks_of_done (hp : parse (head ++ xs) maxBody = (.done req used, buf)) :
    ∃ body enc rest, Chunks maxBody.toNat 0 body enc ∧ xs = enc ++ rest ∧
      req = h.request body ∧ used = head.length + enc.length := by
  rw [hh.parse_append] at hp
  cases hdec : decodeChunks maxBody.toNat (xs.length + 1) ⟨[], [], xs⟩ with
  | needMore | outOfBounds => rw [hdec] at hp; cases hp
  | reject => rw [hdec] at hp; simp at hp
  | done c =>
    obtain ⟨body, enc, hc, hxs, hbody⟩ := decodeChunks_eq_done hdec
    simp only at hxs hbody
    rw [hdec] at hp
    cases hp
    exact ⟨body, enc, c.rest, hc, hxs, by rw [hbody]; rfl, by rw [hxs]; simp⟩

end Region

section Cut

variable {maxBody : UInt64} {h : Head} {head region body enc left : Bytes}
  (hh : ChunkedHead maxBody.toNat h head) (hc : Chunks maxBody.toNat 0 body enc)
include hh hc

lemma ChunkedHead.parse_safeCut (hfit : (enc ++ left).length < 2 ^ 64)
    (hk : k < enc.length) (hsafe : SafeRegionCut (enc ++ left) k) :
    parse (head ++ (enc ++ left).take k) maxBody = (.needMore, head ++ (enc ++ left).take k) := by
  -- it is enough that the decoder stops without having moved anything
  suffices hdec : ∃ c, decodeChunks maxBody.toNat (((enc ++ left).take k).length + 1)
      ⟨[], [], (enc ++ left).take k⟩ = .needMore c ∧ c.bytes = (enc ++ left).take k by
    obtain ⟨c, h1, h2⟩ := hdec
    rw [hh.parse_append, h1, ← h2]
  have hinit : ∀ xs : Bytes, Cursor.bytes ⟨[], [], xs⟩ = xs := fun xs => by simp [Cursor.bytes]
  have hlen : ((enc ++ left).take k).length = k := by simp; omega
  have htake : ∀ {line tl : Bytes}, enc ++ left = line ++ tl → line.length ≤ k →
      (enc ++ left).take k = line ++ tl.take (k - line.length) := by
    intro line tl heq hle
    rw [heq, take_append, take_of_length_le hle]
  rcases hsafe with @⟨n, line, data, rest, hline, hn, hdata, heq, hpos, hlt⟩ |
    @⟨line, rest, hline, heq, hpos, hsplit⟩
  · by_cases hin : k < line.length
    · exact ⟨_, by rw [decodeChunks, heq, readChunkSize_take hline _ hpos hin], by rw [hinit, heq]⟩
    · -- inside the data: the bounds hold because the whole is accepted
      have hbound : n ≤ maxBody.toNat ∧ wrap (0 + n) ≤ maxBody.toNat := by
        cases hc with
        | @last _ _ _ hline' _ =>
          obtain ⟨h0, -, -⟩ := hline'.unique hline (by rw [← heq, append_assoc])
          omega
        | @chunk _ _ _ _ _ _ hline' _ hmax hsum _ _ =>
          obtain ⟨rfl, -, -⟩ := hline'.unique hline (by rw [← heq, append_assoc])
          exact ⟨hmax, hsum⟩
      have hbig : n + 2 < 2 ^ 64 := by
        rw [heq] at hfit
        simp [hdata] at hfit
        omega
      have hrest : ((data ++ CR :: LF :: rest).take (k - line.length)).length
        = k - line.length := by
        simp [hdata]
        omega
      refine ⟨Cursor.skip ⟨[], [], (enc ++ left).take k⟩ line.length, ?_, by simp [hinit]⟩
      rw [decodeChunks]
      simp only [htake heq (not_lt.1 hin), readChunkSize_append hline]
      rw [if_neg (by omega), if_neg (by omega), if_neg (by simpa using hbound.2),
        if_pos (by rw [hrest, wrap_of_lt hbig]; omega)]
      simp
  · by_cases hin : k < line.length
    · exact ⟨_, by rw [decodeChunks, heq, readChunkSize_take hline _ hpos hin], by rw [hinit, heq]⟩
    · -- inside the trailers
      have hmore : readTrailers (rest.take (k - line.length)) = .more := by
        cases hc with
        | @last _ _ t hline' ht =>
          obtain ⟨-, rfl, rfl⟩ := @SizeLine.unique _ _ _ _ (t ++ left) rest hline' hline
            (by rw [← heq, append_assoc])
          rw [length_append] at hk
          rw [take_append_of_le_length (by omega)]
          refine readTrailers_part ht (take_append_drop _ _).symm
            (length_pos_iff.1 (by simp; omega)) fun hs => hsplit ⟨_, ?_, hs⟩
          rw [htake heq (not_lt.1 hin), take_append_of_le_length (by omega)]
        | @chunk _ _ _ _ _ _ hline' _ _ _ _ _ =>
          obtain ⟨rfl, -, -⟩ := hline'.unique hline (by rw [← heq, append_assoc])
          omega
      refine ⟨Cursor.skip ⟨[], [], (enc ++ left).take k⟩ line.length, ?_, by simp [hinit]⟩
      rw [decodeChunks]
      simp only [htake heq (not_lt.1 hin), readChunkSize_append hline, hmore, if_true]
      simp

omit hh hc in
lemma decodeChunks_needMore_body {maxBody fuel : ℕ} {c c' : Cursor}
    (hd : decodeChunks maxBody fuel c = .needMore c') : c.body <+: c'.body := by
  induction fuel generalizing c with
  | zero =>
    cases hd
    exact prefix_refl _
  | succ _ ih =>
    rw [decodeChunks] at hd
    cases hs : readChunkSize c.rest with
    | more =>
      rw [hs] at hd
      cases hd
      exact prefix_refl _
    | fail => rw [hs] at hd; cases hd
    | ok n rest =>
      simp only [hs] at hd
      split_ifs at hd with h1 h2 h3 h4 h5 h6
      · cases ht : readTrailers rest with
        | more =>
          rw [ht] at hd
          cases hd
          exact prefix_refl _
        | fail | ok => rw [ht] at hd; cases hd
      · cases hd
        exact prefix_refl _
      · exact (prefix_append _ _).trans (ih hd)

omit hh hc in
lemma ChunkedHead.parse_needMore_of_moved (hh : ChunkedHead maxBody.toNat h head)
    {data : Bytes} {d : UInt8} {fuel : ℕ} {c : Cursor}
    (hdec : decodeChunks maxBody.toNat (xs.length + 1) ⟨[], [], xs⟩ =
      decodeChunks maxBody.toNat fuel c)
    (hbody : c.body = [] ++ d :: data) (hp : parse (head ++ xs) maxBody = (.needMore, buf)) :
    ∃ tl, buf = head ++ d :: tl := by
  rw [hh.parse_append, hdec] at hp
  cases hrun : decodeChunks maxBody.toNat fuel c with
  | needMore c' =>
    rw [hrun] at hp
    cases hp
    obtain ⟨tl, htl⟩ := decodeChunks_needMore_body hrun
    rw [hbody, nil_append] at htl
    refine ⟨data ++ tl ++ c'.gap ++ c'.rest, ?_⟩
    rw [Cursor.bytes, ← htl]
    simp
  | reject e =>
    rw [hrun] at hp
    cases e <;> cases hp
  | done | outOfBounds =>
    rw [hrun] at hp
    cases hp

lemma ChunkedHead.parse_take_ne_done (hk : k < enc.length) :
    parse (head ++ (enc ++ left).take k) maxBody ≠ (.done req used, buf) := by
  intro hp
  obtain ⟨body', enc', rest', hc', hxs, -, -⟩ := hh.chunks_of_done hp
  obtain ⟨buf1, h1, -⟩ := hh.parse_chunks hc left
  obtain ⟨buf2, h2, -⟩ := hh.parse_chunks hc' (rest' ++ (enc ++ left).drop k)
  have heq : enc' ++ (rest' ++ (enc ++ left).drop k) = enc ++ left := by
    rw [← append_assoc, ← hxs, take_append_drop]
  rw [heq, h1] at h2
  have hlen : head.length + enc.length = head.length + enc'.length := by
    have := congrArg Prod.fst h2
    simp only [Result.done.injEq] at this
    exact this.2
  have := congrArg List.length hxs
  simp only [length_take, length_append] at this
  omega

lemma ChunkedHead.parse_unsafeCut (hk : k < enc.length)
    (hnot : ¬ SafeRegionCut (enc ++ left) k) {r : Result}
    (hp : parse (head ++ (enc ++ left).take k) maxBody = (r, buf)) :
    (r ≠ .needMore ∧ ∀ req used, r ≠ .done req used) ∨
      (r = .needMore ∧ ∃ d tl, buf = head ++ d :: tl ∧ body.head? = some d) := by
  have hbad : ∀ req used, r ≠ .done req used := by
    rintro req used rfl
    exact hh.parse_take_ne_done hc hk hp
  by_cases hr : r = .needMore
  · subst hr
    refine .inr ⟨rfl, ?_⟩
    by_cases hk0 : k = 0
    · subst hk0
      rw [take_zero, hh.parse_bad (by simp)] at hp
      cases hp
    · cases hc with
      | @last _ line t hline _ =>
        -- an unsafe cut behind the last size line splits a trailer line, which is refused
        have hsplit : ∃ t', (line ++ t ++ left).take k = line ++ t' ∧ SplitsTrailer t' := by
          by_contra hno
          exact hnot (.last hline (append_assoc _ _ _) (by omega) hno)
        obtain ⟨t', htake, hs⟩ := hsplit
        rw [hh.parse_append, decodeChunks] at hp
        simp only [htake, readChunkSize_append hline, readTrailers_of_splits hs, if_true] at hp
        cases hp
      | @chunk _ n line data _ enc' hline hn hmax hsum hdata _ =>
        -- the first chunk is whole, so its data has been moved
        have hlong : line.length + n + 2 ≤ k := by
          by_contra hlt
          exact hnot (@SafeRegionCut.chunk _ _ n line data (enc' ++ left) hline hn
            hdata (by simp)
            (by omega) (by omega))
        obtain ⟨tl, htake⟩ : ∃ tl, (line ++ (data ++ CR :: LF :: enc') ++ left).take k =
            line ++ (data ++ CR :: LF :: tl) := by
          refine ⟨(enc' ++ left).take (k - (line.length + n + 2)), ?_⟩
          have happ : line ++ (data ++ CR :: LF :: enc') ++ left =
              (line ++ (data ++ [CR, LF])) ++ (enc' ++ left) := by simp
          have hpre : (line ++ (data ++ [CR, LF])).length = line.length + n + 2 := by
            simp [hdata]
            omega
          rw [happ, take_append, take_of_length_le (by omega), hpre]
          simp
        obtain ⟨c, hdec, hbody, -, -⟩ := @decodeChunks_chunk n maxBody.toNat tl
          ⟨[], [], (line ++ (data ++ CR :: LF :: enc') ++ left).take k⟩
          ((line ++ (data ++ CR :: LF :: enc') ++ left).take k).length line data
          hline hn hmax hsum hdata htake
        cases data with
        | nil =>
          simp at hdata
          omega
        | cons d =>
          obtain ⟨tl', htl'⟩ := hh.parse_needMore_of_moved hdec hbody hp
          exact ⟨d, tl', htl', rfl⟩
  · exact .inl ⟨hr, hbad⟩

end Cut

section Run

variable {maxBody : UInt64} {h : Head} {head body enc left : Bytes}

lemma take_stream (head region : Bytes) (n : ℕ) : (head ++ region).take n =
      if n < head.length then head.take n else head ++ region.take (n - head.length) := by
  split_ifs with hn
  · exact take_append_of_le_length hn.le
  · rw [take_append, take_of_length_le (not_lt.1 hn)]

lemma le_of_mem_cutsFrom {m : ℕ} {pieces : List Bytes} (h : m ∈ cutsFrom n pieces) : n ≤ m := by
  induction pieces generalizing n with
  | nil => cases h
  | cons _ _ ih =>
    rcases mem_cons.1 h with rfl | h
    · omega
    · exact (Nat.le_add_right _ _).trans (ih h)

variable (hh : ChunkedHead maxBody.toNat h head)
  (hc : Chunks maxBody.toNat 0 body enc)
  (hfit : (enc ++ left).length < 2 ^ 64)
include hh hc hfit

lemma ChunkedHead.parse_take {cut : ℕ}
    (hcut : cut < head.length + enc.length) (hsafe : SafeCut head (enc ++ left) cut) :
    parse ((head ++ (enc ++ left)).take cut) maxBody =
      (.needMore, (head ++ (enc ++ left)).take cut) := by
  rw [take_stream]
  split_ifs with hin
  · exact hh.parse_part (take_append_drop _ _).symm (length_pos_iff.1 (by simp; omega))
  · rcases hsafe with hlt | hreg
    · exact absurd hlt hin
    · exact hh.parse_safeCut hc hfit (by omega) hreg

lemma ChunkedHead.parseSplit_of_safe
    (pieces : List Bytes) (buf : Bytes) (hbuf : buf.length < head.length + enc.length)
    (hstream : buf ++ pieces.flatten = head ++ (enc ++ left))
    (hsafe : ∀ cut ∈ cutsFrom buf.length pieces, cut < head.length + enc.length →
      SafeCut head (enc ++ left) cut) : parseSplit maxBody buf pieces =
      (.done (h.request body) (head.length + enc.length), left) := by
  induction pieces generalizing buf with
  | nil =>
    have := congrArg List.length hstream
    simp only [flatten_nil, append_nil, length_append] at this
    omega
  | cons piece pieces ih =>
    have hcat : (buf ++ piece) ++ pieces.flatten = head ++ (enc ++ left) := by
      rw [← hstream]
      simp
    by_cases hcut : buf.length + piece.length < head.length + enc.length
    · -- the buffer is a proper part of the request
      have htake : buf ++ piece = (head ++ (enc ++ left)).take (buf.length + piece.length) := by
        rw [← hcat, ← length_append, take_left]
      have hwait := hh.parse_take hc hfit hcut (hsafe _ (by simp [cutsFrom]) hcut)
      rw [parseSplit, htake, hwait, ← htake]
      refine ih (buf ++ piece) (by simpa using hcut) hcat fun cut hmem hlt => ?_
      exact hsafe cut (by simp only [cutsFrom, mem_cons]; right; simpa using hmem) hlt
    · -- the request is complete
      obtain ⟨extra, hext⟩ : ∃ extra, buf ++ piece = head ++ (enc ++ extra) := by
        obtain ⟨zs, hzs, -⟩ | ⟨zs, hzs, -⟩ :=
          append_eq_append_iff.1 (hcat.trans (append_assoc head enc left).symm)
        · have hnil : zs = [] := by
            have := congrArg List.length hzs
            simp only [length_append] at this
            exact length_eq_zero_iff.1 (by omega)
          exact ⟨[], by rw [append_nil, hzs, hnil, append_nil]⟩
        · exact ⟨zs, by rw [hzs, append_assoc]⟩
      have hleft : left = extra ++ pieces.flatten := by
        rw [hext] at hcat
        simpa using hcat.symm
      obtain ⟨buf', hp, hdrop⟩ := hh.parse_chunks hc extra
      rw [parseSplit, hext, hp]
      simp only [hdrop, hleft]

lemma ChunkedHead.parseSplit_of_unsafe
    (hfirst : ∀ c, body.head? = some c → hexVal c = none) (pieces : List Bytes) (buf : Bytes)
    (hstream : buf ++ pieces.flatten = head ++ (enc ++ left))
    (hbad : ∃ cut ∈ cutsFrom buf.length pieces, cut < head.length + enc.length ∧
      ¬ SafeCut head (enc ++ left) cut) (req : Request) (used : ℕ) (rest : Bytes) :
    parseSplit maxBody buf pieces ≠ (.done req used, rest) := by
  induction pieces generalizing buf with
  | nil => simp [parseSplit]
  | cons piece pieces ih =>
    have hcat : (buf ++ piece) ++ pieces.flatten = head ++ (enc ++ left) := by
      rw [← hstream]
      simp
    obtain ⟨cut, hmem, hlt, hcut⟩ := hbad
    have hnow : buf.length + piece.length < head.length + enc.length := by
      rcases mem_cons.1 hmem with rfl | hmem
      · exact hlt
      · exact (le_of_mem_cutsFrom hmem).trans_lt hlt
    have htake : buf ++ piece = (head ++ (enc ++ left)).take (buf.length + piece.length) := by
      rw [← hcat, ← length_append, take_left]
    by_cases hsafe : SafeCut head (enc ++ left) (buf.length + piece.length)
    · -- nothing has happened yet
      rw [parseSplit, htake, hh.parse_take hc hfit hnow hsafe, ← htake]
      refine ih (buf ++ piece) hcat ⟨cut, ?_, hlt, hcut⟩
      rcases mem_cons.1 hmem with rfl | hmem
      · exact absurd hsafe hcut
      · simpa using hmem
    · have hout : ¬ buf.length + piece.length < head.length := fun hin => hsafe (.inl hin)
      have hreg : ¬ SafeRegionCut (enc ++ left) (buf.length + piece.length - head.length) :=
        fun hin => hsafe (.inr hin)
      rw [parseSplit, htake, take_stream, if_neg hout]
      cases hp : parse (head ++ (enc ++ left).take (buf.length + piece.length - head.length))
          maxBody with
      | mk r =>
        obtain ⟨hmore, hdone⟩ | ⟨rfl, d, tl, rfl, hd⟩ := hh.parse_unsafeCut hc (by omega) hreg hp
        · cases r with
          | needMore => exact absurd rfl hmore
          | done req' used' => exact absurd rfl (hdone req' used')
          | badRequest | tooLarge | outOfBounds => simp
        · -- the next run starts at the first byte of the body
          cases pieces with
          | nil => simp [parseSplit]
          | cons piece' =>
            have hbad : ∀ c, (d :: tl ++ piece').head? = some c → hexVal c = none := by
              intro c hc'
              obtain rfl : d = c := by simpa using hc'
              exact hfirst d hd
            simp only [parseSplit, append_assoc]
            rw [hh.parse_bad hbad]
            simp

end Run

lemma chunkedHead_of_done {stream head region : Bytes} {maxBody : UInt64} {l : RequestLine}
    (hp : parse stream maxBody = (.done req used, buf))
    (hc : Chunked req.headers) (hhead : RequestHead l req.headers head)
    (hstream : stream = head ++ region) : ∃ h, ChunkedHead maxBody.toNat h head := by
  obtain ⟨h, rest, hread, hbody⟩ := parse_done hp
  obtain ⟨hheader, hnocl, -, -⟩ := parseBody_done hbody
  have hread' := hread
  rw [hstream, readHead_of_requestHead hhead] at hread'
  obtain ⟨-, hadd, rfl⟩ := headers_of_outcome hread'
  have hte : h.hasTeChunked := by
    obtain ⟨hd, hmem, hk, -⟩ := hc
    rw [addHeaders_hasTeChunked hadd, Bool.or_eq_true, any_eq_true]
    exact .inr ⟨hd, hmem, by simp [hk]⟩
  refine ⟨h, fun rest => ?_, hte, hnocl hte⟩
  rw [readHead_of_requestHead hhead, hadd]
  rfl

/-- **Chunked requests in pieces** survive safe cuts; where the body does not start with a
hexadecimal digit, an unsafe cut loses them. -/
theorem split_chunked (stream buf head region : Bytes) (maxBody : UInt64) (req : Request) (used : ℕ)
    (l : RequestLine) (hp : parse stream maxBody = (.done req used, buf))
    (hc : Chunked req.headers) (hfit : stream.length < 2 ^ 64)
    (hhead : RequestHead l req.headers head) (hstream : stream = head ++ region)
    (pieces : List Bytes) (hpieces : pieces.flatten = stream) :
    ((∀ cut ∈ cuts pieces, cut < used → SafeCut head region cut) →
        Survives maxBody pieces req (buf.drop used)) ∧
      ((∀ c, req.body.head? = some c → hexVal c = none) →
        Survives maxBody pieces req (buf.drop used) →
        ∀ cut ∈ cuts pieces, cut < used → SafeCut head region cut) := by
  obtain ⟨h, hh⟩ := chunkedHead_of_done hp hc hhead hstream
  subst hstream
  obtain ⟨body, enc, left, hch, rfl, rfl, rfl⟩ := hh.chunks_of_done hp
  have hfit' : (enc ++ left).length < 2 ^ 64 := by
    rw [length_append] at hfit
    omega
  have hleft : buf.drop (head.length + enc.length) = left := by
    obtain ⟨buf', hp', hdrop⟩ := hh.parse_chunks hch left
    rw [hp] at hp'
    cases hp'
    exact hdrop
  have hlen : ([] : Bytes).length < head.length + enc.length := by
    have hpos : 0 < head.length := by
      obtain ⟨-, lines, -, rfl⟩ := hhead
      simp
    simp only [length_nil]
    omega
  rw [hleft]
  constructor
  · intro hsafe
    exact ⟨_, hh.parseSplit_of_safe hch hfit' pieces [] hlen hpieces hsafe⟩
  · rintro hfirst ⟨used', hdone⟩
    by_contra hno
    push Not at hno
    obtain ⟨cut, hmem, hlt, hcut⟩ := hno
    exact hh.parseSplit_of_unsafe hch hfit' hfirst pieces [] hpieces ⟨cut, hmem, hlt, hcut⟩
      _ _ _ hdone

def helloRequest : Request where
  method := .PUT
  path := str "/"
  query := []
  version := str "HTTP/1.1"
  headers := [⟨str "Transfer-Encoding", str "chunked"⟩]
  body := str "hello"
  keepAlive := true

def helloHead : Bytes := str "PUT / HTTP/1.1\r\nTransfer-Encoding: chunked\r\n\r\n"

def helloBody : Bytes := str "5\r\nhello\r\n0\r\n\r\n"

theorem survives_cut_in_head :
    ∃ buf, parse (helloHead ++ helloBody) 100 = (.done helloRequest 61, buf) ∧
      Survives 100 [str "PUT", (helloHead ++ helloBody).drop 3] helloRequest (buf.drop 61) := by
  have hp : parse (helloHead ++ helloBody) 100 = (.done helloRequest 61,
      helloHead ++ str "hellollo\r\n0\r\n\r\n") := rfl
  have hc : Chunked helloRequest.headers :=
    ⟨⟨str "Transfer-Encoding", str "chunked"⟩, by decide +kernel⟩
  obtain ⟨l, head, rest, hhead, hstream⟩ := requestHead_of_done hp
  refine ⟨_, hp, (split_chunked _ _ head rest 100 helloRequest 61 l hp hc (by decide +kernel) hhead
    hstream _ (by decide +kernel)).1 ?_⟩
  have hlong : 3 < head.length := by
    obtain ⟨hl, lines, -, rfl⟩ := hhead
    rcases hl.version with hv | hv <;> simp [hv, str] <;> omega
  have hcuts : cuts [str "PUT", (helloHead ++ helloBody).drop 3] = [3, 61] := rfl
  rw [hcuts]
  simp [SafeCut, hlong]

theorem not_survives_moved :
    ∃ buf, parse (helloHead ++ helloBody) 100 = (.done helloRequest 61, buf) ∧
      (parseSplit 100 [] [helloHead ++ helloBody.take 11, helloBody.drop 11]).1 = .badRequest := by
  exact ⟨helloHead ++ str "hellollo\r\n0\r\n\r\n", by decide +kernel, by decide +kernel⟩

end SpidoNG.Http
