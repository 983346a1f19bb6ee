import SpidoNG.Http.Parser

/-!
# The syntax of a chunked body

The in-place decoder accepts exactly the bodies of a grammar that respect the size limit.
-/

namespace SpidoNG.Http

open Bytes Incremental Incremental.Reader List Cursor

def hexNumberFrom (n : ℕ) (ds : Bytes) : ℕ := ds.foldl (fun n c => n * 16 + (hexVal c).getD 0) n

structure SizeLine (n : ℕ) (line : Bytes) : Prop where
  fits : n ≤ sizeMax
  split : ∃ ds ext : Bytes, ds ≠ [] ∧ (∀ c ∈ ds, (hexVal c).isSome = true) ∧
    hexNumberFrom 0 ds = n ∧ (∀ c, ext.head? = some c → hexVal c = none) ∧
    (∀ c ∈ ext, c ≠ CR ∧ c ≠ LF) ∧ line = ds ++ (ext ++ [CR, LF])

lemma le_hexNumberFrom (n : ℕ) (ds : Bytes) : n ≤ hexNumberFrom n ds := by
  induction ds generalizing n with
  | nil => exact le_rfl
  | cons c ds ih =>
    calc n ≤ n * 16 + (hexVal c).getD 0 := by omega
      _ ≤ hexNumberFrom n (c :: ds) := ih _

lemma hexVal_lt {c : UInt8} {v : ℕ} (h : hexVal c = some v) : v < 16 := by
  simp only [hexVal, Bool.and_eq_true, decide_eq_true_eq, UInt8.le_iff_toNat_le,
    UInt8.reduceToNat] at h
  split_ifs at h with h1 h2 h3
  · cases h
    omega
  · cases h
    omega
  · cases h
    omega

variable {n maxBody : ℕ} {rest : Bytes} {c : Cursor} {xs : Bytes} {fuel : ℕ}

lemma hexDigits_append {ds : Bytes} (hds : ∀ c ∈ ds, (hexVal c).isSome)
    (hfit : hexNumberFrom n ds ≤ sizeMax) (hxs : ∀ c, xs.head? = some c → hexVal c = none) :
    hexDigits n (ds ++ xs) = .ok (hexNumberFrom n ds, xs) := by
  induction ds generalizing n with
  | nil =>
    cases xs with
    | nil => rfl
    | cons c => simp [hexDigits, hxs c rfl, hexNumberFrom]
  | cons c ds ih =>
    obtain ⟨v, hv⟩ := Option.isSome_iff_exists.1 (hds c (by simp))
    have hnum : hexNumberFrom n (c :: ds) = hexNumberFrom (n * 16 + v) ds := by
      simp [hexNumberFrom, hv]
    have hle : n * 16 + v ≤ sizeMax := by
      rw [hnum] at hfit
      exact (le_hexNumberFrom _ _).trans hfit
    have hno : ¬ n > (sizeMax - v) / 16 := by
      have := hexVal_lt hv
      simp only [sizeMax] at hle ⊢
      omega
    rw [cons_append, hexDigits, hv, hnum]
    simp only [hno, if_false]
    exact ih (fun d hd => hds d (by simp [hd])) (hnum ▸ hfit)

lemma hexDigits_eq_ok {m : ℕ} (hn : n ≤ sizeMax) (h : hexDigits n xs = .ok (m, rest)) :
    ∃ ds, xs = ds ++ rest ∧ (∀ c ∈ ds, (hexVal c).isSome) ∧ hexNumberFrom n ds = m ∧
      m ≤ sizeMax ∧ ∀ c, rest.head? = some c → hexVal c = none := by
  induction xs generalizing n with
  | nil =>
    cases h
    exact ⟨[], rfl, by simp, rfl, hn, by simp⟩
  | cons c _ ih =>
    rw [hexDigits] at h
    cases hv : hexVal c with
    | none =>
      rw [hv] at h
      cases h
      exact ⟨[], rfl, by simp, rfl, hn, by simp [hv]⟩
    | some v =>
      simp only [hv] at h
      split_ifs at h with hover
      have hle : n * 16 + v ≤ sizeMax := by
        have := hexVal_lt hv
        simp only [sizeMax] at hover ⊢
        omega
      obtain ⟨ds, rfl, hds, hnum, hm, hrest⟩ := ih hle h
      refine ⟨c :: ds, rfl, forall_mem_cons.2 ⟨by simp [hv], hds⟩, ?_, hm, hrest⟩
      simpa [hexNumberFrom, hv] using hnum

variable {tl line l t : Bytes}

lemma dropWhile_ext {ext : Bytes} (hext : ∀ c ∈ ext, c ≠ CR ∧ c ≠ LF) :
    (ext ++ CR :: tl).dropWhile (fun c => c != CR && c != LF) = CR :: tl := by
  induction ext with
  | nil => rfl
  | cons c _ ih =>
    obtain ⟨h1, h2⟩ := hext c (by simp)
    rw [cons_append, dropWhile_cons_of_pos (by simp [h1, h2])]
    exact ih fun d hd => hext d (by simp [hd])

lemma readChunkSize_append (h : SizeLine n line) (rest : Bytes) :
    readChunkSize (line ++ rest) = .ok n rest := by
  obtain ⟨hfit, ds, ext, hne, hds, rfl, hhead, hext, rfl⟩ := h
  have happ : ds ++ (ext ++ [CR, LF]) ++ rest = ds ++ (ext ++ CR :: LF :: rest) := by simp
  have hno : ∀ c, (ext ++ CR :: LF :: rest).head? = some c → hexVal c = none := by
    intro c hc
    cases ext with
    | nil =>
      obtain rfl : CR = c := by simpa using hc
      decide
    | cons => exact hhead c hc
  unfold readChunkSize
  rw [happ, hexDigits_append hds hfit hno]
  simp only
  rw [if_neg, dropWhile_ext hext]
  · simp
  · have := length_pos_iff.2 hne
    simp only [length_append]
    omega

lemma readChunkSize_eq_ok (h : readChunkSize xs = .ok n rest) :
    ∃ line, SizeLine n line ∧ xs = line ++ rest := by
  unfold readChunkSize at h
  cases hd : hexDigits 0 xs with
  | error => rw [hd] at h; cases h
  | ok p =>
    obtain ⟨m, mid⟩ := p
    rw [hd] at h
    simp only at h
    split_ifs at h with hlen
    obtain ⟨ds, rfl, hds, hnum, hm, hmid⟩ := hexDigits_eq_ok (Nat.zero_le _) hd
    have hne : ds ≠ [] := by
      rintro rfl
      exact hlen rfl
    have hcat : mid.takeWhile (fun c => c != CR && c != LF) ++
        mid.dropWhile (fun c => c != CR && c != LF) = mid := takeWhile_append_dropWhile
    split at h
    · next a b tl hdrop =>
      split_ifs at h with hcrlf
      obtain ⟨rfl, rfl⟩ := hcrlf
      cases h
      rw [hdrop] at hcat
      refine ⟨_, ⟨hm, ds, mid.takeWhile (fun c => c != CR && c != LF), hne, hds, hnum, ?_, ?_, rfl⟩,
        ?_⟩
      · intro c hc
        refine hmid c ?_
        rw [← hcat, head?_append, hc]
        rfl
      · intro c hc
        simpa using mem_takeWhile_imp hc
      · conv_lhs => rw [← hcat]
        simp
    · cases h

inductive TrailerLines : Bytes → Prop
  | nil : TrailerLines [CR, LF]
  | cons {l ls : Bytes} : l ≠ [] → CR ∉ l → TrailerLines ls → TrailerLines (l ++ CR :: LF :: ls)

lemma scanTo_line (hcr : CR ∉ l) :
    scanTo (· == CR) (fun _ => false) Reject.badRequest (l ++ CR :: tl) = .ok l (CR :: tl) := by
  refine scanTo_append (by decide) fun c hc => ⟨?_, rfl⟩
  simpa using ne_of_mem_of_not_mem hc hcr

lemma trailerStep_line (hne : l ≠ []) (hcr : CR ∉ l) :
    trailerStep () (l ++ CR :: LF :: tl) = .ok (.inl ()) tl := by
  have hscan := @scanTo_line (LF :: tl) _ hcr
  cases l with
  | nil => exact absurd rfl hne
  | cons a l =>
    have ha : a ≠ CR := fun h => hcr (by simp [h])
    obtain ⟨b, tl', hb⟩ : ∃ b tl', l ++ CR :: LF :: tl = b :: tl' := by
      cases l with
      | nil | cons => exact ⟨_, _, rfl⟩
    rw [cons_append, hb] at hscan ⊢
    simp [trailerStep, ha, hscan]

lemma trailerStep_eq_ok {r : Unit ⊕ Unit} (h : trailerStep () xs = .ok r rest) :
    (r = .inr () ∧ xs = CR :: LF :: rest) ∨
      (r = .inl () ∧ ∃ l, l ≠ [] ∧ CR ∉ l ∧ xs = l ++ CR :: LF :: rest) := by
  unfold trailerStep at h
  split at h
  · next a b tl =>
    split_ifs at h with hcrlf
    · obtain ⟨rfl, rfl⟩ := hcrlf
      cases h
      exact .inl ⟨rfl, rfl⟩
    · split at h
      · next l x c tl' hscan =>
        split_ifs at h with hc
        cases h
        obtain ⟨hx, hgood, y, tl'', hy, hnotCR⟩ := scanTo_eq_ok hscan
        cases hy
        obtain rfl : x = CR := by simpa using hnotCR
        subst hc
        refine .inr ⟨rfl, l, ?_, ?_, hx⟩
        · rintro rfl
          cases hx
          exact hcrlf ⟨rfl, rfl⟩
        · intro hmem
          simpa using (hgood CR hmem).1
      · cases h
      · cases h
      · cases h
  · cases h

lemma progress_trailerStep (u : Unit) : (trailerStep u).Progress where
  shrinks := by
    intro xs rest r h
    obtain ⟨-, rfl⟩ | ⟨-, l, -, -, rfl⟩ := trailerStep_eq_ok h
    · exact ⟨[CR, LF], rfl⟩
    · exact ⟨l ++ [CR, LF], by simp⟩
  length_lt := by
    intro xs rest r h
    obtain ⟨-, rfl⟩ | ⟨-, l, -, -, rfl⟩ := trailerStep_eq_ok h
    · simp
    · simp
      omega

lemma readTrailers_append (h : TrailerLines t) (rest : Bytes) :
    readTrailers (t ++ rest) = .ok () rest := by
  unfold readTrailers
  induction h with
  | nil => rfl
  | @cons _ _ hne hcr _ ih =>
    rw [iterate_eq progress_trailerStep, append_assoc, cons_append, cons_append,
      trailerStep_line hne hcr]
    exact ih

lemma readTrailers_eq_ok {u : Unit} (h : readTrailers xs = .ok u rest) :
    ∃ t, TrailerLines t ∧ xs = t ++ rest := by
  refine iterate_induct progress_trailerStep
    (motive := fun _ xs _ rest => ∃ t, TrailerLines t ∧ xs = t ++ rest) ?_ ?_ h
  · intro s xs a rest hb
    obtain ⟨-, rfl⟩ | ⟨hr, -⟩ := trailerStep_eq_ok hb
    · exact ⟨_, .nil, rfl⟩
    · cases hr
  · rintro s xs s' mid a rest hb ⟨t, ht, rfl⟩
    obtain ⟨hr, -⟩ | ⟨-, l, hne, hcr, rfl⟩ := trailerStep_eq_ok hb
    · cases hr
    · exact ⟨_, .cons hne hcr ht, by simp⟩

namespace Cursor

@[simp] lemma skip_body (c : Cursor) (n : ℕ) : (c.skip n).body = c.body := rfl

@[simp] lemma skip_rest (c : Cursor) (n : ℕ) : (c.skip n).rest = c.rest.drop n := rfl

@[simp] lemma move_body (c : Cursor) (n : ℕ) : (c.move n).body = c.body ++ c.rest.take n := rfl

@[simp] lemma move_rest (c : Cursor) (n : ℕ) : (c.move n).rest = c.rest.drop n := rfl

@[simp] lemma skip_bytes (c : Cursor) (n : ℕ) : (c.skip n).bytes = c.bytes := by
  simp [skip, bytes]

lemma move_bytes (c : Cursor) (hn : n ≤ c.rest.length) :
    (c.move n).bytes = memmove c.bytes c.body.length (c.body.length + c.gap.length) n := by
  have h1 : c.bytes.take c.body.length = c.body := by
    simp [bytes, append_assoc]
  have h2 : c.bytes.drop (c.body.length + c.gap.length) = c.rest := by
    rw [bytes, ← length_append, drop_left]
  have h3 : c.bytes.drop (c.body.length + n) = (c.gap ++ c.rest.take n).drop n ++
    c.rest.drop n := by
    rw [bytes, append_assoc, ← drop_drop, drop_left]
    conv_lhs => rw [← take_append_drop n c.rest, ← append_assoc]
    rw [drop_append_of_le_length (by simp; omega)]
  rw [memmove, h1, h2, h3, move, bytes]
  simp

lemma move_length (c : Cursor) (hn : n ≤ c.rest.length) :
    (c.move n).bytes.length = c.bytes.length := by
  simp [move, bytes]
  omega

end Cursor

/-- `enc` encodes `body` in chunks within the size limit, when `w` bytes of body have already been
written. -/
inductive Chunks (maxBody : ℕ) : ℕ → Bytes → Bytes → Prop
  | last {w : ℕ} {line t : Bytes} : SizeLine 0 line → TrailerLines t →
      Chunks maxBody w [] (line ++ t)
  | chunk {w n : ℕ} {line data body enc : Bytes} : SizeLine n line → 0 < n → n ≤ maxBody →
      wrap (w + n) ≤ maxBody → data.length = n → Chunks maxBody (w + n) body enc →
      Chunks maxBody w (data ++ body) (line ++ (data ++ CR :: LF :: enc))

lemma decodeChunks_chunk {data : Bytes}
    (hline : SizeLine n line) (hpos : 0 < n) (hmax : n ≤ maxBody)
    (hsum : wrap (c.body.length + n) ≤ maxBody) (hdata : data.length = n)
    (hrest : c.rest = line ++ (data ++ CR :: LF :: rest)) :
    ∃ c', decodeChunks maxBody (fuel + 1) c = decodeChunks maxBody fuel c' ∧
      c'.body = c.body ++ data ∧ c'.rest = rest ∧ c'.bytes.length = c.bytes.length := by
  have hskip : (c.skip line.length).rest = data ++ CR :: LF :: rest := by simp [hrest]
  have hmove : ((c.skip line.length).move n).rest = CR :: LF :: rest := by
    rw [move_rest, hskip, ← hdata, drop_left]
  refine ⟨((c.skip line.length).move n).skip 2, ?_, ?_, ?_, ?_⟩
  · have hlen : c.rest.length - (data ++ CR :: LF :: rest).length = line.length := by
      simp [hrest]
    have hlong : n + 2 ≤ (data ++ CR :: LF :: rest).length := by
      simp [hdata]
    have hwrap : wrap (n + 2) ≤ n + 2 := Nat.mod_le _ _
    rw [decodeChunks, hrest, readChunkSize_append hline, ← hrest]
    simp only [hlen]
    rw [if_neg (by omega), if_neg (by omega), if_neg (by omega), if_neg (by omega),
      if_neg (by omega), if_pos (by rw [hmove]; rfl)]
  · rw [skip_body, move_body, skip_body, hskip, ← hdata, take_left]
  · rw [skip_rest, hmove]
    rfl
  · rw [skip_bytes, move_length _ (by rw [hskip]; simp [hdata]), skip_bytes]

lemma decodeChunks_last
    (hline : SizeLine 0 line) (ht : TrailerLines t) (hrest : c.rest = line ++ (t ++ rest)) :
    ∃ c', decodeChunks maxBody (fuel + 1) c = .done c' ∧ c'.body = c.body ∧ c'.rest = rest ∧
      c'.bytes = c.bytes := by
  refine ⟨(c.skip line.length).skip t.length, ?_, rfl, by simp [hrest], by simp⟩
  have hlen : c.rest.length - (t ++ rest).length = line.length := by simp [hrest]
  rw [decodeChunks, hrest, readChunkSize_append hline, ← hrest]
  simp only [hlen, if_true, readTrailers_append ht]
  simp

lemma decodeChunks_of_chunks {w : ℕ} {body enc : Bytes}
    (h : Chunks maxBody w body enc) (hw : c.body.length = w) (hrest : c.rest = enc ++ rest)
    (hfuel : enc.length < fuel) :
    ∃ c', decodeChunks maxBody fuel c = .done c' ∧ c'.body = c.body ++ body ∧ c'.rest = rest ∧
      c'.bytes.length = c.bytes.length := by
  induction h generalizing fuel c with
  | @last w line t hline ht =>
    obtain ⟨fuel, rfl⟩ : ∃ k, fuel = k + 1 := ⟨fuel - 1, by omega⟩
    obtain ⟨c', h1, h2, h3, h4⟩ := @decodeChunks_last maxBody rest c fuel line t hline ht
      (by rw [hrest, append_assoc])
    exact ⟨c', h1, by simp [h2], h3, by rw [h4]⟩
  | @chunk _ n line data _ enc hline hpos hmax hsum hdata _ ih =>
    obtain ⟨fuel, rfl⟩ : ∃ k, fuel = k + 1 := ⟨fuel - 1, by omega⟩
    obtain ⟨c1, h1, h2, h3, h4⟩ := @decodeChunks_chunk n maxBody (enc ++ rest) c fuel line data
      hline hpos hmax (hw ▸ hsum) hdata (by rw [hrest]; simp)
    obtain ⟨c', h5, h6, h7, h8⟩ := @ih c1 fuel (by rw [h2, length_append, hw, hdata]) h3
      (by simp at hfuel; omega)
    exact ⟨c', by rw [h1, h5], by rw [h6, h2, append_assoc], h7, by rw [h8, h4]⟩

lemma decodeChunks_eq_done {c' : Cursor} (h : decodeChunks maxBody fuel c = .done c') :
    ∃ body enc, Chunks maxBody c.body.length body enc ∧ c.rest = enc ++ c'.rest ∧
      c'.body = c.body ++ body := by
  induction fuel generalizing c with
  | zero => cases h
  | succ _ ih =>
    rw [decodeChunks] at h
    cases hs : readChunkSize c.rest with
    | more | fail => rw [hs] at h; cases h
    | ok n rest =>
      obtain ⟨line, hline, hrest⟩ := readChunkSize_eq_ok hs
      have hlen : c.rest.length - rest.length = line.length := by simp [hrest]
      have hskip : (c.skip line.length).rest = rest := by simp [hrest]
      simp only [hs, hlen] at h
      by_cases hn : n = 0
      · subst hn
        simp only [if_true] at h
        cases ht : readTrailers rest with
        | more | fail => rw [ht] at h; cases h
        | ok =>
          obtain ⟨t, htl, rfl⟩ := readTrailers_eq_ok ht
          rw [ht] at h
          cases h
          refine ⟨[], _, .last hline htl, ?_, by simp⟩
          rw [skip_rest, hskip, hrest]
          simp
      · simp only [hn, if_false] at h
        split_ifs at h with h1 h2 h3 h4 h5
        -- the chunk is complete: its data has been moved, and the loop goes on behind it
        obtain ⟨body, enc, hch, henc, hbody⟩ := ih h
        rw [move_rest, hskip] at h5
        have hdata : (rest.take n).length = n := by simp; omega
        have hcrlf : rest.drop n = CR :: LF :: rest.drop (n + 2) := by
          rw [← take_append_drop 2 (rest.drop n), h5, drop_drop]
          rfl
        refine ⟨rest.take n ++ body, line ++ (rest.take n ++ CR :: LF :: enc),
          .chunk hline (by omega) (by omega) (by omega) hdata ?_, ?_, ?_⟩
        · rwa [skip_body, move_body, hskip, skip_body, length_append, hdata] at hch
        · have henc' : rest.drop (n + 2) = enc ++ c'.rest := by
            rw [← henc, skip_rest, move_rest, hskip, drop_drop]
          rw [hrest, ← take_append_drop n rest, hcrlf, henc']
          simp [hdata]
        · rw [hbody, skip_body, move_body, hskip, skip_body, append_assoc]

def ChunkEnd.length (n : ℕ) : ChunkEnd → ℕ
  | .needMore c | .reject _ c | .done c => c.bytes.length
  | .outOfBounds => n

lemma length_decodeChunks (maxBody fuel : ℕ) (c : Cursor) :
    (decodeChunks maxBody fuel c).length c.bytes.length = c.bytes.length := by
  induction fuel generalizing c with
  | zero => rfl
  | succ fuel ih =>
    rw [decodeChunks]
    cases hsize : readChunkSize c.rest with
    | more | fail => rfl
    | ok size rest =>
      obtain ⟨line, -, hrest⟩ := readChunkSize_eq_ok hsize
      have hmove (hroom : ¬ rest.length < size + 2) :
          ((c.skip (c.rest.length - rest.length)).move size).bytes.length = c.bytes.length := by
        rw [Cursor.move_length _ (by simp [hrest]; omega), Cursor.skip_bytes]
      dsimp only
      split_ifs with hzero hbig hsum hmore hroom hend
      · cases readTrailers rest <;> simp [ChunkEnd.length]
      · simp [ChunkEnd.length]
      · simp [ChunkEnd.length]
      · simp [ChunkEnd.length]
      · rfl
      · have hskip := ih (((c.skip (c.rest.length - rest.length)).move size).skip 2)
        rwa [Cursor.skip_bytes, hmove hroom] at hskip
      · exact hmove hroom

end SpidoNG.Http
