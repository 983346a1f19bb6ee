import SpidoNG.Http.Chunked
import SpidoNG.Http.Connection
import SpidoNG.Http.Head

/-!
# Pipelined requests and receive boundaries

The request head and a body of known length are read by stable readers.
-/

namespace SpidoNG.Http

open Bytes Incremental Incremental.Reader

lemma stable_readMethod : readMethod.Stable :=
  (stable_scanTo _ _ _).bind fun m => by
    split_ifs
    · exact stable_reject _
    · exact stable_symbol.bind fun _ => stable_pure _

lemma stable_readTarget : readTarget.Stable :=
  (stable_scanTo _ _ _).bind fun _ => stable_symbol.bind fun _ => stable_pure _

lemma stable_readVersion : readVersion.Stable where
  fail_append := by
    intro xs e ys h
    unfold readVersion at h ⊢
    have hlen : (xs ++ ys).length = xs.length + ys.length := List.length_append
    have hcr : CR ∈ xs → CR ∈ xs ++ ys := fun h => List.mem_append_left ys h
    split_ifs at h with h1 h2 h3 h4 h5 h6
    · -- a carriage return among the first bytes: no version can come of it
      cases h
      by_cases h7 : (xs ++ ys).length < 8
      · rw [if_pos h7, if_pos (hcr h2)]
      · rw [if_neg h7, if_pos, if_pos (hcr h2)]
        have hmem : CR ∈ (xs ++ ys).take 8 := by
          rw [List.take_append, List.take_of_length_le h1.le]
          exact List.mem_append_left _ h2
        constructor <;> intro heq <;> rw [heq] at hmem <;> exact absurd hmem (by decide)
    · cases h
      have h8 : (xs ++ ys).take 8 = xs.take 8 := List.take_append_of_le_length (by omega)
      rw [if_neg (by omega), h8, if_pos h3, if_pos (hcr h4)]
    · cases h
      have h8 : (xs ++ ys).take 8 = xs.take 8 := List.take_append_of_le_length (by omega)
      have h9 : ((xs ++ ys).drop 8).take 2 = (xs.drop 8).take 2 := by
        rw [List.drop_append_of_le_length (by omega),
          List.take_append_of_le_length (by simp; omega)]
      rw [if_neg (by omega), h8, if_neg h3, if_neg (by omega), h9, if_pos h6]
  ok_append := by
    intro xs rest v ys h
    obtain ⟨rfl, hv⟩ := readVersion_eq_ok h
    rw [List.append_assoc, List.cons_append, List.cons_append]
    exact readVersion_append hv

lemma stable_readValue : readValue.Stable where
  fail_append := by
    intro xs e ys h
    unfold readValue at h
    cases hs : scanTo (· == CR) (fun _ => false) Reject.badRequest (xs.dropWhile isBlank) with
    | more | ok => rw [hs] at h; cases h
    | fail => exact absurd hs scanTo_ne_fail
  ok_append := by
    intro xs rest v ys h
    obtain ⟨w, hw, rfl⟩ := readValue_eq_ok h
    have hne : xs.dropWhile isBlank ≠ [] := by
      intro h0
      rw [h0] at hw
      cases hw
    have happ : (xs ++ ys).dropWhile isBlank = xs.dropWhile isBlank ++ ys := by
      rw [List.dropWhile_append, if_neg (by simpa using hne)]
    unfold readValue
    rw [happ, (stable_scanTo _ _ _).ok_append ys hw]

lemma stable_readLF : readLF.Stable :=
  stable_symbol.bind fun c => by
    split_ifs
    · exact stable_pure _
    · exact stable_reject _

lemma stable_readHeaderLine : readHeaderLine.Stable :=
  (stable_scanTo _ _ _).bind fun _ => stable_symbol.bind fun _ => stable_readValue.bind fun _ =>
    stable_symbol.bind fun _ => stable_readLF.bind fun _ => stable_pure _

lemma stable_headerStep (maxBody : ℕ) (s : Head) : (headerStep maxBody s).Stable :=
  stable_peek.bind fun c => by
    split_ifs
    · exact stable_symbol.bind fun _ => stable_readLF.bind fun _ => stable_pure _
    · refine stable_readHeaderLine.bind fun h => ?_
      cases addHeader maxBody s h with
      | error e => exact stable_reject e
      | ok => exact stable_pure _

lemma stable_readHead (maxBody : ℕ) : (readHead maxBody).Stable :=
  stable_readMethod.bind fun _ => stable_readTarget.bind fun _ => stable_readVersion.bind fun _ =>
    stable_iterate (progress_headerStep maxBody) (stable_headerStep maxBody) _

def readPlain (maxBody : ℕ) : Reader (Option Reject) UInt8 Request := do
  let h ← (readHead maxBody).mapFail some
  if h.hasTeChunked then reject (if h.hasCl then some .badRequest else none)
  else if h.hasCl then
    if h.contentLength > maxBody then reject (some .tooLarge)
    else do
      let body ← count h.contentLength
      pure (h.request body)
  else pure (h.request [])

lemma stable_readPlain (maxBody : ℕ) : (readPlain maxBody).Stable :=
  (stable_readHead maxBody).mapFail.bind fun h => by
    split_ifs
    · exact stable_reject _
    · exact stable_reject _
    · exact stable_reject _
    · exact (stable_count _).bind fun _ => stable_pure _
    · exact stable_pure _

lemma progress_readPlain (maxBody : ℕ) : (readPlain maxBody).Progress :=
  (progress_readHead maxBody).mapFail.bind fun h => by
    split_ifs
    · exact shrinks_reject _
    · exact shrinks_reject _
    · exact shrinks_reject _
    · exact Shrinks.bind (shrinks_count _) fun _ => shrinks_pure _
    · exact shrinks_pure _

def resultOf (data : Bytes) : Outcome (Option Reject) UInt8 Request → Result
  | .more => .needMore
  | .fail none => .outOfBounds
  | .fail (some e) => e.result
  | .ok req rest => .done req (data.length - rest.length)

variable {maxBody : UInt64} {xs : Bytes}

lemma parse_eq_readPlain {data : Bytes} (h : readPlain maxBody.toNat data ≠ .fail none) :
    parse data maxBody = (resultOf data (readPlain maxBody.toNat data), data) := by
  unfold readPlain at h ⊢
  unfold parse
  cases hh : readHead maxBody.toNat data with
  | more | fail => simp [bind_apply, mapFail, hh, resultOf]
  | ok hd rest =>
    have hlen := ((progress_readHead maxBody.toNat).shrinks hh).length_le
    have hmap : (readHead maxBody.toNat).mapFail some data = .ok hd rest := by
      simp [mapFail, hh]
    rw [bind_of_ok hmap] at h ⊢
    simp only [parseBody]
    by_cases hte : hd.hasTeChunked
    · by_cases hcl : hd.hasCl
      · simp [hte, hcl, resultOf, Reject.result]
      · simp [hte, hcl] at h
    · by_cases hcl : hd.hasCl
      · by_cases hbig : hd.contentLength > maxBody.toNat
        · simp [hte, hcl, hbig, resultOf, Reject.result]
        · by_cases hlong : rest.length < hd.contentLength
          · simp [hte, hcl, hbig, hlong, resultOf, bind_apply, count]
          · simp only [hte, hcl, hbig, hlong, resultOf, bind_apply, count, Bool.false_and,
              Bool.false_eq_true, if_false, if_true, pure_apply, List.length_drop]
            rw [show data.length - rest.length + hd.contentLength =
              data.length - (rest.length - hd.contentLength) by omega]
      · simp [hte, hcl, resultOf]

def stopOf : Verdict (Option Reject) → Stop
  | .more => .needMore
  | .fail none => .outOfBounds
  | .fail (some .badRequest) => .badRequest
  | .fail (some .tooLarge) => .tooLarge
  | .closed => .closed

def served (d : Drained (Option Reject) UInt8 Request) : Processed :=
  ⟨d.items, stopOf d.verdict, d.rest⟩

def lastRequest (req : Request) : Bool := !req.keepAlive

lemma processFor_eq_drainFor {n : ℕ}
    (h : (drainFor (readPlain maxBody.toNat) lastRequest n xs).verdict ≠ .fail none) :
    processFor maxBody n xs = served (drainFor (readPlain maxBody.toNat) lastRequest n xs) := by
  induction n generalizing xs with
  | zero => rfl
  | succ n ih =>
    rw [drainFor] at h ⊢
    rw [processFor]
    cases hr : readPlain maxBody.toNat xs with
    | more => simp [parse_eq_readPlain, hr, resultOf, served, stopOf]
    | fail e =>
      rw [hr] at h
      cases e with
      | none => exact absurd rfl h
      | some e =>
        rw [parse_eq_readPlain (by simp [hr]), hr]
        cases e <;> rfl
    | ok req rest =>
      rw [hr] at h
      have hsuf : xs.drop (xs.length - rest.length) = rest :=
        (List.suffix_iff_eq_drop.1 ((progress_readPlain maxBody.toNat).shrinks hr)).symm
      rw [parse_eq_readPlain (by simp [hr]), hr]
      simp only [resultOf, hsuf, lastRequest] at h ⊢
      by_cases hk : req.keepAlive
      · simp only [hk, Bool.not_true, Bool.false_eq_true, if_false, if_true] at h ⊢
        rw [ih h]
        rfl
      · simp [hk, served, stopOf]

lemma processInput_eq_drain
    (h : (drain (readPlain maxBody.toNat) lastRequest xs).verdict ≠ .fail none) :
    processInput maxBody xs = served (drain (readPlain maxBody.toNat) lastRequest xs) :=
  processFor_eq_drainFor h

lemma receiveAll_eq_feedAll {pieces : List Bytes}
    (h : (feedAll (readPlain maxBody.toNat) lastRequest pieces).verdict ≠ .fail none) :
    receiveAll maxBody pieces = served (feedAll (readPlain maxBody.toNat) lastRequest pieces) := by
  induction pieces using List.reverseRecOn with
  | nil => rfl
  | append_singleton pieces piece ih =>
    have hfeed : feedAll (readPlain maxBody.toNat) lastRequest (pieces ++ [piece]) =
        feed (readPlain maxBody.toNat) lastRequest
          (feedAll (readPlain maxBody.toNat) lastRequest pieces) piece := by
      simp [feedAll, List.foldl_append]
    have hrecv : receiveAll maxBody (pieces ++ [piece]) =
        handleRecv maxBody (receiveAll maxBody pieces) piece := by
      simp [receiveAll, List.foldl_append]
    rw [hfeed] at h ⊢
    rw [hrecv]
    generalize feedAll (readPlain maxBody.toNat) lastRequest pieces = d at *
    obtain ⟨items, verdict, rest⟩ := d
    cases verdict with
    | more =>
      rw [ih (by simp)]
      simp only [feed, handleRecv, served, stopOf] at h ⊢
      rw [processInput_eq_drain h]
      rfl
    | closed =>
      rw [ih (by simp)]
      rfl
    | fail e =>
      rw [ih h]
      cases e with
      | none => exact absurd rfl h
      | some e => cases e <;> rfl

def NextRequest (maxBody : UInt64) (xs ys : Bytes) : Prop :=
  ∃ req used input, parse xs maxBody = (.done req used, input) ∧ req.keepAlive = true ∧
    ys = input.drop used

def NoTransferEncoding (maxBody : UInt64) (stream : Bytes) : Prop :=
  ∀ xs, Relation.ReflTransGen (NextRequest maxBody) stream xs →
    ∀ l hs head rest, RequestHead l hs head → xs = head ++ rest →
      ∀ h ∈ hs, headerKind h.name ≠ .TransferEncoding

lemma readPlain_ne_none {maxBody : ℕ}
    (h : ∀ l hs head rest, RequestHead l hs head → xs = head ++ rest →
      ∀ h ∈ hs, headerKind h.name ≠ .TransferEncoding) : readPlain maxBody xs ≠ .fail none := by
  intro hr
  obtain h1 | ⟨hd, mid, h1, h2⟩ := bind_eq_fail hr
  · unfold mapFail at h1
    cases hh : readHead maxBody xs <;> rw [hh] at h1 <;> cases h1
  · obtain ⟨l, hs, head, hhead, hx, hadd⟩ := readHead_eq_ok (mapFail_eq_ok h1)
    have hte : hd.hasTeChunked = false := by
      rw [addHeaders_hasTeChunked hadd]
      simpa [RequestLine.start] using h l hs head mid hhead hx
    rw [hte] at h2
    simp only [Bool.false_eq_true, if_false] at h2
    split_ifs at h2
    · cases h2
    · obtain h3 | ⟨body, mid', -, h4⟩ := bind_eq_fail h2
      · unfold count at h3
        split_ifs at h3
      · cases h4
    · cases h2

lemma NoTransferEncoding.verdict {stream : Bytes} (h : NoTransferEncoding maxBody stream) :
    (drain (readPlain maxBody.toNat) lastRequest stream).verdict ≠ .fail none := by
  induction hn : stream.length using Nat.strong_induction_on generalizing stream with
  | _ n ih =>
    have hfirst : readPlain maxBody.toNat stream ≠ .fail none :=
      readPlain_ne_none (h stream Relation.ReflTransGen.refl)
    rw [drain_eq (progress_readPlain maxBody.toNat)]
    cases hr : readPlain maxBody.toNat stream with
    | more => simp
    | fail =>
      rw [hr] at hfirst
      simpa using hfirst
    | ok req rest =>
      have hsuf : stream.drop (stream.length - rest.length) = rest :=
        (List.suffix_iff_eq_drop.1 ((progress_readPlain maxBody.toNat).shrinks hr)).symm
      simp only [lastRequest]
      by_cases hk : req.keepAlive
      · have hnext : NextRequest maxBody stream rest :=
          ⟨req, _, _, by rw [parse_eq_readPlain hfirst, hr]; rfl, hk, hsuf.symm⟩
        have hrest : NoTransferEncoding maxBody rest := fun xs hxs =>
          h xs (Relation.ReflTransGen.head hnext hxs)
        simpa [hk] using ih rest.length (hn ▸ (progress_readPlain _).length_lt hr) hrest rfl
      · simp [hk]

lemma NoTransferEncoding.of_next
    (hfirst : ∀ l hs head rest, RequestHead l hs head → xs = head ++ rest →
      ∀ h ∈ hs, headerKind h.name ≠ .TransferEncoding)
    (hnext : ∀ ys, NextRequest maxBody xs ys → NoTransferEncoding maxBody ys) :
    NoTransferEncoding maxBody xs := by
  intro ys hys
  rcases Relation.ReflTransGen.cases_head hys with rfl | ⟨zs, hzs, hrest⟩
  · exact hfirst
  · exact hnext zs hzs ys hrest

lemma noTransferEncoding_nil (maxBody : UInt64) : NoTransferEncoding maxBody [] := by
  refine NoTransferEncoding.of_next ?_ ?_
  · rintro l hs head rest ⟨-, lines, -, rfl⟩ hnil
    simp at hnil
  · rintro ys ⟨req, used, input, hp, -⟩
    exact absurd (congrArg Prod.fst hp) (by simp [parse, readHead, readMethod, bind_apply, scanTo])

/-- **Receive boundaries are invisible.** On a stream without transfer encodings a connection
serves the same requests, and ends with the same verdict, however the stream is cut. -/
theorem receiveAll_eq_processInput (maxBody : UInt64) (pieces : List Bytes)
    (h : NoTransferEncoding maxBody pieces.flatten) :
    (receiveAll maxBody pieces).requests = (processInput maxBody pieces.flatten).requests ∧
      (receiveAll maxBody pieces).stop = (processInput maxBody pieces.flatten).stop := by
  have hv := h.verdict
  obtain ⟨hitems, hverdict, -⟩ := @feedAll_eq_drain _ _ _ _ lastRequest
    (progress_readPlain maxBody.toNat) (stable_readPlain maxBody.toNat) rfl pieces
  rw [processInput_eq_drain hv, receiveAll_eq_feedAll (by rw [hverdict]; exact hv)]
  exact ⟨hitems, by rw [served, hverdict]; rfl⟩

theorem receiveAll_cut_version :
    NoTransferEncoding 100 (List.flatten [str "GET / HT", str "TP/1.1\r\n\r\n"]) ∧
      (receiveAll 100 [str "GET / HT", str "TP/1.1\r\n\r\n"]).stop =
        (processInput 100 (List.flatten [str "GET / HT", str "TP/1.1\r\n\r\n"])).stop := by
  have hno : NoTransferEncoding 100 (List.flatten [str "GET / HT", str "TP/1.1\r\n\r\n"]) := by
    refine NoTransferEncoding.of_next ?_ ?_
    · intro l hs head rest hhead hx h hmem
      have hread := @readHead_of_requestHead 100 _ _ _ hhead rest
      rw [← hx] at hread
      have hnil : [] = hs := (headers_of_outcome hread.symm).1
      simp [← hnil] at hmem
    · rintro ys ⟨req, used, input, hp, -, rfl⟩
      cases hp
      exact noTransferEncoding_nil 100
  exact ⟨hno, (receiveAll_eq_processInput 100 _ hno).2⟩

lemma length_parse (data : Bytes) (maxBody : UInt64) :
    (parse data maxBody).2.length = data.length := by
  unfold parse
  cases hread : readHead maxBody.toNat data with
  | more | fail => rfl
  | ok h rest =>
    obtain ⟨l, hs, head, -, rfl, -⟩ := readHead_eq_ok hread
    have hleft := length_decodeChunks maxBody.toNat (rest.length + 1) ⟨[], [], rest⟩
    dsimp only [parseBody]
    split_ifs
    · rfl
    · cases hd : decodeChunks maxBody.toNat (rest.length + 1) ⟨[], [], rest⟩ <;>
        simp_all [ChunkEnd.length, Cursor.bytes]
    all_goals rfl

lemma length_processFor (maxBody : UInt64) (n : ℕ) (input : Bytes) :
    (processFor maxBody n input).input.length ≤ input.length := by
  induction n generalizing input with
  | zero => exact le_rfl
  | succ n ih =>
    have hparse := length_parse input maxBody
    unfold processFor
    cases hp : parse input maxBody with
    | mk res input' =>
      rw [hp] at hparse
      dsimp only at hparse
      cases res with
      | done req used =>
        have hdrop : (input'.drop used).length ≤ input.length := by
          rw [List.length_drop]
          omega
        dsimp only
        split_ifs
        · exact (ih _).trans hdrop
        · exact hdrop
      | _ => exact hparse.le

end SpidoNG.Http
