import Mathlib.Data.Nat.Bitwise
import SpidoNG.Lib.FrameLog
import SpidoNG.Lib.LittleEndian

/-!
# Records of the write-ahead log

The records of `spido_pg/wal.h` and their layout in the file (`spido-pg/src/wal.cpp`).
-/

namespace SpidoNG.Wal

open LittleEndian FrameLog List

structure WalOp where
  code : UInt8
  deriving DecidableEq

namespace WalOp

def Insert : WalOp := ⟨1⟩
def Update : WalOp := ⟨2⟩
def Upsert : WalOp := ⟨3⟩
def Delete : WalOp := ⟨4⟩
def EventAppend : WalOp := ⟨5⟩
def Tombstone : WalOp := ⟨6⟩

end WalOp

structure WalRecord where
  endpointId : UInt64 := 0
  tableId : UInt64 := 0
  op : WalOp := WalOp.Insert
  primaryKey : Bytes := []
  rowBytes : Bytes := []
  rowVersion : UInt64 := 0
  idempotencyKey : Bytes := []
  timestamp : Int64 := 0
  deriving DecidableEq

def crcPoly : UInt32 := 0x82F63B78

def crcShift (crc : UInt32) : UInt32 := (crc >>> 1) ^^^ (crcPoly &&& (0 - (crc &&& 1)))

def crc32cByte (crc : UInt32) (b : UInt8) : UInt32 := crcShift^[8] (crc ^^^ b.toUInt32)

def crc32c (data : Bytes) : UInt32 := data.foldl crc32cByte 0xFFFFFFFF ^^^ 0xFFFFFFFF

section Checksum

open UInt32

lemma toNat_crcShift (c : UInt32) :
    (crcShift c).toNat = (c.toNat / 2) ^^^ (crcPoly.toNat * (c.toNat % 2)) := by
  have hbit : c &&& 1 = ofNat (c.toNat % 2) :=
    UInt32.toNat_inj.1 (by simp [Nat.and_one_is_mod]; omega)
  have hhalf : (c >>> 1).toNat = c.toNat / 2 := by simp [Nat.shiftRight_eq_div_pow]
  rw [crcShift, hbit, UInt32.toNat_xor, hhalf]
  rcases Nat.mod_two_eq_zero_or_one c.toNat with h | h <;> rw [h] <;> rfl

lemma crcShift_injective : Function.Injective crcShift := by
  intro c d h
  -- the highest bit of the polynomial tells what the lowest bit of the register was
  have hbit (c : UInt32) : (crcShift c).toNat / 2 ^ 31 = c.toNat % 2 := by
    have := c.toNat_lt
    rw [toNat_crcShift, Nat.xor_div_two_pow, Nat.div_eq_of_lt (by omega), Nat.zero_xor]
    rcases Nat.mod_two_eq_zero_or_one c.toNat with h | h <;> rw [h] <;> rfl
  have hmod : c.toNat % 2 = d.toNat % 2 := by rw [← hbit, h, hbit]
  have hnat := congrArg UInt32.toNat h
  rw [toNat_crcShift, toNat_crcShift, hmod] at hnat
  have hhalf := Nat.xor_left_injective hnat
  exact UInt32.toNat_inj.1 (by omega)

lemma crcShift_xor {m : ℕ} (hm : 2 * m < 2 ^ 32) (c : UInt32) :
    crcShift (c ^^^ ofNat (2 * m)) = crcShift c ^^^ ofNat m := by
  have hmod : (c.toNat ^^^ 2 * m) % 2 = c.toNat % 2 := by simp [Nat.xor_mod_two_eq]
  have hhalf : (c.toNat ^^^ 2 * m) / 2 = c.toNat / 2 ^^^ m := by simp [Nat.xor_div_two]
  rw [← UInt32.toNat_inj, toNat_crcShift, UInt32.toNat_xor, UInt32.toNat_xor, toNat_crcShift,
    toNat_ofNat_of_lt' hm, toNat_ofNat_of_lt' (lt_of_le_of_lt (by omega) hm), hmod, hhalf,
    Nat.xor_right_comm]

lemma crcShift_iterate_xor (k : ℕ) {m : ℕ} (hm : 2 ^ k * m < 2 ^ 32) (c : UInt32) :
    crcShift^[k] (c ^^^ ofNat (2 ^ k * m)) = crcShift^[k] c ^^^ ofNat m := by
  induction k generalizing c with
  | zero => simp
  | succ k ih =>
    rw [pow_succ', mul_assoc] at hm ⊢
    rw [Function.iterate_succ_apply, crcShift_xor hm, ih (by omega)]
    rfl

lemma getLE_lt_word {x : Bytes} (hx : x.length ≤ 4) : getLE x < 2 ^ 32 :=
  (getLE_lt x).trans_le (Nat.pow_le_pow_right (n := 256) (by decide) hx)

/-- Up to four bytes go into the register as one word. -/
lemma foldl_crc32cByte {x : Bytes} (hx : x.length ≤ 4) (c : UInt32) :
    x.foldl crc32cByte c = crcShift^[8 * x.length] (c ^^^ ofNat (getLE x)) := by
  induction x generalizing c with
  | nil => simp [getLE]
  | cons b x ih =>
    have hword := getLE_lt_word (x := b :: x) hx
    rw [getLE] at hword
    have hlt : 2 ^ 8 * getLE x < 2 ^ 32 := by omega
    have hbyte : ofNat (getLE (b :: x)) = b.toUInt32 ^^^ ofNat (2 ^ 8 * getLE x) := by
      have hb := b.toNat_lt
      have hmod := Nat.xor_mod_two_pow (a := b.toNat) (b := 2 ^ 8 * getLE x) (n := 8)
      have hdiv := Nat.xor_div_two_pow (a := b.toNat) (b := 2 ^ 8 * getLE x) (n := 8)
      rw [Nat.mul_mod_right, Nat.mod_eq_of_lt hb, Nat.xor_zero] at hmod
      rw [Nat.mul_div_cancel_left _ (by decide), Nat.div_eq_of_lt hb, Nat.zero_xor] at hdiv
      rw [← UInt32.toNat_inj, UInt32.toNat_xor, toNat_ofNat_of_lt' hlt,
        getLE, toNat_ofNat_of_lt' hword]
      change _ = b.toNat ^^^ 2 ^ 8 * getLE x
      omega
    rw [foldl_cons, ih (Nat.le_of_succ_le hx), crc32cByte, ← crcShift_iterate_xor 8 hlt, hbyte,
      UInt32.xor_assoc, ← Function.iterate_add_apply, length_cons, Nat.mul_succ]

lemma foldl_crc32cByte_injective (q : Bytes) : Function.Injective (q.foldl crc32cByte ·) := by
  induction q with
  | nil => exact Function.injective_id
  | cons b q ih =>
    intro c d h
    exact (xor_left_inj _).1 (crcShift_injective.iterate 8 (ih h))

/-- **The checksum tells apart** texts that differ in a window of four bytes only. -/
theorem crc32c_ne_of_burst {p x y q : Bytes} (hlen : x.length = y.length) (hfour : x.length ≤ 4)
    (hne : x ≠ y) : crc32c (p ++ x ++ q) ≠ crc32c (p ++ y ++ q) := by
  intro h
  have hfold := (xor_left_inj _).1 h
  rw [foldl_append, foldl_append, foldl_append, foldl_append] at hfold
  have hword := foldl_crc32cByte_injective q hfold
  have hlt := getLE_lt_word hfour
  rw [hlen] at hfour
  rw [foldl_crc32cByte (hlen ▸ hfour), foldl_crc32cByte hfour, hlen] at hword
  have hsame := congrArg UInt32.toNat ((xor_right_inj _).1 (crcShift_injective.iterate _ hword))
  rw [toNat_ofNat_of_lt' hlt, toNat_ofNat_of_lt' (getLE_lt_word hfour)] at hsame
  exact hne (getLE_inj hlen hsame)

theorem crc32c_ne_of_burst_word : crc32c ([1, 2] ++ [3, 4, 5, 6] ++ [7]) ≠
    crc32c ([1, 2] ++ [6, 5, 4, 3] ++ [7]) :=
  crc32c_ne_of_burst rfl (by decide) (by decide)

end Checksum

def putStr (s : Bytes) : Bytes := putLE 4 s.length ++ s

def toMicros (t : Int64) : ℤ := t.toInt.tdiv 1000

def encodeFixed (seq : ℕ) (rec : WalRecord) : Bytes :=
  putLE 8 seq ++ (putLE 8 rec.endpointId.toNat ++ (putLE 8 rec.tableId.toNat ++ (rec.op.code ::
    (putLE 8 rec.rowVersion.toNat ++ putLE 8 (toWord (toMicros rec.timestamp))))))

def encodeBody (seq : ℕ) (rec : WalRecord) : Bytes :=
  encodeFixed seq rec ++
    (putStr rec.primaryKey ++ (putStr rec.idempotencyKey ++ putStr rec.rowBytes))

def encode (checksum : Bool) (seq : ℕ) (rec : WalRecord) : Bytes :=
  let body := encodeBody seq rec
  let crc := if checksum then crc32c body else 0
  putLE 4 (8 + body.length) ++ (putLE 4 crc.toNat ++ body)

def pread (data : Bytes) (n off : ℕ) : Bytes := (data.drop off).take n

lemma length_pread (data : Bytes) (n off : ℕ) :
    (pread data n off).length = min n (data.length - off) := by
  simp [pread]

def readStr (xs : Bytes) : Option (Bytes × Bytes) :=
  if xs.length < 4 then none
  else
    let len := getLE (xs.take 4)
    let rest := xs.drop 4
    if rest.length < len then none else some (rest.take len, rest.drop len)

/-- What comes of a frame: a record, the end of the scan, or fixed fields read past the end of the
body, which `replay` does not check. -/
inductive Decoded
  | record (total seq : ℕ) (rec : WalRecord)
  | stop
  | outOfBounds
  deriving DecidableEq

def decodeBody (total : ℕ) (body : Bytes) : Decoded :=
  if body.length < 41 then .outOfBounds
  else
    match readStr (body.drop 41) with
    | none => .stop
    | some (primaryKey, rest) =>
      match readStr rest with
      | none => .stop
      | some (idempotencyKey, rest) =>
        match readStr rest with
        | none => .stop
        | some (rowBytes, _) =>
          .record total (getLE (body.take 8))
            { endpointId := UInt64.ofNat (getLE ((body.drop 8).take 8))
              tableId := UInt64.ofNat (getLE ((body.drop 16).take 8))
              op := ⟨(body.drop 24).headD 0⟩
              rowVersion := UInt64.ofNat (getLE ((body.drop 25).take 8))
              timestamp := Int64.ofInt (ofWord (getLE ((body.drop 33).take 8)) * 1000)
              primaryKey := primaryKey
              idempotencyKey := idempotencyKey
              rowBytes := rowBytes }

def readFrame (checksum : Bool) (data : Bytes) (cur off : ℕ) : Decoded :=
  let hdr := pread data 8 off
  if hdr.length ≠ 8 then .stop
  else
    let total := getLE (hdr.take 4)
    let crc := getLE (hdr.drop 4)
    if total < 8 ∨ off + total > cur then .stop
    else
      let body := pread data (total - 8) (off + 8)
      if body.length ≠ total - 8 then .stop
      else if checksum ∧ (crc32c body).toNat ≠ crc then .stop
      else decodeBody total body

def frameSize (rec : WalRecord) : ℕ :=
  61 + rec.primaryKey.length + rec.idempotencyKey.length + rec.rowBytes.length

@[simp] lemma length_putStr (s : Bytes) : (putStr s).length = 4 + s.length := by simp [putStr]

@[simp] lemma length_encodeFixed (seq : ℕ) (rec : WalRecord) :
    (encodeFixed seq rec).length = 41 := by simp [encodeFixed]

lemma length_encodeBody (seq : ℕ) (rec : WalRecord) :
    (encodeBody seq rec).length + 8 = frameSize rec := by
  simp [encodeBody, frameSize]
  omega

lemma length_encode (checksum : Bool) (seq : ℕ) (rec : WalRecord) :
    (encode checksum seq rec).length = frameSize rec := by
  rw [← length_encodeBody seq rec]
  simp [encode]
  omega

def stored (rec : WalRecord) : WalRecord :=
  { rec with timestamp := Int64.ofInt (toMicros rec.timestamp * 1000) }

lemma readStr_putStr {s : Bytes} (hs : s.length < 2 ^ 32) (rest : Bytes) :
    readStr (putStr s ++ rest) = some (s, rest) := by
  have hlen : getLE ((putLE 4 s.length ++ (s ++ rest)).take 4) = s.length := by
    rw [take_left' (length_putLE 4 s.length), getLE_putLE_of_lt (by simpa using hs)]
  have hdrop : (putLE 4 s.length ++ (s ++ rest)).drop 4 = s ++ rest :=
    drop_left' (length_putLE 4 s.length)
  unfold readStr putStr
  rw [append_assoc, if_neg (by simp)]
  simp only [hlen, hdrop]
  rw [if_neg (by simp), take_left, drop_left]

lemma take_drop_append {pre mid rest : Bytes} {n k : ℕ} (hn : pre.length = n)
    (hk : mid.length = k) : ((pre ++ (mid ++ rest)).drop n).take k = mid := by
  rw [drop_left' hn, take_left' hk]

lemma natAbs_toMicros (t : Int64) : (toMicros t).natAbs * 1000 ≤ t.toInt.natAbs := by
  rw [toMicros, Int.natAbs_tdiv]
  exact Nat.div_mul_le_self _ _

lemma ofWord_toMicros (t : Int64) : ofWord (toWord (toMicros t)) = toMicros t := by
  have h1 := t.le_toInt
  have h2 := t.toInt_lt
  have h3 := natAbs_toMicros t
  apply ofWord_toWord <;> norm_num at * <;> omega

lemma getLE_word {n : ℕ} (h : n < 2 ^ 64) : getLE (putLE 8 n) = n :=
  getLE_putLE_of_lt (by simpa using h)

lemma decodeBody_encodeFixed {seq : ℕ} (hseq : seq < 2 ^ 64) (rec : WalRecord) (total : ℕ)
    {rest pk idem row tl tl' tl'' : Bytes} (h1 : readStr rest = some (pk, tl))
    (h2 : readStr tl = some (idem, tl')) (h3 : readStr tl' = some (row, tl'')) :
    decodeBody total (encodeFixed seq rec ++ rest) = .record total seq { stored rec with
        primaryKey := pk
        idempotencyKey := idem
        rowBytes := row } := by
  have f0 : (encodeFixed seq rec ++ rest).take 8 = putLE 8 seq := by
    rw [encodeFixed, append_assoc, take_left' (length_putLE 8 seq)]
  have f1 : ((encodeFixed seq rec ++ rest).drop 8).take 8 = putLE 8 rec.endpointId.toNat := by
    rw [encodeFixed, append_assoc, append_assoc]
    exact take_drop_append (length_putLE _ _) (length_putLE _ _)
  have f2 : ((encodeFixed seq rec ++ rest).drop 16).take 8 = putLE 8 rec.tableId.toNat := by
    have heq : encodeFixed seq rec ++ rest = (putLE 8 seq ++ putLE 8 rec.endpointId.toNat) ++
        (putLE 8 rec.tableId.toNat ++ (rec.op.code :: (putLE 8 rec.rowVersion.toNat ++
          (putLE 8 (toWord (toMicros rec.timestamp)) ++ rest)))) := by simp [encodeFixed]
    rw [heq]
    exact take_drop_append (by simp) (length_putLE _ _)
  have f3 : (encodeFixed seq rec ++ rest).drop 24 = rec.op.code :: (putLE 8 rec.rowVersion.toNat ++
      (putLE 8 (toWord (toMicros rec.timestamp)) ++ rest)) := by
    have heq : encodeFixed seq rec ++ rest = (putLE 8 seq ++ (putLE 8 rec.endpointId.toNat ++
        putLE 8 rec.tableId.toNat)) ++ (rec.op.code :: (putLE 8 rec.rowVersion.toNat ++
          (putLE 8 (toWord (toMicros rec.timestamp)) ++ rest))) := by simp [encodeFixed]
    rw [heq, drop_left' (by simp)]
  have f4 : ((encodeFixed seq rec ++ rest).drop 25).take 8 = putLE 8 rec.rowVersion.toNat := by
    rw [show 25 = 24 + 1 from rfl, ← drop_drop, f3, drop_one, tail_cons,
      take_left' (length_putLE _ _)]
  have f5 : ((encodeFixed seq rec ++ rest).drop 33).take 8 =
      putLE 8 (toWord (toMicros rec.timestamp)) := by
    rw [show 33 = 24 + 1 + 8 from rfl, ← drop_drop, ← drop_drop, f3, drop_one, tail_cons]
    exact take_drop_append (length_putLE _ _) (length_putLE _ _)
  unfold decodeBody
  rw [if_neg (by simp), drop_left' (length_encodeFixed seq rec), h1]
  simp only [h2, h3, f0, f1, f2, f3, f4, f5, headD_cons, getLE_word hseq,
    getLE_word (UInt64.toNat_lt _), getLE_word (toWord_lt _), ofWord_toMicros, UInt64.ofNat_toNat,
    stored]

lemma decodeBody_encodeBody {seq : ℕ} (hseq : seq < 2 ^ 64) {rec : WalRecord}
    (hsize : frameSize rec < 2 ^ 32) (total : ℕ) :
    decodeBody total (encodeBody seq rec) = .record total seq (stored rec) := by
  unfold frameSize at hsize
  have h3 : readStr (putStr rec.rowBytes) = some (rec.rowBytes, []) := by
    have := readStr_putStr (s := rec.rowBytes) (by omega) []
    rwa [append_nil] at this
  exact decodeBody_encodeFixed hseq rec total (readStr_putStr (by omega) _)
    (readStr_putStr (by omega) _) h3

def decodeFrame (checksum : Bool) (xs : Bytes) : Option ((ℕ × WalRecord) × ℕ) :=
  match readFrame checksum xs xs.length 0 with
  | .record total seq rec => some ((seq, rec), total)
  | _ => none

lemma readFrame_window (checksum : Bool) (data : Bytes) (cur off : ℕ) (h : off + 8 ≤ cur) :
    readFrame checksum data cur off =
      readFrame checksum ((data.take cur).drop off) ((data.take cur).drop off).length 0 := by
  have hdrop : (data.take cur).drop off = (data.drop off).take (cur - off) := drop_take ..
  have hheader : pread ((data.take cur).drop off) 8 0 = pread data 8 off := by
    rw [pread, pread, drop_zero, hdrop, take_take, min_eq_left (by omega)]
  unfold readFrame
  rw [hheader]
  by_cases hlen : (pread data 8 off).length ≠ 8
  · rw [if_pos hlen, if_pos hlen]
  rw [if_neg hlen, if_neg hlen]
  set total := getLE ((pread data 8 off).take 4) with htotal
  have hbody : ∀ _ : off + total ≤ cur, pread ((data.take cur).drop off) (total - 8) (0 + 8) =
      pread data (total - 8) (off + 8) := by
    intro hle
    rw [pread, pread, hdrop, drop_take, take_take, drop_drop, Nat.zero_add, min_eq_left (by omega)]
  have hwlen : ((data.take cur).drop off).length = min cur data.length - off := by simp
  have hplen := length_pread data (total - 8) (off + 8)
  have hlen' : 8 ≤ data.length - off := by
    rw [length_pread] at hlen
    omega
  by_cases hstop : total < 8 ∨ off + total > cur
  · rw [if_pos hstop, if_pos (by omega)]
  · rw [if_neg hstop]
    by_cases hshort : (pread data (total - 8) (off + 8)).length ≠ total - 8
    · rw [if_pos hshort, if_pos (by omega)]
    · have hin : ¬ (total < 8 ∨ 0 + total > ((data.take cur).drop off).length) := by omega
      rw [if_neg hshort, if_neg hin, hbody (by omega), if_neg hshort]

def recordCodec (checksum : Bool) : Codec (ℕ × WalRecord) (ℕ × WalRecord) where
  enc := fun p => encode checksum p.1 p.2
  dec := decodeFrame checksum
  view := fun p => (p.1, stored p.2)
  Valid := fun p => p.1 < 2 ^ 64 ∧ frameSize p.2 < 2 ^ 32
  enc_ne_nil := by
    rintro ⟨seq, rec⟩
    apply length_pos_iff.1
    rw [length_encode, frameSize]
    omega
  dec_enc := by
    rintro ⟨seq, rec⟩ ⟨hseq, hsize⟩ rest
    dsimp only at hseq hsize ⊢
    have hblen := length_encodeBody seq rec
    have hheader : pread (encode checksum seq rec ++ rest) 8 0 =
        putLE 4 (8 + (encodeBody seq rec).length) ++
          putLE 4 (if checksum then crc32c (encodeBody seq rec) else 0).toNat := by
      rw [pread, drop_zero, encode]
      simp only [← append_assoc]
      rw [append_assoc, take_left' (by simp)]
    have htotal : getLE (putLE 4 (8 + (encodeBody seq rec).length)) = frameSize rec := by
      rw [getLE_putLE_of_lt (by norm_num; omega)]
      omega
    have hcrc : getLE (putLE 4 (if checksum then crc32c (encodeBody seq rec) else 0).toNat) =
        (if checksum then crc32c (encodeBody seq rec) else 0).toNat :=
      getLE_putLE_of_lt (by simpa using UInt32.toNat_lt _)
    have hbody : pread (encode checksum seq rec ++ rest) (frameSize rec - 8) (0 + 8) =
        encodeBody seq rec := by
      rw [pread, encode, ← append_assoc, append_assoc]
      exact take_drop_append (by simp) (by omega)
    have hfull := length_encode checksum seq rec
    unfold decodeFrame readFrame
    rw [hheader]
    simp only [take_left' (length_putLE 4 _), drop_left' (length_putLE 4 _), htotal, hcrc,
      hbody, length_append, length_putLE]
    rw [if_neg (by simp), if_neg (by unfold frameSize at *; omega), if_neg (by omega),
      if_neg (by cases checksum <;> simp), decodeBody_encodeBody hseq hsize]
    simp [hfull]
  dec_nil := by simp [decodeFrame, readFrame, pread]
  dec_torn := by
    rintro ⟨seq, rec⟩ ⟨hseq, hsize⟩ xs ys heq hys
    dsimp only at hseq hsize heq
    have hlen : xs.length < frameSize rec := by
      have := congrArg List.length heq
      have := length_pos_iff.2 hys
      rw [length_encode, length_append] at *
      omega
    unfold decodeFrame readFrame
    by_cases hshort : xs.length < 8
    · rw [if_pos (by simp [pread]; omega)]
    · -- the size field is complete, and it announces more than there is
      have htotal : getLE ((pread xs 8 0).take 4) = frameSize rec := by
        have htake : (pread xs 8 0).take 4 = (encode checksum seq rec).take 4 := by
          rw [pread, drop_zero, take_take, heq, take_append_of_le_length (by omega)]
          simp
        rw [htake, encode, take_left' (length_putLE 4 _), getLE_putLE_of_lt]
        · have := length_encodeBody seq rec
          omega
        · have := length_encodeBody seq rec
          norm_num
          omega
      dsimp only
      rw [htotal, if_neg (by simp [pread]; omega), if_pos (.inr (by omega))]

lemma length_frames_concat (checksum : Bool) (items : List (ℕ × WalRecord)) (seq : ℕ)
    (rec : WalRecord) : (frames (recordCodec checksum) (items ++ [(seq, rec)])).length =
      (frames (recordCodec checksum) items).length + frameSize rec := by
  rw [frames_append, length_append, frames_cons, frames_nil, append_nil]
  exact congrArg _ (length_encode checksum seq rec)

end SpidoNG.Wal
