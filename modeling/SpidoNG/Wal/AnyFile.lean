import SpidoNG.Wal.Manager

/-!
# A replay of any file

`replay` does not check that a frame is large enough for the fields of fixed width.
-/

namespace SpidoNG.Wal

open LittleEndian

def announced (data : Bytes) (off : ℕ) : ℕ := getLE ((pread data 8 off).take 4)

/-- A frame that lies in the file, with a checksum that fits, and is too small for the fixed
fields. -/
def Runt (checksum : Bool) (data : Bytes) (off : ℕ) : Prop :=
  (pread data 8 off).length = 8 ∧ 8 ≤ announced data off ∧ announced data off < 49 ∧
    off + announced data off ≤ data.length ∧
    (checksum = true → (crc32c (pread data (announced data off - 8) (off + 8))).toNat =
      getLE ((pread data 8 off).drop 4))

/-- The frames before a position are records. -/
inductive Reaches (checksum : Bool) (data : Bytes) : ℕ → ℕ → Prop
  | here (off : ℕ) : Reaches checksum data off off
  | step {off total seq : ℕ} {rec : WalRecord} {off' : ℕ}
      (hframe : readFrame checksum data data.length off = .record total seq rec)
      (hrest : Reaches checksum data (off + total) off') : Reaches checksum data off off'

/-- A replay by a process that has opened the file ends, reads nothing outside of the bodies of
frames, and delivers only records whose fields lie in their frames. -/
structure Safe (cfg : WalConfig) (d : Disk) (fn : ℕ → WalRecord → Bool) : Prop where
  ends : ∀ n, d.data.length < n →
    replayLoop (Manager.at cfg d.data.length) d fn n ⟨8, 0, 0, [], false⟩ =
      (Manager.at cfg d.data.length).replay d fn
  inside : ((Manager.at cfg d.data.length).replay d fn).outOfBounds = false
  fits : ∀ x ∈ ((Manager.at cfg d.data.length).replay d fn).delivered,
    frameSize x.record ≤ announced d.data x.offset ∧
    x.offset + announced d.data x.offset ≤ d.data.length

variable {checksum : Bool} {data : Bytes} {off total seq : ℕ} {rec : WalRecord}

lemma readStr_length {xs s rest : Bytes} (h : readStr xs = some (s, rest)) :
    4 + s.length + rest.length = xs.length := by
  unfold readStr at h
  dsimp only at h
  split_ifs at h with hshort hlen
  cases h
  simp
  omega

lemma frameSize_of_decodeBody {body : Bytes} {n : ℕ}
    (h : decodeBody n body = .record total seq rec) :
    n = total ∧ frameSize rec ≤ 8 + body.length := by
  unfold decodeBody at h
  split_ifs at h with hfixed
  cases h1 : readStr (body.drop 41) with
  | none => simp [h1] at h
  | some x =>
    cases h2 : readStr x.2 with
    | none => simp [h1, h2] at h
    | some y =>
      cases h3 : readStr y.2 with
      | none => simp [h1, h2, h3] at h
      | some z =>
        simp only [h1, h2, h3, Decoded.record.injEq] at h
        obtain ⟨rfl, -, rfl⟩ := h
        have hlen1 := readStr_length h1
        have hlen2 := readStr_length h2
        have hlen3 := readStr_length h3
        simp only [List.length_drop] at hlen1
        refine ⟨rfl, ?_⟩
        simp only [frameSize]
        omega

lemma frame_of_readFrame {cur : ℕ} (h : readFrame checksum data cur off = .record total seq rec) :
    total = announced data off ∧ frameSize rec ≤ total ∧ off + total ≤ cur := by
  unfold readFrame at h
  dsimp only at h
  split_ifs at h with hheader hsize hbody hcrc
  push Not at hheader hsize hbody
  obtain ⟨rfl, hle⟩ := frameSize_of_decodeBody h
  exact ⟨rfl, by omega, hsize.2⟩

lemma decodeBody_eq_outOfBounds_iff {body : Bytes} :
    decodeBody total body = .outOfBounds ↔ body.length < 41 := by
  unfold decodeBody
  split_ifs with hshort
  · simp [hshort]
  · simp only [hshort, iff_false]
    split
    · simp
    · split
      · simp
      · split <;> simp

lemma readFrame_eq_outOfBounds_iff :
    readFrame checksum data data.length off = .outOfBounds ↔ Runt checksum data off := by
  unfold readFrame Runt announced
  dsimp only
  split_ifs with hheader hsize hbody hcrc
  · simp [hheader]
  · simp only [false_iff]
    omega
  · simp only [false_iff]
    rw [length_pread] at hbody
    omega
  · simp only [false_iff]
    exact fun h => hcrc.2 (h.2.2.2.2 hcrc.1)
  · push Not at hheader hsize hbody hcrc
    rw [decodeBody_eq_outOfBounds_iff, hbody]
    exact ⟨fun h => ⟨hheader, hsize.1, by omega, hsize.2, hcrc⟩, fun h => by omega⟩

lemma Reaches.cases_head {off' : ℕ} (h : Reaches checksum data off off') : off' = off ∨
    ∃ total seq rec, readFrame checksum data data.length off = .record total seq rec ∧
      Reaches checksum data (off + total) off' := by
  cases h with
  | here => exact .inl rfl
  | step hframe hrest => exact .inr ⟨_, _, _, hframe, hrest⟩

section Loop

variable {cfg : WalConfig} {d : Disk} {fn : ℕ → WalRecord → Bool}

structure SafeFrom (cfg : WalConfig) (d : Disk) (fn : ℕ → WalRecord → Bool) (r : Replay) (n : ℕ) :
    Prop where
  ends : ∀ n', d.data.length < r.off + n' →
    replayLoop (Manager.at cfg d.data.length) d fn n' r =
      replayLoop (Manager.at cfg d.data.length) d fn n r
  inside : (replayLoop (Manager.at cfg d.data.length) d fn n r).outOfBounds = true ↔
    ∃ off, Reaches cfg.checksum d.data r.off off ∧ Runt cfg.checksum d.data off
  fits : ∀ x ∈ (replayLoop (Manager.at cfg d.data.length) d fn n r).delivered, x ∈ r.delivered ∨
    frameSize x.record ≤ announced d.data x.offset ∧
      x.offset + announced d.data x.offset ≤ d.data.length

lemma exists_runt_iff {off : ℕ}
    (hnone : ∀ total seq rec, readFrame checksum data data.length off ≠ .record total seq rec) :
    (∃ off', Reaches checksum data off off' ∧ Runt checksum data off') ↔
      readFrame checksum data data.length off = .outOfBounds := by
  rw [readFrame_eq_outOfBounds_iff]
  constructor
  · rintro ⟨off', hreach, hrunt⟩
    rcases hreach.cases_head with rfl | ⟨total, seq, rec, hframe, -⟩
    · exact hrunt
    · exact absurd hframe (hnone total seq rec)
  · exact fun h => ⟨off, .here _, h⟩

lemma safeFrom_of_lt {r : Replay} (hr : r.outOfBounds = false) (h : d.data.length < r.off + 8)
    (n : ℕ) : SafeFrom cfg d fn r n := by
  have hsame (k : ℕ) : replayLoop (Manager.at cfg d.data.length) d fn k r = r := by
    cases k with
    | zero => rfl
    | succ k => exact if_neg (not_le.2 h)
  have hstop : readFrame cfg.checksum d.data d.data.length r.off = .stop := by
    unfold readFrame
    rw [if_pos (by rw [length_pread]; omega)]
  refine ⟨fun n' _ => by rw [hsame, hsame], ?_, fun x hx => .inl (hsame n ▸ hx)⟩
  rw [exists_runt_iff (by simp [hstop]), hstop, hsame, hr]
  simp

lemma safeFrom (r : Replay) (hr : r.outOfBounds = false) {n : ℕ} (hn : d.data.length < r.off + n) :
    SafeFrom cfg d fn r n := by
  induction n generalizing r with
  | zero => exact safeFrom_of_lt hr (by omega) 0
  | succ n ih =>
    by_cases hroom : r.off + 8 ≤ d.data.length
    swap
    · exact safeFrom_of_lt hr (not_le.1 hroom) _
    have hmany {n' : ℕ} (hn' : d.data.length < r.off + n') : ∃ k, n' = k + 1 := ⟨n' - 1, by omega⟩
    cases hframe : readFrame cfg.checksum d.data d.data.length r.off with
    | stop | outOfBounds =>
      refine ⟨fun n' hn' => ?_, ?_, fun x hx => .inl ?_⟩
      · obtain ⟨k, rfl⟩ := hmany hn'
        rw [replayLoop, replayLoop]
        simp [Manager.at, hframe]
      · rw [exists_runt_iff (by simp [hframe]), replayLoop]
        simp [Manager.at, hroom, hframe, hr]
      · rw [replayLoop] at hx
        simpa [Manager.at, hroom, hframe] using hx
    | record total seq rec =>
      obtain ⟨htotal, hsize, hin⟩ := frame_of_readFrame hframe
      have hgrow : 0 < total := by
        rw [frameSize] at hsize
        omega
      have hturn (k : ℕ) : replayLoop (Manager.at cfg d.data.length) d fn (k + 1) r =
          replayLoop (Manager.at cfg d.data.length) d fn k (r.after fn total seq rec) := by
        rw [replayLoop]
        simp [Manager.at, hroom, hframe, Replay.after]
      have hnext := ih (r.after fn total seq rec) hr (by simp only [Replay.after]; omega)
      refine ⟨fun n' hn' => ?_, ?_, fun x hx => ?_⟩
      · obtain ⟨k, rfl⟩ := hmany hn'
        rw [hturn, hturn]
        exact hnext.ends k (by simp only [Replay.after]; omega)
      · rw [hturn, hnext.inside]
        refine exists_congr fun off => and_congr_left fun hrunt => ⟨.step hframe, fun hreach => ?_⟩
        rcases hreach.cases_head with rfl | ⟨total', seq', rec', hframe', hrest⟩
        · rw [readFrame_eq_outOfBounds_iff.2 hrunt] at hframe
          cases hframe
        · rw [hframe] at hframe'
          cases hframe'
          exact hrest
      · rw [hturn] at hx
        rcases hnext.fits x hx with hx | hx
        · rcases List.mem_append.1 hx with hx | hx
          · exact .inl hx
          · rw [List.mem_singleton.1 hx]
            exact .inr ⟨htotal ▸ hsize, htotal ▸ hin⟩
        · exact .inr hx

end Loop

def oneRecord : Bytes := fileMagic ++ encode true 1 { primaryKey := [55], rowBytes := [1, 2, 3] }

def runtFile : Disk := ⟨fileMagic ++ [8, 0, 0, 0, 0, 0, 0, 0], 0, Nat.zero_le _⟩

end SpidoNG.Wal
