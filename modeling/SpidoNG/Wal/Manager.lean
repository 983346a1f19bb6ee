import SpidoNG.Wal.Record

/-!
# The write-ahead log manager

`WalManager` of `spido-pg/src/wal.cpp` over one log file.
-/

namespace SpidoNG.Wal

open LittleEndian FrameLog Bytes List

structure Disk where
  data : Bytes
  synced : ℕ
  synced_le : synced ≤ data.length

namespace Disk

def empty : Disk := ⟨[], 0, le_rfl⟩

def write (d : Disk) (pos : ℕ) (bytes : Bytes) : Disk :=
  if bytes = [] then d
  else
    { data := (d.data ++ replicate (pos - d.data.length) 0).take pos ++
        (bytes ++ d.data.drop (pos + bytes.length))
      synced := min d.synced pos
      synced_le := by
        have := d.synced_le
        simp
        omega }

def truncate (d : Disk) (n : ℕ) : Disk where
  data := d.data.take n
  synced := min d.synced n
  synced_le := by
    have := d.synced_le
    simp
    omega

def sync (d : Disk) (ok : Bool) : Disk :=
  if ok then ⟨d.data, d.data.length, le_rfl⟩ else d

def crash (d : Disk) (k : ℕ) : Disk where
  data := d.data.take (max k d.synced)
  synced := d.synced
  synced_le := by
    have := d.synced_le
    simp
    omega

@[simp] lemma sync_data (d : Disk) (ok : Bool) : (d.sync ok).data = d.data := by
  cases ok <;> rfl

lemma sync_synced_le (d : Disk) (ok : Bool) : d.synced ≤ (d.sync ok).synced := by
  cases ok
  · exact le_rfl
  · exact d.synced_le

@[simp] lemma write_nil (d : Disk) (pos : ℕ) : d.write pos [] = d := by simp [write]

lemma write_end (d : Disk) {pos : ℕ} (h : pos = d.data.length) (bytes : Bytes) :
    (d.write pos bytes).data = d.data ++ bytes := by
  subst h
  unfold write
  split_ifs with hnil
  · simp [hnil]
  · simp

lemma write_end_synced (d : Disk) {pos : ℕ} (h : pos = d.data.length) (bytes : Bytes) :
    (d.write pos bytes).synced = d.synced := by
  have := d.synced_le
  unfold write
  split_ifs
  · rfl
  · exact min_eq_left (by omega)

end Disk

inductive WalFsyncMode
  | OsBuffered
  | FdatasyncInterval
  | FdatasyncAlways
  | FsyncAlways
  deriving DecidableEq

structure WalConfig where
  enabled : Bool := true
  fsyncMode : WalFsyncMode := .FdatasyncInterval
  checksum : Bool := true
  deriving DecidableEq

structure Waiter where
  offset : ℕ
  flag : ℕ
  deriving DecidableEq

structure WalDurabilityHandle where
  sequence : ℕ
  offset : ℕ
  flag : ℕ

structure Manager where
  cfg : WalConfig
  pos : ℕ
  currentOffset : ℕ
  appendedSeq : ℕ
  flushedSeq : ℕ
  pendingBytes : ℕ
  durableOffset : ℕ
  waiters : List Waiter
  flags : List Bool

def fileMagic : Bytes := putLE 8 0x535049444F504710

lemma length_fileMagic : fileMagic.length = 8 := by decide

lemma Disk.write_fileMagic {d : Disk} (hnil : d.data = []) :
    (d.write 0 fileMagic).data = fileMagic := by
  rw [write_end _ (by simp [hnil]), hnil, nil_append]

lemma take_fileMagic_of_le {k : ℕ} (hk : k ≤ 8) (xs : Bytes) :
    (fileMagic ++ xs).take k = fileMagic.take k :=
  take_append_of_le_length (by rw [length_fileMagic]; exact hk)

lemma take_fileMagic_of_ge {k : ℕ} (hk : 8 ≤ k) (xs : Bytes) :
    (fileMagic ++ xs).take k = fileMagic ++ xs.take (k - 8) := by
  rw [take_append, take_of_length_le (by rw [length_fileMagic]; exact hk),
    length_fileMagic]

lemma take_fileMagic (xs : Bytes) : (fileMagic ++ xs).take 8 = fileMagic :=
  take_left' length_fileMagic

def Manager.at (cfg : WalConfig) (offset : ℕ) : Manager where
  cfg := cfg
  pos := offset
  currentOffset := offset
  appendedSeq := 0
  flushedSeq := 0
  pendingBytes := 0
  durableOffset := offset
  waiters := []
  flags := []

def openOrCreate (cfg : WalConfig) (d : Disk) : Except String (Manager × Disk) :=
  if cfg.enabled then
    if d.data.length = 0 then .ok (Manager.at cfg 8, d.write 0 fileMagic)
    else if pread d.data 8 0 ≠ fileMagic then .error "wal: magic mismatch — refusing to open"
    else .ok (Manager.at cfg d.data.length, d)
  else .ok (Manager.at cfg 0, d)

lemma openOrCreate_formatted {cfg : WalConfig} (hen : cfg.enabled) {d : Disk} {xs : Bytes}
    (hfile : d.data = fileMagic ++ xs) :
    openOrCreate cfg d = .ok (Manager.at cfg d.data.length, d) := by
  have hmagic : pread d.data 8 0 = fileMagic := by
    rw [pread, drop_zero, hfile, take_left' length_fileMagic]
  have hne : d.data ≠ [] := by
    apply length_pos_iff.1
    rw [hfile, length_append, length_fileMagic]
    omega
  simp [openOrCreate, hen, hne, hmagic]

namespace Manager

def nextSeq (m : Manager) : ℕ := wrap (m.appendedSeq + 1)

def writeRecord (m : Manager) (d : Disk) (rec : WalRecord) (seq written : ℕ) :
    Bool × Manager × Disk :=
  let bytes := encode m.cfg.checksum seq rec
  if written < bytes.length then
    (false, { m with pos := m.pos + written }, d.write m.pos (bytes.take written))
  else
    (true,
      { m with
        pos := m.pos + bytes.length
        currentOffset := m.currentOffset + bytes.length
        pendingBytes := m.pendingBytes + bytes.length },
      d.write m.pos bytes)

def syncsAlways (m : Manager) : Bool :=
  m.cfg.fsyncMode = .FsyncAlways || m.cfg.fsyncMode = .FdatasyncAlways

/-- The part of `append` under the lock. -/
def write (m : Manager) (d : Disk) (rec : WalRecord) (seq written : ℕ) (syncOk : Bool) :
    Option WalDurabilityHandle × Manager × Disk :=
  match m.writeRecord d rec seq written with
  | (false, m', d') => (none, m', d')
  | (true, m', d') =>
    let h : WalDurabilityHandle := ⟨seq, m'.currentOffset, m'.flags.length⟩
    if m.syncsAlways then
      (some h, { m' with durableOffset := m'.currentOffset, flags := m'.flags ++ [true] },
        d'.sync syncOk)
    else
      (some h, { m' with waiters := m'.waiters ++ [⟨h.offset, h.flag⟩],
                         flags := m'.flags ++ [false] }, d')

/-- `WalManager::append`: the number is drawn before the lock is taken. -/
def append (m : Manager) (d : Disk) (rec : WalRecord) (written : ℕ) (syncOk : Bool) :
    Option WalDurabilityHandle × Manager × Disk :=
  if m.cfg.enabled then
    write { m with appendedSeq := m.nextSeq } d rec m.nextSeq written syncOk
  else (some ⟨0, 0, m.flags.length⟩, { m with flags := m.flags ++ [true] }, d)

def doFdatasync (m : Manager) (d : Disk) (syncOk : Bool) : Manager × Disk :=
  let released := m.waiters.filter fun w => w.offset ≤ m.currentOffset
  ({ m with
      durableOffset := m.currentOffset
      waiters := m.waiters.filter fun w => ¬ w.offset ≤ m.currentOffset
      flags := released.foldl (fun fs w => fs.set w.flag true) m.flags },
    d.sync syncOk)

lemma length_foldl_set (ws : List Waiter) (flags : List Bool) :
    (ws.foldl (fun fs w => fs.set w.flag true) flags).length = flags.length := by
  induction ws generalizing flags with
  | nil => rfl
  | cons _ _ ih => rw [foldl_cons, ih, length_set]

def markFlushed (m : Manager) (seqInclusive : ℕ) : Manager :=
  { m with flushedSeq := max m.flushedSeq seqInclusive }

def compact (m : Manager) (d : Disk) (truncOk : Bool) : ℕ × Manager × Disk :=
  if m.flushedSeq < m.appendedSeq then (0, m, d)
  else if m.currentOffset - 8 = 0 then (0, m, d)
  else if !truncOk || !m.cfg.enabled then (0, m, d)
  else (m.currentOffset - 8, { m with currentOffset := 8, durableOffset := 8, pendingBytes := 0 },
    d.truncate 8)

end Manager

section Append

variable {m : Manager} {d : Disk} {rec : WalRecord} {written : ℕ} {syncOk : Bool}

def Manager.afterAppend (m : Manager) (rec : WalRecord) : Manager where
  cfg := m.cfg
  pos := m.pos + frameSize rec
  currentOffset := m.currentOffset + frameSize rec
  appendedSeq := m.nextSeq
  flushedSeq := m.flushedSeq
  pendingBytes := m.pendingBytes + frameSize rec
  durableOffset := if m.syncsAlways then m.currentOffset + frameSize rec else m.durableOffset
  waiters := if m.syncsAlways then m.waiters
    else m.waiters ++ [⟨m.currentOffset + frameSize rec, m.flags.length⟩]
  flags := m.flags ++ [m.syncsAlways]

lemma Manager.append_whole (hen : m.cfg.enabled) (hw : frameSize rec ≤ written) :
    m.append d rec written syncOk =
      (some ⟨m.nextSeq, m.currentOffset + frameSize rec, m.flags.length⟩, m.afterAppend rec,
        if m.syncsAlways then (d.write m.pos (encode m.cfg.checksum m.nextSeq rec)).sync syncOk
        else d.write m.pos (encode m.cfg.checksum m.nextSeq rec)) := by
  unfold Manager.append Manager.write Manager.writeRecord
  simp only [hen, length_encode, if_true]
  rw [if_neg (not_lt.2 hw)]
  cases hs : m.syncsAlways <;> simp_all [Manager.afterAppend, Manager.syncsAlways]

lemma Manager.append_short (hen : m.cfg.enabled) (hw : written < frameSize rec) :
    m.append d rec written syncOk =
      (none, { m with appendedSeq := m.nextSeq, pos := m.pos + written },
        d.write m.pos ((encode m.cfg.checksum m.nextSeq rec).take written)) := by
  unfold Manager.append Manager.write Manager.writeRecord
  simp only [hen, length_encode, if_true]
  rw [if_pos hw]

lemma Manager.nextSeq_lt (m : Manager) : m.nextSeq < 2 ^ 64 := Nat.mod_lt _ (by decide)

variable {items : List (ℕ × WalRecord)}

lemma Manager.valid_concat {checksum : Bool}
    (hv : ∀ p ∈ items, (recordCodec checksum).Valid p) (hsize : frameSize rec < 2 ^ 32) :
    ∀ p ∈ items ++ [(m.nextSeq, rec)], (recordCodec checksum).Valid p := by
  intro p hp
  rcases mem_append.1 hp with hp | hp
  · exact hv p hp
  · rw [mem_singleton.1 hp]
    exact ⟨m.nextSeq_lt, hsize⟩

lemma Manager.append_data (hen : m.cfg.enabled)
    (hw : frameSize rec ≤ written) (hend : m.pos = d.data.length)
    (hfile : d.data = fileMagic ++ frames (recordCodec m.cfg.checksum) items) :
    (m.append d rec written syncOk).2.2.data =
      fileMagic ++ frames (recordCodec m.cfg.checksum) (items ++ [(m.nextSeq, rec)]) := by
  rw [Manager.append_whole hen hw]
  simp only [apply_ite Disk.data, Disk.sync_data, ite_self, Disk.write_end _ hend, hfile,
    frames_append, frames_cons, frames_nil, append_nil, append_assoc]
  rfl

lemma Manager.torn_take_encode (m : Manager) (hw : written < frameSize rec)
    (hsize : frameSize rec < 2 ^ 32) :
    Torn (recordCodec m.cfg.checksum) ((encode m.cfg.checksum m.nextSeq rec).take written) := by
  refine .inr ⟨(m.nextSeq, rec), (encode m.cfg.checksum m.nextSeq rec).drop written,
    ⟨m.nextSeq_lt, hsize⟩, (take_append_drop _ _).symm, ?_⟩
  apply length_pos_iff.1
  rw [length_drop, length_encode]
  omega

def Manager.afterCompact (m : Manager) : Manager :=
  { m with currentOffset := 8, durableOffset := 8, pendingBytes := 0 }

lemma Manager.compact_cases (m : Manager) (d : Disk) (truncOk : Bool) :
    m.compact d truncOk = (0, m, d) ∨
      (m.appendedSeq ≤ m.flushedSeq ∧ 8 < m.currentOffset ∧ m.cfg.enabled ∧
        m.compact d truncOk = (m.currentOffset - 8, m.afterCompact, d.truncate 8)) := by
  unfold Manager.compact
  split_ifs with h1 h2 h3
  · exact .inl rfl
  · exact .inl rfl
  · exact .inl rfl
  · refine .inr ⟨not_lt.1 h1, by omega, ?_, rfl⟩
    cases hen : m.cfg.enabled
    · simp [hen] at h3
    · rfl

end Append

structure Delivery where
  offset : ℕ
  seq : ℕ
  record : WalRecord
  accepted : Bool
  deriving DecidableEq

structure Replay where
  off : ℕ
  appendedSeq : ℕ
  flushedSeq : ℕ
  delivered : List Delivery
  outOfBounds : Bool

def replayLoop (m : Manager) (d : Disk) (fn : ℕ → WalRecord → Bool) : ℕ → Replay → Replay
  | 0, r => r
  | n + 1, r =>
    if r.off + 8 ≤ m.currentOffset then
      match readFrame m.cfg.checksum d.data m.currentOffset r.off with
      | .stop => r
      | .outOfBounds => { r with outOfBounds := true }
      | .record total seq rec =>
        let ok := fn r.delivered.length rec
        replayLoop m d fn n
          { r with
            off := r.off + total
            flushedSeq := if ok then seq else r.flushedSeq
            appendedSeq := max r.appendedSeq seq
            delivered := r.delivered ++ [⟨r.off, seq, rec, ok⟩] }
    else r

def Manager.replay (m : Manager) (d : Disk) (fn : ℕ → WalRecord → Bool) : Replay :=
  if m.cfg.enabled then
    replayLoop m d fn (m.currentOffset + 1) ⟨8, m.appendedSeq, m.flushedSeq, [], false⟩
  else ⟨8, m.appendedSeq, m.flushedSeq, [], false⟩

def Manager.afterReplay (m : Manager) (r : Replay) : Manager :=
  { m with appendedSeq := r.appendedSeq, flushedSeq := r.flushedSeq }

def Replay.after (r : Replay) (fn : ℕ → WalRecord → Bool) (total seq : ℕ)
    (rec : WalRecord) : Replay :=
  { r with
    off := r.off + total
    flushedSeq := if fn r.delivered.length rec then seq else r.flushedSeq
    appendedSeq := max r.appendedSeq seq
    delivered := r.delivered ++ [⟨r.off, seq, rec, fn r.delivered.length rec⟩] }

def Delivery.frame (x : Delivery) : ℕ × (ℕ × WalRecord) := (x.offset, (x.seq, x.record))

lemma replayLoop_scan (m : Manager) (d : Disk) (fn : ℕ → WalRecord → Bool) (n : ℕ) (r : Replay) :
    (replayLoop m d fn n r).delivered.map Delivery.frame =
        r.delivered.map Delivery.frame ++ (scanFor (recordCodec m.cfg.checksum) n r.off
          ((d.data.take m.currentOffset).drop r.off)).1 ∧
      (replayLoop m d fn n r).off = (scanFor (recordCodec m.cfg.checksum) n r.off
          ((d.data.take m.currentOffset).drop r.off)).2 := by
  induction n generalizing r with
  | zero => simp [replayLoop, scanFor]
  | succ n ih =>
    rw [replayLoop, scanFor]
    set window := (d.data.take m.currentOffset).drop r.off with hwindow
    have hdec : (recordCodec m.cfg.checksum).dec window =
        decodeFrame m.cfg.checksum window := rfl
    by_cases hoff : r.off + 8 ≤ m.currentOffset
    · rw [if_pos hoff, readFrame_window _ _ _ _ hoff, ← hwindow, hdec, decodeFrame]
      cases hf : readFrame m.cfg.checksum window window.length 0 with
      | stop | outOfBounds => simp
      | record total seq rec =>
        simp only
        have hdrop : window.drop total = (d.data.take m.currentOffset).drop (r.off + total) := by
          rw [hwindow, drop_drop]
        rw [hdrop]
        have hturn := ih (r.after fn total seq rec)
        simp only [Replay.after] at hturn
        rw [hturn.1, hturn.2]
        simp [Delivery.frame]
    · -- too close to the current offset for a header
      have hshort : window.length < 8 := by
        rw [hwindow]
        simp
        omega
      have hstop : readFrame m.cfg.checksum window window.length 0 = .stop := by
        unfold readFrame
        rw [if_pos (by simp [pread]; omega)]
      rw [if_neg hoff, hdec, decodeFrame, hstop]
      simp

section Whole

variable {m : Manager} {d : Disk} {items : List (ℕ × WalRecord)} {torn : Bytes}
  (hen : m.cfg.enabled = true) (hv : ∀ p ∈ items, (recordCodec m.cfg.checksum).Valid p)
  (ht : Torn (recordCodec m.cfg.checksum) torn)
  (hfile : d.data = fileMagic ++ (frames (recordCodec m.cfg.checksum) items ++ torn))
  (hcov : 8 + (frames (recordCodec m.cfg.checksum) items).length ≤ m.currentOffset)

include hen hv ht hfile hcov

lemma replay_frames (fn : ℕ → WalRecord → Bool) : (m.replay d fn).delivered.map Delivery.frame =
        (positions (recordCodec m.cfg.checksum) 8 items).map
          (fun p => (p.1, (p.2.1, stored p.2.2))) ∧
      (m.replay d fn).off = 8 + (frames (recordCodec m.cfg.checksum) items).length := by
  have hfuel : items.length < m.currentOffset + 1 := by
    have := length_le_frames (c := recordCodec m.cfg.checksum) items
    omega
  have hwindow : (d.data.take m.currentOffset).drop 8 = frames (recordCodec m.cfg.checksum) items ++
      torn.take (m.currentOffset - 8 - (frames (recordCodec m.cfg.checksum) items).length) := by
    rw [drop_take, hfile, drop_left' length_fileMagic, take_append, take_of_length_le (by omega)]
  obtain ⟨h1, h2⟩ := replayLoop_scan m d fn (m.currentOffset + 1)
    ⟨8, m.appendedSeq, m.flushedSeq, [], false⟩
  rw [hwindow, scan_frames hv (ht.take _) hfuel] at h1 h2
  rw [Manager.replay, if_pos hen]
  exact ⟨h1, h2⟩

lemma delivered_records (fn : ℕ → WalRecord → Bool) :
    (m.replay d fn).delivered.map (·.record) = items.map fun p => stored p.2 := by
  have h := congrArg (List.map fun p => p.2.2) (replay_frames hen hv ht hfile hcov fn).1
  have hitem := congrArg (List.map fun p : ℕ × WalRecord => stored p.2)
    (map_snd_positions (c := recordCodec m.cfg.checksum) 8 items)
  rw [map_map] at h hitem
  rw [← hitem]
  rw [map_map] at h
  exact h

def Manager.CleanTail (m : Manager) (d : Disk) : Prop :=
  m.pos = d.data.length ∧ (m.replay d fun _ _ => true).off = d.data.length

lemma Manager.CleanTail.whole (hc : m.CleanTail d) (hin : m.currentOffset ≤ d.data.length) :
    torn = [] ∧ m.currentOffset = d.data.length := by
  have hlen := congrArg List.length hfile
  simp only [length_append, length_fileMagic] at hlen
  have hscan := (replay_frames hen hv ht hfile hcov fun _ _ => true).2
  rw [hc.2] at hscan
  exact ⟨length_eq_zero_iff.1 (by omega), by omega⟩

end Whole

inductive Call
  | append (rec : WalRecord) (written : ℕ) (syncOk : Bool)
  | groupCommit (syncOk : Bool)
  | markFlushed (seqInclusive : ℕ)
  | compact (truncOk : Bool)
  | replay (fn : ℕ → WalRecord → Bool)

def Manager.call (m : Manager) (d : Disk) : Call → Manager × Disk
  | .append rec written syncOk => (m.append d rec written syncOk).2
  | .groupCommit syncOk => m.doFdatasync d syncOk
  | .markFlushed seqInclusive => (m.markFlushed seqInclusive, d)
  | .compact truncOk => (m.compact d truncOk).2
  | .replay fn => (m.afterReplay (m.replay d fn), d)

structure System where
  disk : Disk
  proc : Option Manager

inductive Op
  | openLog (cfg : WalConfig)
  | call (c : Call)
  | close (syncOk : Bool)
  | crash (k : ℕ)

namespace System

def init : System := ⟨Disk.empty, none⟩

def step (s : System) : Op → System
  | .openLog cfg =>
    match s.proc, openOrCreate cfg s.disk with
    | none, .ok (m, d) => ⟨d, some m⟩
    | _, _ => s
  | .call c =>
    match s.proc with
    | none => s
    | some m => ⟨(m.call s.disk c).2, some (m.call s.disk c).1⟩
  | .close syncOk =>
    match s.proc with
    | none => s
    | some m => ⟨if m.cfg.enabled then s.disk.sync syncOk else s.disk, none⟩
  | .crash k => ⟨s.disk.crash k, none⟩

section Life

variable {s : System} {cfg : WalConfig}

section

variable (hp : s.proc = none) (hen : cfg.enabled = true)
include hp hen

lemma step_openLog_fresh (hnil : s.disk.data = []) :
    s.step (.openLog cfg) = ⟨s.disk.write 0 fileMagic, some (Manager.at cfg 8)⟩ := by
  simp [step, hp, openOrCreate, hen, hnil]

lemma step_openLog_part {j : ℕ} (h0 : j ≠ 0)
    (hj : j < 8) (hdata : s.disk.data = fileMagic.take j) : s.step (.openLog cfg) = s := by
  have hlen : s.disk.data.length = j := by
    rw [hdata, length_take, length_fileMagic]
    omega
  have hne : pread s.disk.data 8 0 ≠ fileMagic := by
    intro heq
    have := congrArg List.length heq
    rw [length_fileMagic] at this
    simp [pread, hlen] at this
    omega
  simp [step, hp, openOrCreate, hen, hlen, h0, hne]

lemma step_openLog_formatted {xs : Bytes} (hfile : s.disk.data = fileMagic ++ xs) :
    s.step (.openLog cfg) = ⟨s.disk, some (Manager.at cfg s.disk.data.length)⟩ := by
  simp [step, hp, openOrCreate_formatted hen hfile]

end

lemma step_close (s : System) (syncOk : Bool) : (s.step (.close syncOk)).disk.data = s.disk.data ∧
      s.disk.synced ≤ (s.step (.close syncOk)).disk.synced ∧
      (s.step (.close syncOk)).proc = none := by
  cases hp : s.proc with
  | none => simp [step, hp]
  | some m => cases hen : m.cfg.enabled <;> simp [step, hp, hen, Disk.sync_synced_le]

end Life

end System

end SpidoNG.Wal
