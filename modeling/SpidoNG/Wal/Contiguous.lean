import SpidoNG.Lib.Runs
import SpidoNG.Wal.Manager

/-!
# One open manager

The calls made on one `WalManager` that was opened on a fresh file.
-/

namespace SpidoNG.Wal

open FrameLog List

/-- An open manager and its file, with the records appended since the last effective compaction. -/
structure Session where
  mgr : Manager
  disk : Disk
  records : List (ℕ × WalRecord)

variable {syncOk : Bool}

namespace Session

def recordsAfter (s : Session) : Call → List (ℕ × WalRecord)
  | .append rec written syncOk =>
    match (s.mgr.append s.disk rec written syncOk).1 with
    | some h => s.records ++ [(h.sequence, rec)]
    | none => s.records
  | .compact truncOk => if (s.mgr.compact s.disk truncOk).1 = 0 then s.records else []
  | _ => s.records

def call (s : Session) (c : Call) : Session :=
  ⟨(s.mgr.call s.disk c).1, (s.mgr.call s.disk c).2, s.recordsAfter c⟩

def fresh (cfg : WalConfig) : Session := ⟨Manager.at cfg 8, Disk.empty.write 0 fileMagic, []⟩

def run (s : Session) (calls : List Call) : Session := calls.foldl call s

def Contiguous (s : Session) : Prop :=
  s.disk.data = fileMagic ++ frames (recordCodec s.mgr.cfg.checksum) s.records ∧
    ∀ fn, (s.mgr.replay s.disk fn).delivered.map (·.record) = s.records.map fun p => stored p.2

/-- An append is taken whole or not at all, and finds the file position at the current offset, which
is so until a compaction truncates the file. -/
def GoodCall (s : Session) : Call → Prop
  | .append rec written _ => written = 0 ∨
      (frameSize rec ≤ written ∧ frameSize rec < 2 ^ 32 ∧ s.mgr.pos = s.mgr.currentOffset)
  | _ => True

def GoodRun : Session → List Call → Prop
  | _, [] => True
  | s, c :: calls => s.GoodCall c ∧ GoodRun (s.call c) calls

structure Inv (s : Session) : Prop where
  enabled : s.mgr.cfg.enabled = true
  valid : ∀ p ∈ s.records, (recordCodec s.mgr.cfg.checksum).Valid p
  file : s.disk.data = fileMagic ++ frames (recordCodec s.mgr.cfg.checksum) s.records
  offset : s.mgr.currentOffset = s.disk.data.length

lemma fresh_data (cfg : WalConfig) : (fresh cfg).disk.data = fileMagic :=
  Disk.write_fileMagic rfl

lemma inv_fresh {cfg : WalConfig} (hen : cfg.enabled) : (fresh cfg).Inv where
  enabled := hen
  valid := by simp [fresh]
  file := by rw [fresh_data]; rfl
  offset := by rw [fresh_data]; rfl

variable {s : Session}

lemma Inv.append (hi : s.Inv) {rec : WalRecord} {written : ℕ}
    (hg : s.GoodCall (.append rec written syncOk)) : (s.call (.append rec written syncOk)).Inv := by
  have hpos : 0 < frameSize rec := by
    rw [frameSize]
    omega
  rcases hg with rfl | ⟨hw, hsize, hend⟩
  · -- nothing was written
    rw [call, recordsAfter, Manager.call, Manager.append_short hi.enabled hpos, take_zero,
      Disk.write_nil]
    exact ⟨hi.enabled, hi.valid, hi.file, hi.offset⟩
  · have hdata := @Manager.append_data _ _ rec written syncOk _ hi.enabled hw
      (hend.trans hi.offset) hi.file
    have hlen := congrArg List.length hi.file
    rw [Manager.append_whole hi.enabled hw] at hdata
    rw [call, recordsAfter, Manager.call, Manager.append_whole hi.enabled hw]
    refine ⟨hi.enabled, Manager.valid_concat hi.valid hsize, hdata, ?_⟩
    show s.mgr.currentOffset + frameSize rec = _
    rw [hdata, List.length_append, length_frames_concat, hi.offset, hlen, List.length_append,
      Nat.add_assoc]

lemma Inv.compact (hi : s.Inv) (truncOk : Bool) : (s.call (.compact truncOk)).Inv := by
  have hmagic : s.disk.data.take 8 = fileMagic := by rw [hi.file, take_fileMagic]
  rw [call, recordsAfter, Manager.call]
  obtain heq | ⟨-, hlt, -, heq⟩ := s.mgr.compact_cases s.disk truncOk
  · rw [heq]
    exact hi
  · rw [heq, if_neg (by simp only; omega)]
    exact ⟨hi.enabled, by simp, by simp [Disk.truncate, hmagic],
      by simp [Manager.afterCompact, Disk.truncate, hmagic, length_fileMagic]⟩

lemma Inv.call (hi : s.Inv) {c : Call} (hg : s.GoodCall c) : (s.call c).Inv := by
  cases c with
  | append => exact hi.append hg
  | groupCommit =>
    refine ⟨hi.enabled, hi.valid, ?_, ?_⟩
    · simpa [Session.call, Manager.call, Manager.doFdatasync, recordsAfter] using hi.file
    · simpa [Session.call, Manager.call, Manager.doFdatasync] using hi.offset
  | markFlushed | replay => exact ⟨hi.enabled, hi.valid, hi.file, hi.offset⟩
  | compact truncOk => exact hi.compact truncOk

lemma Inv.run (hi : s.Inv) {calls : List Call} (hg : s.GoodRun calls) : (s.run calls).Inv := by
  induction calls generalizing s with
  | nil => exact hi
  | cons _ _ ih => exact ih (hi.call hg.1) hg.2

lemma Inv.contiguous (hi : s.Inv) : s.Contiguous := by
  refine ⟨hi.file, fun fn => ?_⟩
  refine delivered_records hi.enabled hi.valid Torn.nil (by rw [hi.file, append_nil]) ?_ fn
  rw [hi.offset, hi.file, List.length_append, length_fileMagic]

/-- **The log stays contiguous** in every state that good calls lead to. -/
theorem contiguous_of_goodRun (cfg : WalConfig) (hen : cfg.enabled = true) (calls : List Call)
    (hg : (fresh cfg).GoodRun calls) : ((fresh cfg).run calls).Contiguous :=
  ((inv_fresh hen).run hg).contiguous

/-- Two records are appended and flushed, and the log is compacted. -/
def flushedTwice : List Call :=
  [.append {} 61 true, .append { primaryKey := [7] } 62 true, .markFlushed 2, .compact true]

theorem contiguous_flushedTwice : (fresh {}).GoodRun flushedTwice ∧
    ((fresh {}).run flushedTwice).Contiguous := by
  have hg : (fresh {}).GoodRun flushedTwice := by
    refine ⟨.inr ?_, .inr ?_, trivial, trivial, trivial⟩ <;> decide +kernel
  exact ⟨hg, contiguous_of_goodRun {} rfl _ hg⟩

theorem not_contiguous_append_after_compact :
    ¬ ((fresh {}).run [.append {} 61 true, .markFlushed 1, .compact true,
      .append {} 61 true]).Contiguous := by
  rintro ⟨hfile, -⟩
  have hlen := congrArg List.length hfile
  revert hlen
  decide +kernel

/-! ### Round trip -/

/-- A record comes back with its fields, its timestamp cut to microseconds. -/
def Restored (rec back : WalRecord) : Prop :=
  back = { rec with timestamp := back.timestamp } ∧
    back.timestamp.toInt = rec.timestamp.toInt.tdiv 1000 * 1000

lemma restored_stored (rec : WalRecord) : Restored rec (stored rec) := by
  refine ⟨rfl, Int64.toInt_ofInt_of_le ?_ ?_⟩
  all_goals
    have hlow := rec.timestamp.le_toInt
    have hhigh := rec.timestamp.toInt_lt
    have habs := natAbs_toMicros rec.timestamp
    norm_num at *
    omega

/-- What `writev` or `pread` moves at most in one call. -/
def transferLimit : ℕ := 0x7ffff000

/-- Appends whose `writev` moves all that one call can move, with the outcome of their syncs. -/
def appends (recs : List (WalRecord × Bool)) : List Call :=
  recs.map fun x => .append x.1 (min (frameSize x.1) transferLimit) x.2

lemma goodRun_appends (hen : s.mgr.cfg.enabled) (hpos : s.mgr.pos = s.mgr.currentOffset)
    {recs : List (WalRecord × Bool)} (hsize : ∀ x ∈ recs, frameSize x.1 ≤ transferLimit) :
    s.GoodRun (appends recs) ∧
      (s.run (appends recs)).records.map (·.2) = s.records.map (·.2) ++ recs.map (·.1) := by
  induction recs generalizing s with
  | nil => exact ⟨trivial, (append_nil _).symm⟩
  | cons x recs ih =>
    have hfit := hsize x mem_cons_self
    have hwhole : frameSize x.1 ≤ min (frameSize x.1) transferLimit := le_min le_rfl hfit
    obtain ⟨d, hcall⟩ : ∃ d, s.call (.append x.1 (min (frameSize x.1) transferLimit) x.2) =
        ⟨s.mgr.afterAppend x.1, d, s.records ++ [(s.mgr.nextSeq, x.1)]⟩ := by
      rw [call, recordsAfter, Manager.call, Manager.append_whole hen hwhole]
      exact ⟨_, rfl⟩
    have hnext := @ih (s.call (.append x.1 (min (frameSize x.1) transferLimit) x.2))
      (by rw [hcall]; exact hen) (by rw [hcall]; exact congrArg (· + frameSize x.1) hpos)
      fun y hy => hsize y (mem_cons_of_mem _ hy)
    have hsmall : frameSize x.1 < 2 ^ 32 := hfit.trans_lt (by decide)
    refine ⟨⟨.inr ⟨hwhole, hsmall, hpos⟩, hnext.1⟩, hnext.2.trans ?_⟩
    rw [hcall]
    simp

/-- **Records round-trip**: what is appended to a fresh log is what a replay delivers, as long as
one call moves a record. -/
theorem restored_of_appends (cfg : WalConfig) (hen : cfg.enabled = true)
    (recs : List (WalRecord × Bool)) (hsize : ∀ x ∈ recs, frameSize x.1 ≤ transferLimit)
    (fn : ℕ → WalRecord → Bool) : List.Forall₂ Restored (recs.map (·.1))
      ((((fresh cfg).run (appends recs)).mgr.replay ((fresh cfg).run (appends recs)).disk
        fn).delivered.map (·.record)) := by
  obtain ⟨hgood, hrecords⟩ := goodRun_appends (s := fresh cfg) hen rfl hsize
  have hback : ((fresh cfg).run (appends recs)).records.map (fun p => stored p.2) =
      (recs.map (·.1)).map stored := by
    rw [← nil_append (recs.map _), ← show (fresh cfg).records.map (·.2) = [] from rfl, ← hrecords,
      map_map]
    rfl
  rw [((inv_fresh hen).run hgood).contiguous.2 fn, hback, List.forall₂_map_right_iff]
  exact List.forall₂_same.2 fun rec _ => restored_stored rec

def twoRecords : List (WalRecord × Bool) :=
  [({ timestamp := -1999, primaryKey := [7] }, true), ({ rowBytes := [0, 255] }, false)]

theorem restored_twoRecords : List.Forall₂ Restored (twoRecords.map (·.1))
    ((((fresh {}).run (appends twoRecords)).mgr.replay ((fresh {}).run (appends twoRecords)).disk
      fun _ _ => true).delivered.map (·.record)) :=
  restored_of_appends {} rfl twoRecords (by decide) _

lemma delivered_short {rec : WalRecord} (hshort : transferLimit < frameSize rec)
    (fn : ℕ → WalRecord → Bool) : (((fresh {}).run (appends [(rec, true)])).mgr.replay
      ((fresh {}).run (appends [(rec, true)])).disk fn).delivered = [] := by
  have hcut : min (frameSize rec) transferLimit < frameSize rec := by omega
  simp only [appends, List.map_cons, List.map_nil, run, foldl_cons, foldl_nil, call, Manager.call,
    Manager.append_short (m := (fresh {}).mgr) rfl hcut]
  -- The current offset is still that of the magic.
  rfl

def zeros (n : ℕ) : WalRecord := { rowBytes := List.replicate n 0 }

lemma frameSize_zeros (n : ℕ) : frameSize (zeros n) = 61 + n := by
  simp only [frameSize, zeros, length_nil, length_replicate, Nat.add_zero]

theorem not_restored_zeros : frameSize (zeros transferLimit) < 2 ^ 32 ∧
    ¬ List.Forall₂ Restored [zeros transferLimit]
      ((((fresh {}).run (appends [(zeros transferLimit, true)])).mgr.replay
        ((fresh {}).run (appends [(zeros transferLimit, true)])).disk
        fun _ _ => true).delivered.map (·.record)) := by
  have hsize := frameSize_zeros transferLimit
  refine ⟨by rw [hsize]; decide, fun h => ?_⟩
  rw [delivered_short (by omega)] at h
  have hlen := h.length_eq
  rw [List.map_nil, List.length_singleton, List.length_nil] at hlen
  cases hlen

/-! ### Failed appends -/

/-- Every record that was appended is behind the flush mark. -/
def Flushed (s : Session) : Prop := ∀ p ∈ s.records, p.1 ≤ s.mgr.flushedSeq

/-- The last append has not failed, if there is anything to reclaim. -/
def Settled (s : Session) : Prop := ∀ p, s.records.getLast? = some p → p.1 = s.mgr.appendedSeq

/-- A replay delivers the records whose append succeeded, and a compaction reclaims the log once
these are flushed. -/
structure Unharmed (s : Session) : Prop where
  delivers : ∀ fn, (s.mgr.replay s.disk fn).delivered.map (·.record) = s.records.map fun p =>
    stored p.2
  reclaims : s.Flushed → (s.mgr.compact s.disk true).2.2.data = fileMagic

lemma Inv.reclaims (hi : s.Inv) (hset : s.Settled) (hflushed : s.Flushed) :
    (s.mgr.compact s.disk true).2.2.data = fileMagic := by
  have hmagic : s.disk.data.take 8 = fileMagic := by rw [hi.file, take_fileMagic]
  obtain heq | ⟨-, -, -, heq⟩ := s.mgr.compact_cases s.disk true
  · cases hlast : s.records.getLast? with
    | none =>
      rw [heq, hi.file, getLast?_eq_none_iff.1 hlast]
      simp
    | some p =>
      have hle := hflushed p (mem_of_getLast? hlast)
      rw [hset p hlast] at hle
      have hlong : s.mgr.currentOffset - 8 ≠ 0 := by
        have hframes := @length_le_frames _ _ (recordCodec s.mgr.cfg.checksum) s.records
        have hone := length_pos_of_mem (mem_of_getLast? hlast)
        have hlen := congrArg List.length hi.file
        rw [List.length_append, length_fileMagic] at hlen
        have hoff := hi.offset
        omega
      have hdone : s.mgr.compact s.disk true = (s.mgr.currentOffset - 8, s.mgr.afterCompact,
          s.disk.truncate 8) := by
        unfold Manager.compact
        rw [if_neg (not_lt.2 hle), if_neg hlong, if_neg (by simp [hi.enabled])]
        rfl
      rw [hdone]
      exact hmagic
  · rw [heq]
    exact hmagic

/-- **A failed append does no harm** if it has written nothing, and the log can be reclaimed when a
later one has succeeded. -/
theorem unharmed_of_goodRun (cfg : WalConfig) (hen : cfg.enabled = true) (calls : List Call)
    (hg : (fresh cfg).GoodRun calls) (hsettled : ((fresh cfg).run calls).Settled) :
    ((fresh cfg).run calls).Unharmed :=
  ⟨((inv_fresh hen).run hg).contiguous.2, ((inv_fresh hen).run hg).reclaims hsettled⟩

theorem unharmed_later : ((fresh {}).run [.append {} 0 true, .append {} 61 true]).Unharmed := by
  refine unharmed_of_goodRun {} rfl _ ⟨.inl rfl, .inr ⟨by decide, by decide, rfl⟩, trivial⟩ ?_
  intro p hp
  have hlast : ((fresh {}).run [.append {} 0 true, .append {} 61 true]).records.getLast? =
      some (2, {}) := by decide +kernel
  cases hlast.symm.trans hp
  decide +kernel

theorem not_unharmed_partial :
    ¬ ((fresh {}).run [.append {} 5 true, .append {} 61 true]).Unharmed := by
  intro h
  have hlen := congrArg List.length (h.delivers fun _ _ => true)
  revert hlen
  decide +kernel

end Session

/-- An open manager and its file, and of every handle whether a sync has succeeded since its record
was written. -/
structure Watch where
  mgr : Manager
  disk : Disk
  covered : List Bool := []

namespace Watch

def coveredAfter (w : Watch) : Call → List Bool
  | .append rec written syncOk =>
    match (w.mgr.append w.disk rec written syncOk).1 with
    | none => w.covered
    | some _ => (w.covered ++ [false]).map (· || w.mgr.syncsAlways && syncOk)
  | .groupCommit syncOk => w.covered.map (· || syncOk)
  | _ => w.covered

def call (w : Watch) (c : Call) : Watch :=
  ⟨(w.mgr.call w.disk c).1, (w.mgr.call w.disk c).2, w.coveredAfter c⟩

def fresh (cfg : WalConfig) : Watch := ⟨Manager.at cfg 8, Disk.empty.write 0 fileMagic, []⟩

def run (w : Watch) (calls : List Call) : Option Watch :=
  Runs.run (fun w c => some (w.call c)) w calls

/-- Durable means synced, and the next sync that succeeds releases every waiter. -/
structure Sincere (w : Watch) : Prop where
  synced : ∀ i : ℕ, w.mgr.flags[i]? = some true → w.covered[i]? = some true
  within : ∀ x ∈ w.mgr.waiters, x.offset ≤ w.mgr.currentOffset
  releases : (w.mgr.doFdatasync w.disk true).1.waiters = []

/-- No sync fails that anyone waits for, and nothing is truncated while anyone waits. -/
def Reliable (w : Watch) : Call → Prop
  | .append _ _ syncOk => w.mgr.syncsAlways = true → syncOk = true
  | .groupCommit syncOk => syncOk = true ∨ w.mgr.waiters = []
  | .compact _ => w.mgr.flushedSeq < w.mgr.appendedSeq ∨ w.mgr.waiters = []
  | _ => True

structure Kept (w : Watch) : Prop where
  enabled : w.mgr.cfg.enabled = true
  length : w.mgr.flags.length = w.covered.length
  synced : ∀ i : ℕ, w.mgr.flags[i]? = some true → w.covered[i]? = some true
  within : ∀ x ∈ w.mgr.waiters, x.offset ≤ w.mgr.currentOffset

variable {w : Watch}

lemma Kept.sincere (h : w.Kept) : w.Sincere := by
  refine ⟨h.synced, h.within, ?_⟩
  simp only [Manager.doFdatasync, filter_eq_nil_iff]
  simpa using h.within

lemma Kept.append (h : w.Kept) {rec : WalRecord} {written : ℕ}
    (hok : w.mgr.syncsAlways → syncOk) : (w.call (.append rec written syncOk)).Kept := by
  by_cases hw : written < frameSize rec
  · rw [call, coveredAfter, Manager.call, Manager.append_short h.enabled hw]
    exact ⟨h.enabled, h.length, h.synced, h.within⟩
  · rw [call, coveredAfter, Manager.call, Manager.append_whole h.enabled (not_lt.1 hw)]
    refine ⟨h.enabled, by simp [Manager.afterAppend, h.length], fun i hi => ?_, fun x hx => ?_⟩
    · have hlen := h.length
      have hlt := (List.getElem?_eq_some_iff.1 hi).1
      simp only [Manager.afterAppend, List.length_append, List.length_singleton, h.length] at hlt hi
      cases hs : w.mgr.syncsAlways with
      | true =>
        rw [getElem?_map, getElem?_eq_getElem (by simpa using hlt)]
        simp [hok hs]
      | false =>
        rw [hs] at hi
        simp only [Bool.false_and, Bool.or_false, map_id']
        by_cases hlast : i < w.covered.length
        · rw [getElem?_append_left (h.length ▸ hlast)] at hi
          rw [getElem?_append_left hlast]
          exact h.synced i hi
        · rw [getElem?_append_right (by omega), show i - w.mgr.flags.length = 0 by omega] at hi
          simp at hi
    · have hold : ∀ x ∈ w.mgr.waiters, x.offset ≤ w.mgr.currentOffset + frameSize rec :=
        fun x hx => (h.within x hx).trans (Nat.le_add_right _ _)
      simp only [Manager.afterAppend] at hx ⊢
      split_ifs at hx
      · exact hold x hx
      · rcases mem_append.1 hx with hx | hx
        · exact hold x hx
        · rw [mem_singleton.1 hx]

lemma Kept.groupCommit (h : w.Kept) (hok : syncOk ∨ w.mgr.waiters = []) :
    (w.call (.groupCommit syncOk)).Kept := by
  refine ⟨h.enabled, ?_, fun i hi => ?_, fun x hx => ?_⟩
  · simp [call, coveredAfter, Manager.call, Manager.doFdatasync, Manager.length_foldl_set, h.length]
  · simp only [call, coveredAfter, Manager.call, Manager.doFdatasync] at hi ⊢
    rcases hok with rfl | hnone
    · have hlt := (List.getElem?_eq_some_iff.1 hi).1
      rw [Manager.length_foldl_set, h.length] at hlt
      simp [hlt]
    · rw [hnone, filter_nil, foldl_nil] at hi
      simp [h.synced i hi]
  · exact h.within x (mem_of_mem_filter hx)

lemma Kept.call (h : w.Kept) {c : Call} (hok : w.Reliable c) : (w.call c).Kept := by
  cases c with
  | append => exact h.append hok
  | groupCommit => exact h.groupCommit hok
  | markFlushed | replay => exact ⟨h.enabled, h.length, h.synced, h.within⟩
  | compact truncOk =>
    simp only [Watch.call, coveredAfter, Manager.call]
    obtain heq | ⟨hle, -, -, heq⟩ := w.mgr.compact_cases w.disk truncOk
    · rw [heq]
      exact h
    · rw [heq]
      refine ⟨h.enabled, h.length, h.synced, fun x hx => ?_⟩
      rw [show w.mgr.afterCompact.waiters = [] from hok.resolve_left (not_lt.2 hle)] at hx
      cases hx

/-- **Durable means synced**, as long as syncs succeed and nothing is truncated under a waiter. -/
theorem sincere_of_reliable (cfg : WalConfig) (hen : cfg.enabled = true) (calls : List Call)
    (w : Watch)
    (hrun : (fresh cfg).run calls = some w)
    (hok : Runs.Meets (fun w c => some (w.call c)) Reliable (fresh cfg) calls) : w.Sincere := by
  have hstart : (fresh cfg).Kept :=
    ⟨hen, rfl, by simp [fresh, Manager.at], by simp [fresh, Manager.at]⟩
  refine (Runs.run_induction (I := Kept) (fun h hc hnext => ?_) hstart hok hrun).sincere
  cases hnext
  exact h.call hc

theorem sincere_committed : ∃ w,
    (fresh {}).run [.append {} 61 true, .groupCommit true] = some w ∧ w.Sincere := by
  refine ⟨_, rfl, sincere_of_reliable {} rfl [.append {} 61 true, .groupCommit true] _ rfl ?_⟩
  exact ⟨fun _ => rfl, fun _ _ => ⟨.inl rfl, fun _ _ => trivial⟩⟩

theorem not_sincere :
    (∃ w, (fresh {}).run [.append {} 61 true, .groupCommit false] = some w ∧ ¬ w.Sincere) ∧
      ∃ w, (fresh {}).run [.append {} 61 true, .markFlushed 1, .compact true] = some w ∧
        ¬ w.Sincere := by
  refine ⟨⟨_, rfl, fun h => ?_⟩, ⟨_, rfl, fun h => ?_⟩⟩
  · have hsynced := h.synced 0 (by decide +kernel)
    revert hsynced
    decide +kernel
  · have hnone := h.releases
    revert hnone
    decide +kernel

end Watch

end SpidoNG.Wal
