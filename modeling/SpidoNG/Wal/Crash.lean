import SpidoNG.Wal.Manager

/-!
# Crashes and restarts

Which records a replay recovers after any history of opens, appends, syncs, compactions, crashes and
restarts.
-/

namespace SpidoNG.Wal

open FrameLog List Manager

structure Entry where
  record : WalRecord
  flag : Option ℕ
  durable : Bool
  removed : Bool

namespace Entry

def refresh (flags : List Bool) (e : Entry) : Entry :=
  { e with durable := e.durable || e.flag.any fun i => flags.getD i false }

def orphan (e : Entry) : Entry := { e with flag := none }

def remove (e : Entry) : Entry := { e with removed := true }

def owed (e : Entry) : Bool := e.durable && !e.removed

def pending (e : Entry) : Bool := !e.removed && (e.durable || e.flag.isSome)

end Entry

structure History extends System where
  log : List Entry

namespace History

def init : History := ⟨System.init, []⟩

def logAfter (h : History) (m : Manager) : Call → List Entry
  | .append rec written syncOk =>
    match (m.append h.disk rec written syncOk).1 with
    | some handle => h.log ++ [⟨rec, some handle.flag, false, false⟩]
    | none => h.log
  | .compact truncOk =>
    if (m.compact h.disk truncOk).1 = 0 then h.log else h.log.map Entry.remove
  | _ => h.log

def step (h : History) (op : Op) : History :=
  let s := h.toSystem.step op
  match op with
  | .openLog _ => ⟨s, h.log⟩
  | .call c =>
    match h.proc with
    | none => h
    | some m => ⟨s, (h.logAfter m c).map (Entry.refresh (m.call h.disk c).1.flags)⟩
  | .close _ => ⟨s, h.log.map Entry.orphan⟩
  | .crash _ => ⟨s, h.log.map Entry.orphan⟩

def run (h : History) (ops : List Op) : History := ops.foldl step h

def Recovers (h : History) : Prop :=
  ∀ m, h.proc = some m → ∀ fn,
    List.Sublist ((h.log.filter Entry.owed).map fun e => stored e.record)
      ((m.replay h.disk fn).delivered.map (·.record))

/-- Every process uses the log, with checksums on or off as `checksum` says; every sync succeeds;
and records that fit the size field are appended at a clean tail. -/
def GoodOp (checksum : Bool) (h : History) : Op → Prop
  | .openLog cfg => cfg.enabled = true ∧ cfg.checksum = checksum
  | .call (.append rec _ syncOk) => frameSize rec < 2 ^ 32 ∧ syncOk = true ∧
      ∀ m, h.proc = some m → m.CleanTail h.disk
  | .call (.groupCommit syncOk) => syncOk = true
  | _ => True

def GoodRun (checksum : Bool) : History → List Op → Prop
  | _, [] => True
  | h, op :: ops => GoodOp checksum h op ∧ GoodRun checksum (h.step op) ops

def records (p : Entry → Bool) (log : List Entry) : List WalRecord := (log.filter p).map (·.record)

variable {log : List Entry} {flags : List Bool}

lemma records_map {f : Entry → Entry} (hf : ∀ e, (f e).record = e.record) {p q : Entry → Bool}
    (h : ∀ e ∈ log, p (f e) → q e) : List.Sublist (records p (log.map f)) (records q log) := by
  induction log with
  | nil => exact List.Sublist.refl _
  | cons e _ ih =>
    have hrec := ih fun e' he' => h e' (by simp [he'])
    simp only [records, map_cons, filter_cons] at hrec ⊢
    by_cases hp : p (f e)
    · rw [if_pos hp, if_pos (h e (by simp) hp), map_cons, map_cons, hf e]
      exact hrec.cons_cons _
    · rw [if_neg hp]
      split_ifs
      · exact hrec.cons _
      · exact hrec

lemma records_mono {p q : Entry → Bool}
    (h : ∀ e ∈ log, p e → q e) : List.Sublist (records p log) (records q log) := by
  have := @records_map log id (fun _ => rfl) p q h
  rwa [map_id] at this

lemma records_append (p : Entry → Bool) (l l' : List Entry) :
    records p (l ++ l') = records p l ++ records p l' := by
  simp [records]

lemma owed_pending {e : Entry} (h : e.owed) : e.pending := by
  simp only [Entry.owed, Entry.pending, Bool.and_eq_true, Bool.not_eq_true', Bool.or_eq_true] at h ⊢
  exact ⟨h.2, .inl h.1⟩

lemma pending_of_refresh {e : Entry} (h : (e.refresh flags).pending) : e.pending := by
  simp only [Entry.pending, Entry.refresh, Bool.and_eq_true, Bool.not_eq_true',
    Bool.or_eq_true] at h ⊢
  refine ⟨h.1, ?_⟩
  rcases h.2 with (h | h) | h
  · exact .inl h
  · exact .inr (by cases hf : e.flag <;> simp_all)
  · exact .inr h

lemma orphan_pending (e : Entry) : e.orphan.pending = e.owed := by
  cases hd : e.durable <;> cases hr : e.removed <;>
    simp [Entry.pending, Entry.orphan, Entry.owed, hd, hr]

lemma records_orphan (log : List Entry) :
    List.Sublist (records Entry.owed (log.map Entry.orphan)) (records Entry.owed log) ∧
      List.Sublist (records Entry.pending (log.map Entry.orphan)) (records Entry.owed log) := by
  have hsame (e : Entry) : e.orphan.record = e.record := rfl
  refine ⟨records_map hsame fun _ _ he => he, records_map hsame fun e _ he => ?_⟩
  rwa [orphan_pending] at he

structure Laid (checksum : Bool) (d : Disk) (log : List Entry) (items kept : List (ℕ × WalRecord))
    (torn : Bytes) : Prop where
  valid : ∀ p ∈ items, (recordCodec checksum).Valid p
  isTorn : Torn (recordCodec checksum) torn
  file : d.data = fileMagic ++ (frames (recordCodec checksum) items ++ torn)
  isPrefix : kept <+: items
  synced : kept = [] ∨ 8 + (frames (recordCodec checksum) kept).length ≤ d.synced
  owed : List.Sublist (records Entry.owed log) (kept.map (·.2))
  pending : List.Sublist (records Entry.pending log) (items.map (·.2))

structure Alive (checksum : Bool) (d : Disk) (log : List Entry) (items : List (ℕ × WalRecord))
    (m : Manager) : Prop where
  enabled : m.cfg.enabled = true
  sameSum : m.cfg.checksum = checksum
  covers : 8 + (frames (recordCodec checksum) items).length ≤ m.currentOffset
  inFile : m.currentOffset ≤ d.data.length
  flags : ∀ e ∈ log, ∀ i, e.flag = some i →
    i < m.flags.length ∧ (m.flags.getD i false = true → e.durable = true)

structure InUse (checksum : Bool) (h : History) : Prop where
  laid : ∃ items kept torn, Laid checksum h.disk h.log items kept torn ∧
    ∀ m, h.proc = some m → Alive checksum h.disk h.log items m
  orphans : h.proc = none → ∀ e ∈ h.log, e.flag = none

structure Unformatted (h : History) : Prop where
  file : ∃ j < 8, h.disk.data = fileMagic.take j
  closed : h.proc = none
  orphans : ∀ e ∈ h.log, e.flag = none
  owed : records Entry.owed h.log = []

def Inv (checksum : Bool) (h : History) : Prop := Unformatted h ∨ InUse checksum h

lemma inv_init (checksum : Bool) : Inv checksum init :=
  .inl ⟨⟨0, by decide, rfl⟩, rfl, by simp [init], rfl⟩

variable {checksum : Bool} {h : History}

lemma Unformatted.crash (hi : Unformatted h) (k : ℕ) : Inv checksum (h.step (.crash k)) := by
  obtain ⟨⟨j, hj, hdata⟩, -, -, howed⟩ := hi
  refine .inl ⟨⟨min (max k h.disk.synced) j, by omega, ?_⟩, rfl, by simp [step, Entry.orphan], ?_⟩
  · simp [step, System.step, Disk.crash, hdata, take_take]
  · exact sublist_nil.1 (howed ▸ (records_orphan h.log).1)

lemma InUse.crash (hi : InUse checksum h) (k : ℕ) : Inv checksum (h.step (.crash k)) := by
  obtain ⟨items, kept, torn, hl, -⟩ := hi.laid
  obtain ⟨howed, hpen⟩ := records_orphan h.log
  set k' := max k h.disk.synced with hk'
  by_cases hshort : k' < 8
  · -- the magic itself is cut, so nothing had been synced behind it
    have hkept : kept = [] := by
      rcases hl.synced with h0 | h0
      · exact h0
      · omega
    refine .inl ⟨⟨k', hshort, ?_⟩, rfl, by simp [step, Entry.orphan], ?_⟩
    · show h.disk.data.take k' = _
      rw [hl.file, take_fileMagic_of_le hshort.le]
    · have := howed.trans hl.owed
      rw [hkept] at this
      exact sublist_nil.1 this
  · obtain ⟨as1, as2, torn', has, ht', htake, -, hnext⟩ := cut_frames hl.valid hl.isTorn (k' - 8)
    have hpre : kept <+: as1 := by
      obtain ⟨rest, hrest⟩ := hl.isPrefix
      rcases hl.synced with h0 | h0
      · rw [h0]
        exact nil_prefix
      · exact prefix_of_cut (hrest.trans has) (by omega) hnext
    refine .inr ⟨⟨as1, kept, torn', ⟨?_, ht', ?_, hpre, ?_, howed.trans hl.owed, ?_⟩, ?_⟩,
      fun _ => by simp [step, Entry.orphan]⟩
    · intro p hp
      exact hl.valid p (by rw [has]; simp [hp])
    · show h.disk.data.take k' = _
      rw [hl.file, take_fileMagic_of_ge (not_lt.1 hshort), htake]
    · exact hl.synced
    · exact (hpen.trans hl.owed).trans (hpre.sublist.map _)
    · intro m hm
      simp [step, System.step] at hm

lemma Inv.crash (hi : Inv checksum h) (k : ℕ) : Inv checksum (h.step (.crash k)) :=
  hi.elim (fun hu => hu.crash k) fun hu => hu.crash k

lemma Inv.close (hi : Inv checksum h) (syncOk : Bool) : Inv checksum (h.step (.close syncOk)) := by
  obtain ⟨howed, hpen⟩ := records_orphan h.log
  obtain ⟨hdata, hsync, hproc⟩ := h.toSystem.step_close syncOk
  rcases hi with hu | hu
  · refine .inl ⟨?_, hproc, by simp [step, Entry.orphan], ?_⟩
    · obtain ⟨j, hj, hfile⟩ := hu.file
      exact ⟨j, hj, hdata.trans hfile⟩
    · rw [hu.owed] at howed
      exact sublist_nil.1 howed
  · obtain ⟨items, kept, torn, hl, -⟩ := hu.laid
    refine .inr ⟨⟨items, kept, torn, ⟨hl.valid, hl.isTorn, hdata.trans hl.file, hl.isPrefix,
      hl.synced.imp id fun h0 => h0.trans hsync, howed.trans hl.owed,
      (hpen.trans (records_mono fun _ _ => owed_pending)).trans hl.pending⟩, ?_⟩,
      fun _ => by simp [step, Entry.orphan]⟩
    intro m hm
    cases hproc.symm.trans hm

lemma Inv.openLog (hi : Inv checksum h) {cfg : WalConfig} (hg : GoodOp checksum h (.openLog cfg)) :
    Inv checksum (h.step (.openLog cfg)) := by
  obtain ⟨hen, hck⟩ := hg
  cases hp : h.proc with
  | some =>
    have hsame : h.step (.openLog cfg) = h := by
      obtain ⟨⟨d, p⟩, log⟩ := h
      cases hp
      rfl
    rw [hsame]
    exact hi
  | none =>
    have hstep : h.step (.openLog cfg) = ⟨h.toSystem.step (.openLog cfg), h.log⟩ := rfl
    rw [hstep]
    rcases hi with hu | hu
    · obtain ⟨j, hj, hdata⟩ := hu.file
      by_cases hj0 : j = 0
      · -- a fresh file
        have hnil : h.disk.data = [] := by rw [hdata, hj0, take_zero]
        have hfile := Disk.write_fileMagic hnil
        have hpend : records Entry.pending h.log = [] := by
          have := @records_mono h.log Entry.pending Entry.owed fun e he hpe => by
            have := orphan_pending e
            rw [← this]
            have horph : e.orphan = e := by
              rw [Entry.orphan, ← hu.orphans e he]
            rwa [horph]
          rw [hu.owed] at this
          exact sublist_nil.1 this
        rw [System.step_openLog_fresh hp hen hnil]
        refine .inr ⟨⟨[], [], [], ⟨by simp, Torn.nil, by simp [hfile], prefix_refl _,
          .inl rfl, by simp [hu.owed], by simp [hpend]⟩, ?_⟩, by simp⟩
        intro m hm
        cases hm
        refine ⟨hen, hck, by simp [Manager.at], by simp [Manager.at, hfile, length_fileMagic], ?_⟩
        intro e he i hflag
        rw [hu.orphans e he] at hflag
        cases hflag
      · rw [System.step_openLog_part hp hen hj0 hj hdata]
        exact .inl hu
    · obtain ⟨items, kept, torn, hl, -⟩ := hu.laid
      rw [System.step_openLog_formatted hp hen hl.file]
      refine .inr ⟨⟨items, kept, torn, hl, ?_⟩, by simp⟩
      intro m hm
      cases hm
      refine ⟨hen, hck, ?_, le_rfl, ?_⟩
      · simp [Manager.at, hl.file, length_fileMagic]
      · intro e he i hflag
        rw [hu.orphans hp e he] at hflag
        cases hflag

lemma step_call {m : Manager} (hp : h.proc = some m) (c : Call) :
    h.step (.call c) = ⟨⟨(m.call h.disk c).2, some (m.call h.disk c).1⟩,
      (h.logAfter m c).map (Entry.refresh (m.call h.disk c).1.flags)⟩ := by
  simp [step, System.step, hp]

lemma refresh_eq_self {e : Entry} (hf : ∀ i, e.flag = some i → flags.getD i false → e.durable) :
    e.refresh flags = e := by
  obtain ⟨record, flag, durable, removed⟩ := e
  simp only [Entry.refresh, Entry.mk.injEq, true_and, and_true]
  cases flag with
  | none => simp
  | some i =>
    cases hd : flags.getD i false with
    | false | true => simp_all

lemma map_refresh_eq_self (hf : ∀ e ∈ log, ∀ i, e.flag = some i → flags.getD i false → e.durable) :
    log.map (Entry.refresh flags) = log := by
  rw [map_congr_left fun e he => refresh_eq_self (hf e he), map_id']

section Calls

variable {m : Manager} {items kept : List (ℕ × WalRecord)} {torn : Bytes}

lemma InUse.of_same (hp : h.proc = some m) (hl : Laid checksum h.disk h.log items kept torn)
    (ha : Alive checksum h.disk h.log items m) {c : Call} {m' : Manager}
    (hcall : m.call h.disk c = (m', h.disk)) (hlog : h.logAfter m c = h.log)
    (hcfg : m'.cfg = m.cfg) (hoff : m'.currentOffset = m.currentOffset)
    (hflags : m'.flags = m.flags) : InUse checksum (h.step (.call c)) := by
  have hself : h.log.map (Entry.refresh m.flags) = h.log :=
    map_refresh_eq_self fun e he i hi => (ha.flags e he i hi).2
  rw [step_call hp, hcall, hlog, hflags, hself]
  refine ⟨⟨items, kept, torn, hl, ?_⟩, by simp⟩
  intro m1 hm1
  cases hm1
  exact ⟨by rw [hcfg]; exact ha.enabled, by rw [hcfg]; exact ha.sameSum,
    by rw [hoff]; exact ha.covers,
    by rw [hoff]; exact ha.inFile, by rw [hflags]; exact ha.flags⟩

lemma Laid.replay (hl : Laid checksum h.disk h.log items kept torn)
    (ha : Alive checksum h.disk h.log items m) (fn : ℕ → WalRecord → Bool) :
    (m.replay h.disk fn).delivered.map (·.record) = items.map (fun p => stored p.2) ∧
      (m.replay h.disk fn).off = 8 + (frames (recordCodec checksum) items).length := by
  obtain ⟨hen, rfl, hcov, -, -⟩ := ha
  exact ⟨delivered_records hen hl.valid hl.isTorn hl.file hcov fn,
    (replay_frames hen hl.valid hl.isTorn hl.file hcov fn).2⟩

lemma Laid.whole (hl : Laid checksum h.disk h.log items kept torn)
    (ha : Alive checksum h.disk h.log items m) (hc : m.CleanTail h.disk) :
    torn = [] ∧ m.currentOffset = h.disk.data.length := by
  obtain ⟨hen, rfl, hcov, hin, -⟩ := ha
  exact hc.whole hen hl.valid hl.isTorn hl.file hcov hin

lemma flags_append (b : Bool) (hf : ∀ e ∈ log, ∀ i, e.flag = some i →
      i < flags.length ∧ (flags.getD i false → e.durable)) : ∀ e ∈ log, ∀ i, e.flag = some i →
      i < (flags ++ [b]).length ∧ ((flags ++ [b]).getD i false → e.durable) := by
  intro e he i hi
  obtain ⟨h1, h2⟩ := hf e he i hi
  refine ⟨by simp; omega, fun hd => h2 ?_⟩
  rwa [getD_eq_getElem?_getD, getElem?_append_left h1, ← getD_eq_getElem?_getD] at hd

def newEntry (m : Manager) (rec : WalRecord) : Entry :=
  ⟨rec, some m.flags.length, m.syncsAlways, false⟩

variable {rec : WalRecord} {written : ℕ}

lemma logAfter_append (ha : Alive checksum h.disk h.log items m)
    {syncOk : Bool} (hw : frameSize rec ≤ written) :
    (h.logAfter m (.append rec written syncOk)).map (Entry.refresh (m.afterAppend rec).flags) =
      h.log ++ [newEntry m rec] := by
  have hold := map_refresh_eq_self fun e he i hi =>
    (flags_append m.syncsAlways ha.flags e he i hi).2
  simp only [logAfter, Manager.append_whole ha.enabled hw, map_append, map_cons, map_nil,
    afterAppend, hold]
  simp [Entry.refresh, newEntry]

lemma Alive.append {d d' : Disk} (ha : Alive checksum d log items m)
    (hlen : d'.data.length = d.data.length + frameSize rec) :
    Alive checksum d' (log ++ [newEntry m rec]) (items ++ [(m.nextSeq, rec)])
      (m.afterAppend rec) := by
  have hcov := ha.covers
  have hin := ha.inFile
  refine ⟨ha.enabled, ha.sameSum, ?_, ?_, ?_⟩
  · rw [length_frames_concat]
    show _ ≤ m.currentOffset + frameSize rec
    omega
  · show m.currentOffset + frameSize rec ≤ _
    omega
  · intro e he i hi
    rcases mem_append.1 he with he | he
    · exact flags_append m.syncsAlways ha.flags e he i hi
    · rw [mem_singleton.1 he] at hi ⊢
      cases hi
      simp [afterAppend, newEntry]

section

variable (hp : h.proc = some m)
  (hl : Laid checksum h.disk h.log items kept torn)
  (ha : Alive checksum h.disk h.log items m)
include hp hl ha

lemma InUse.append_whole (hw : frameSize rec ≤ written) (hsize : frameSize rec < 2 ^ 32)
    (hc : m.CleanTail h.disk) : InUse checksum (h.step (.call (.append rec written true))) := by
  obtain ⟨rfl, hoff⟩ := hl.whole ha hc
  have hdata : (m.call h.disk (.append rec written true)).2.data = fileMagic ++
      frames (recordCodec checksum) (items ++ [(m.nextSeq, rec)]) := by
    obtain ⟨hen, rfl, -⟩ := ha
    exact append_data hen hw hc.1 (by rw [hl.file, append_nil])
  have hlen : (m.call h.disk (.append rec written true)).2.data.length =
      h.disk.data.length + frameSize rec := by
    rw [hdata, hl.file, length_append, length_frames_concat, append_nil,
      length_append, Nat.add_assoc]
  have hvalid : ∀ p ∈ items ++ [(m.nextSeq, rec)], (recordCodec checksum).Valid p :=
    valid_concat hl.valid hsize
  have hpen : List.Sublist (records Entry.pending (h.log ++ [newEntry m rec]))
      ((items ++ [(m.nextSeq, rec)]).map (·.2)) := by
    rw [records_append, map_append]
    refine hl.pending.append ?_
    simp [records, Entry.pending, newEntry]
  have hmgr : (m.call h.disk (.append rec written true)).1 = m.afterAppend rec := by
    rw [call, Manager.append_whole ha.enabled hw]
  have halv : ∀ m1, some (m.afterAppend rec) = some m1 →
      Alive checksum (m.call h.disk (.append rec written true)).2 (h.log ++ [newEntry m rec])
        (items ++ [(m.nextSeq, rec)]) m1 := by
    rintro m1 ⟨⟩
    exact ha.append hlen
  rw [step_call hp, hmgr, logAfter_append ha hw]
  cases hsync : m.syncsAlways with
  | true =>
    -- synced at once: every frame is out of reach of a crash
    refine ⟨⟨items ++ [(m.nextSeq, rec)], items ++ [(m.nextSeq, rec)], [], ⟨hvalid, Torn.nil,
      by rw [hdata, append_nil], prefix_refl _, .inr ?_,
      (records_mono fun e _ he => owed_pending he).trans hpen, hpen⟩, halv⟩, by simp⟩
    have hall : (m.call h.disk (.append rec written true)).2.synced =
        (m.call h.disk (.append rec written true)).2.data.length := by
      simp [call, Manager.append_whole ha.enabled hw, hsync, Disk.sync]
    rw [hall, hdata, length_append, length_fileMagic]
  | false =>
    refine ⟨⟨items ++ [(m.nextSeq, rec)], kept, [], ⟨hvalid, Torn.nil,
      by rw [hdata, append_nil], hl.isPrefix.trans (prefix_append _ _), ?_, ?_,
      hpen⟩, halv⟩, by simp⟩
    · have hsynced : (m.call h.disk (.append rec written true)).2.synced = h.disk.synced := by
        simp [call, Manager.append_whole ha.enabled hw, hsync, Disk.write_end_synced h.disk hc.1]
      rw [hsynced]
      exact hl.synced
    · rw [records_append]
      simpa [records, Entry.owed, newEntry, hsync] using hl.owed

lemma InUse.append_short (hw : written < frameSize rec) (hsize : frameSize rec < 2 ^ 32)
    (hc : m.CleanTail h.disk) : InUse checksum (h.step (.call (.append rec written true))) := by
  obtain ⟨rfl, hoff⟩ := hl.whole ha hc
  set part := (encode m.cfg.checksum m.nextSeq rec).take written with hpart
  have hdata : (h.disk.write m.pos part).data = h.disk.data ++ part := Disk.write_end _ hc.1 _
  have hself : h.log.map (Entry.refresh m.flags) = h.log :=
    map_refresh_eq_self fun e he i hi => (ha.flags e he i hi).2
  have htorn : Torn (recordCodec checksum) part := by
    rw [hpart, ← ha.sameSum]
    exact m.torn_take_encode hw hsize
  rw [step_call hp, call, logAfter, Manager.append_short ha.enabled hw]
  simp only [hself]
  refine ⟨⟨items, kept, part, ⟨hl.valid, htorn, ?_, hl.isPrefix, ?_, hl.owed, hl.pending⟩, ?_⟩,
    by simp⟩
  · rw [hdata, hl.file]
    simp
  · rw [Disk.write_end_synced _ hc.1]
    exact hl.synced
  · intro m1 hm1
    cases hm1
    refine ⟨ha.enabled, ha.sameSum, ha.covers, ?_, ha.flags⟩
    rw [hdata, length_append]
    exact ha.inFile.trans (Nat.le_add_right _ _)

lemma InUse.groupCommit : InUse checksum (h.step (.call (.groupCommit true))) := by
  set flags := (m.doFdatasync h.disk true).1.flags with hflags
  have hlen : flags.length = m.flags.length := Manager.length_foldl_set _ _
  have hpen : List.Sublist (records Entry.pending (h.log.map (Entry.refresh flags)))
      (items.map (·.2)) :=
    (records_map (f := Entry.refresh flags) (fun _ => rfl)
      fun e _ he => pending_of_refresh he).trans hl.pending
  have hlog : h.logAfter m (.groupCommit true) = h.log := rfl
  rw [step_call hp, call, hlog, ← hflags]
  refine ⟨⟨items, items, torn, ⟨hl.valid, hl.isTorn, hl.file, prefix_refl _, .inr ?_,
    (records_mono fun e _ he => owed_pending he).trans hpen, hpen⟩, ?_⟩, by simp⟩
  · show _ ≤ h.disk.data.length
    rw [hl.file]
    simp only [length_append, length_fileMagic]
    omega
  · intro m1 hm1
    cases hm1
    refine ⟨ha.enabled, ha.sameSum, ha.covers, ha.inFile, ?_⟩
    intro e' he' i hi
    obtain ⟨e, he, rfl⟩ := mem_map.1 he'
    refine ⟨hlen ▸ (ha.flags e he i hi).1, fun hd => ?_⟩
    have hflag : e.flag = some i := hi
    have hd' : flags.getD i false := hd
    simp only [Entry.refresh, hflag, Option.any_some, hd', Bool.or_true]

lemma InUse.compact (truncOk : Bool) : InUse checksum (h.step (.call (.compact truncOk))) := by
  obtain heq | ⟨-, hlt, -, heq⟩ := m.compact_cases h.disk truncOk
  · refine InUse.of_same hp hl ha ?_ ?_ rfl rfl rfl
    · rw [call, heq]
    · rw [logAfter, heq]
      rfl
  · -- every record is removed
    have hmagic : h.disk.data.take 8 = fileMagic := by rw [hl.file, take_fileMagic]
    have hremoved : ∀ p : Entry → Bool, (∀ e : Entry, e.removed → p e = false) →
        records p ((h.log.map Entry.remove).map (Entry.refresh m.flags)) = [] := by
      intro p hp'
      rw [records, map_eq_nil_iff, filter_eq_nil_iff]
      intro e he
      obtain ⟨e1, he1, rfl⟩ := mem_map.1 he
      obtain ⟨e2, -, rfl⟩ := mem_map.1 he1
      simp [hp' _ (show ((e2.remove).refresh m.flags).removed from rfl)]
    rw [step_call hp, call, logAfter, heq]
    rw [if_neg (by simp only; omega)]
    refine ⟨⟨[], [], [], ⟨by simp, Torn.nil, ?_, prefix_refl _, .inl rfl, ?_, ?_⟩, ?_⟩, by simp⟩
    · simpa [Disk.truncate] using hmagic
    · show List.Sublist (records Entry.owed _) []
      rw [afterCompact, hremoved _ fun e he => by simp [Entry.owed, he]]
    · show List.Sublist (records Entry.pending _) []
      rw [afterCompact, hremoved _ fun e he => by simp [Entry.pending, he]]
    · intro m1 hm1
      cases hm1
      refine ⟨ha.enabled, ha.sameSum, by simp [afterCompact], ?_, ?_⟩
      · show 8 ≤ (h.disk.data.take 8).length
        rw [hmagic, length_fileMagic]
      · intro e' he' i hi
        obtain ⟨e1, he1, rfl⟩ := mem_map.1 he'
        obtain ⟨e, he, rfl⟩ := mem_map.1 he1
        obtain ⟨h1, h2⟩ := ha.flags e he i hi
        exact ⟨h1, fun hd => by simp [Entry.refresh, Entry.remove, h2 hd]⟩

end

lemma InUse.call (hu : InUse checksum h) {c : Call} (hg : GoodOp checksum h (.call c)) :
    InUse checksum (h.step (.call c)) := by
  cases hp : h.proc with
  | none =>
    have hsame : h.step (.call c) = h := by simp [step, hp]
    rw [hsame]
    exact hu
  | some m =>
    obtain ⟨items, kept, torn, hl, hal⟩ := hu.laid
    have ha := hal m hp
    cases c with
    | append rec written =>
      obtain ⟨hsize, rfl, hclean⟩ := hg
      by_cases hw : frameSize rec ≤ written
      · exact InUse.append_whole hp hl ha hw hsize (hclean m hp)
      · exact InUse.append_short hp hl ha (not_le.1 hw) hsize (hclean m hp)
    | groupCommit syncOk =>
      obtain rfl : syncOk := hg
      exact InUse.groupCommit hp hl ha
    | markFlushed | replay => exact InUse.of_same hp hl ha rfl rfl rfl rfl rfl
    | compact truncOk => exact InUse.compact hp hl ha truncOk

end Calls

lemma Inv.step (hi : Inv checksum h) {op : Op} (hg : GoodOp checksum h op) :
    Inv checksum (h.step op) := by
  cases op with
  | openLog => exact hi.openLog hg
  | call c =>
    rcases hi with hu | hu
    · have hsame : h.step (.call c) = h := by simp [History.step, hu.closed]
      rw [hsame]
      exact .inl hu
    · exact .inr (hu.call hg)
  | close syncOk => exact hi.close syncOk
  | crash k => exact hi.crash k

lemma Inv.run (hi : Inv checksum h) {ops : List Op} (hg : GoodRun checksum h ops) :
    Inv checksum (h.run ops) := by
  induction ops generalizing h with
  | nil => exact hi
  | cons _ _ ih => exact ih (hi.step hg.1) hg.2

lemma Inv.recovers (hi : Inv checksum h) : h.Recovers := by
  intro m hp fn
  rcases hi with hu | hu
  · rw [hu.closed] at hp
    cases hp
  · obtain ⟨items, kept, torn, hl, hal⟩ := hu.laid
    rw [(hl.replay (hal m hp) fn).1]
    have := (hl.owed.trans (hl.isPrefix.sublist.map _)).map stored
    rw [records, map_map, map_map] at this
    exact this

/-- **Recovery after crashes** in every state that good operations lead to. -/
theorem recovers_of_goodRun (checksum : Bool) (ops : List Op) (hg : GoodRun checksum init ops) :
    (init.run ops).Recovers := ((inv_init checksum).run hg).recovers

def crashOnce : List Op :=
  [.openLog { fsyncMode := .FdatasyncAlways }, .call (.append {} 61 true), .crash 0, .openLog {}]

theorem recovers_crashOnce : GoodRun true init crashOnce ∧ (init.run crashOnce).Recovers := by
  have hg : GoodRun true init crashOnce := by
    refine ⟨⟨rfl, rfl⟩, ⟨by decide, rfl, ?_⟩, trivial, ⟨rfl, rfl⟩, trivial⟩
    intro m hm
    cases hm
    exact ⟨rfl, by decide +kernel⟩
  exact ⟨hg, recovers_of_goodRun true crashOnce hg⟩

def appendBehindTorn : List Op :=
  [.openLog {}, .call (.append {} 61 true), .crash 18, .openLog {}, .call (.append {} 61 true),
    .call (.groupCommit true)]

theorem not_recovers_appendBehindTorn : ¬ (init.run appendBehindTorn).Recovers := by
  intro hr
  have hlen := (hr _ rfl fun _ _ => true).length_le
  revert hlen
  decide +kernel

end History

end SpidoNG.Wal
