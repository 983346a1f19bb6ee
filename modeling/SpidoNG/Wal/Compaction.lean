import SpidoNG.Wal.Manager

/-!
# Compaction and unflushed work

Compaction truncates the log when everything appended counts as flushed.
-/

namespace SpidoNG.Wal

open FrameLog List

structure Tracked where
  seq : ℕ
  record : WalRecord
  start : ℕ
  procs : List ℕ
  accepted : Bool

namespace Tracked

def item (e : Tracked) : ℕ × WalRecord := (e.seq, e.record)

def stop (e : Tracked) : ℕ := e.start + frameSize e.record

def flushed (marks : List (ℕ × ℕ)) (e : Tracked) : Bool :=
  e.accepted || marks.any fun mark => e.procs.contains mark.1 && decide (e.seq ≤ mark.2)

def note (proc : ℕ) (delivered : List Delivery) (e : Tracked) : Tracked :=
  { e with
    procs := if delivered.any fun x => x.offset == e.start then proc :: e.procs else e.procs
    accepted := e.accepted || delivered.any fun x => x.offset == e.start && x.accepted }

end Tracked

structure Ledger extends System where
  current : ℕ
  entries : List Tracked
  marks : List (ℕ × ℕ)
  caughtUp : Bool
  dropped : List Tracked

namespace Ledger

def init : Ledger := ⟨System.init, 0, [], [], false, []⟩

def call (h : Ledger) (m : Manager) (c : Call) : Ledger :=
  let s : System := ⟨(m.call h.disk c).2, some (m.call h.disk c).1⟩
  match c with
  | .append rec written syncOk =>
    match (m.append h.disk rec written syncOk).1 with
    | some handle =>
      { h with toSystem := s
               entries := h.entries ++ [⟨handle.sequence, rec, m.pos, [h.current], false⟩] }
    | none => { h with toSystem := s }
  | .markFlushed n => { h with toSystem := s, marks := h.marks ++ [(h.current, n)] }
  | .compact truncOk =>
    if (m.compact h.disk truncOk).1 = 0 then { h with toSystem := s }
    else
      { h with toSystem := s
               entries := []
               dropped := h.dropped ++ h.entries.filter fun e => !e.flushed h.marks }
  | .replay fn =>
    { h with toSystem := s
             entries := h.entries.map (Tracked.note h.current (m.replay h.disk fn).delivered)
             caughtUp := true }
  | .groupCommit _ => { h with toSystem := s }

def step (h : Ledger) (op : Op) : Ledger :=
  match op, h.proc with
  | .openLog _, none =>
    { h with toSystem := h.toSystem.step op
             current := h.current + 1
             caughtUp := decide (h.disk.data.length ≤ 8) }
  | .openLog _, some _ => h
  | .call _, none => h
  | .call c, some m => h.call m c
  | .close _, _ => { h with toSystem := h.toSystem.step op }
  | .crash k, _ =>
    { h with toSystem := h.toSystem.step op
             entries := h.entries.filter fun e => decide (e.stop ≤ max k h.disk.synced) }

def run (h : Ledger) (ops : List Op) : Ledger := ops.foldl step h

def DropsNothing (h : Ledger) : Prop := h.dropped = []

/-- Every process replays what it found before it appends or compacts, and appends at a clean tail;
numbers do not overflow, and no record is accepted after one was refused. -/
def GoodOp (checksum : Bool) (h : Ledger) : Op → Prop
  | .openLog cfg => cfg.enabled = true ∧ cfg.checksum = checksum
  | .call (.append rec _ _) => frameSize rec < 2 ^ 32 ∧ h.caughtUp = true ∧
      ∀ m, h.proc = some m → m.CleanTail h.disk ∧ m.appendedSeq + 1 < 2 ^ 64
  | .call (.compact _) => h.caughtUp = true
  | .call (.replay fn) => ∀ m, h.proc = some m →
      (m.replay h.disk fn).delivered.Pairwise fun x y => y.accepted = true → x.accepted = true
  | _ => True

def GoodRun (checksum : Bool) : Ledger → List Op → Prop
  | _, [] => True
  | h, op :: ops => GoodOp checksum h op ∧ GoodRun checksum (h.step op) ops

end Ledger

lemma replayLoop_counters (m : Manager) (d : Disk) (fn : ℕ → WalRecord → Bool) (n : ℕ)
    (r : Replay) : (∃ ds, (replayLoop m d fn n r).delivered = r.delivered ++ ds ∧
      (∀ x ∈ ds, x.seq ≤ (replayLoop m d fn n r).appendedSeq) ∧
      r.appendedSeq ≤ (replayLoop m d fn n r).appendedSeq ∧
      ((replayLoop m d fn n r).flushedSeq = r.flushedSeq ∨
        ∃ x ∈ ds, x.accepted ∧ (replayLoop m d fn n r).flushedSeq = x.seq)) := by
  induction n generalizing r with
  | zero => exact ⟨[], by simp [replayLoop], by simp, le_rfl, .inl rfl⟩
  | succ n ih =>
    rw [replayLoop]
    split_ifs with hoff
    · split
      · exact ⟨[], by simp, by simp, le_rfl, .inl rfl⟩
      · exact ⟨[], by simp, by simp, le_rfl, .inl rfl⟩
      · next total seq rec _ =>
        obtain ⟨ds, h1, h2, h3, h4⟩ := ih (r.after fn total seq rec)
        simp only [Replay.after] at h1 h2 h3 h4
        refine ⟨⟨r.off, seq, rec, fn r.delivered.length rec⟩ :: ds, ?_, ?_, ?_, ?_⟩
        · rw [h1]
          simp
        · intro x hx
          rcases mem_cons.1 hx with rfl | hx
          · exact (le_max_right _ _).trans h3
          · exact h2 x hx
        · exact (le_max_left _ _).trans h3
        · rcases h4 with h4 | ⟨x, hx, hacc, h4⟩
          · by_cases hok : fn r.delivered.length rec
            · exact .inr ⟨⟨r.off, seq, rec, fn r.delivered.length rec⟩, by simp, hok,
                by rw [h4, if_pos hok]⟩
            · exact .inl (by rw [h4, if_neg hok])
          · exact .inr ⟨x, by simp [hx], hacc, h4⟩
    · exact ⟨[], by simp, by simp, le_rfl, .inl rfl⟩

lemma replay_counters (m : Manager) (d : Disk) (fn : ℕ → WalRecord → Bool) :
    (∀ x ∈ (m.replay d fn).delivered, x.seq ≤ (m.replay d fn).appendedSeq) ∧
      m.appendedSeq ≤ (m.replay d fn).appendedSeq ∧ ((m.replay d fn).flushedSeq = m.flushedSeq ∨
        ∃ x ∈ (m.replay d fn).delivered, x.accepted ∧ (m.replay d fn).flushedSeq = x.seq) := by
  unfold Manager.replay
  split_ifs
  · obtain ⟨ds, h1, h2, h3, h4⟩ := replayLoop_counters m d fn (m.currentOffset + 1)
      ⟨8, m.appendedSeq, m.flushedSeq, [], false⟩
    rw [nil_append] at h1
    rw [← h1] at h2 h4
    exact ⟨h2, h3, h4⟩
  · exact ⟨by simp, le_rfl, .inl rfl⟩

namespace Ledger

def Placed : ℕ → List Tracked → Prop
  | _, [] => True
  | off, e :: es => e.start = off ∧ Placed e.stop es

structure Laid (checksum : Bool) (d : Disk) (entries : List Tracked) (torn : Bytes) : Prop where
  valid : ∀ p ∈ entries.map Tracked.item, (recordCodec checksum).Valid p
  isTorn : Torn (recordCodec checksum) torn
  file : d.data = fileMagic ++ (frames (recordCodec checksum) (entries.map Tracked.item) ++ torn)
  placed : Placed 8 entries
  increasing : entries.Pairwise fun e e' => e.seq < e'.seq
  positive : ∀ e ∈ entries, 0 < e.seq

def Marked (h : Ledger) (n : ℕ) : Prop := ∃ k, (h.current, k) ∈ h.marks ∧ n ≤ k

structure Alive (checksum : Bool) (h : Ledger) (m : Manager) : Prop where
  enabled : m.cfg.enabled = true
  sameSum : m.cfg.checksum = checksum
  covers : 8 + (frames (recordCodec checksum) (h.entries.map Tracked.item)).length ≤ m.currentOffset
  inFile : m.currentOffset ≤ h.disk.data.length
  flushed : ∀ e ∈ h.entries, e.seq ≤ m.flushedSeq → e.flushed h.marks = true ∨ h.Marked e.seq
  bound : m.flushedSeq ≤ m.appendedSeq ∨ h.Marked m.flushedSeq
  known : h.caughtUp = true → ∀ e ∈ h.entries, e.seq ≤ m.appendedSeq ∧ h.current ∈ e.procs

structure InUse (checksum : Bool) (h : Ledger) : Prop where
  laid : ∃ torn, Laid checksum h.disk h.entries torn
  alive : ∀ m, h.proc = some m → Alive checksum h m

structure Unformatted (h : Ledger) : Prop where
  file : ∃ j < 8, h.disk.data = fileMagic.take j
  closed : h.proc = none
  entries : h.entries = []

structure Inv (checksum : Bool) (h : Ledger) : Prop where
  layout : Unformatted h ∨ InUse checksum h
  dropped : h.DropsNothing

lemma inv_init (checksum : Bool) : Inv checksum init :=
  ⟨.inl ⟨⟨0, by decide, rfl⟩, rfl, rfl⟩, rfl⟩

variable {checksum : Bool} {h : Ledger} {es : List Tracked} {off : ℕ}

lemma Placed.start_ge (hp : Placed off es) : ∀ e ∈ es, off ≤ e.start := by
  induction es generalizing off with
  | nil => simp
  | cons _ _ ih =>
    obtain ⟨rfl, hp⟩ := hp
    intro e he
    rcases mem_cons.1 he with rfl | he
    · exact le_rfl
    · exact (Nat.le_add_right _ _).trans (ih hp e he)

lemma length_enc_item (a : Tracked) :
    ((recordCodec checksum).enc a.item).length = frameSize a.record := length_encode _ _ _

lemma Placed.stop_le (hp : Placed off es) :
    ∀ e ∈ es, e.stop ≤ off + (frames (recordCodec checksum) (es.map Tracked.item)).length := by
  induction es generalizing off with
  | nil => simp
  | cons a _ ih =>
    obtain ⟨rfl, hp⟩ := hp
    intro e he
    rw [map_cons, frames_cons, length_append, length_enc_item]
    rcases mem_cons.1 he with rfl | he
    · simp only [Tracked.stop]
      omega
    · have := ih hp e he
      simp only [Tracked.stop] at this ⊢
      omega

lemma Placed.append {es' : List Tracked} : Placed off (es ++ es') ↔ Placed off es ∧
      Placed (off + (frames (recordCodec checksum) (es.map Tracked.item)).length) es' := by
  induction es generalizing off with
  | nil => simp [Placed]
  | cons a _ ih =>
    rw [cons_append, Placed, Placed, ih, map_cons, frames_cons, length_append, length_enc_item]
    simp only [Tracked.stop]
    constructor
    · rintro ⟨rfl, h1, h2⟩
      exact ⟨⟨rfl, h1⟩, by rwa [← Nat.add_assoc]⟩
    · rintro ⟨⟨rfl, h1⟩, h2⟩
      exact ⟨rfl, h1, by rwa [← Nat.add_assoc] at h2⟩

lemma Placed.positions (hp : Placed off es) :
    FrameLog.positions (recordCodec checksum) off (es.map Tracked.item) =
      es.map fun e => (e.start, e.item) := by
  induction es generalizing off with
  | nil => rfl
  | cons a _ ih =>
    obtain ⟨rfl, hp⟩ := hp
    rw [map_cons, FrameLog.positions, length_enc_item, map_cons]
    exact congrArg _ (ih hp)

lemma Placed.filter_cut {k : ℕ} {es' : List Tracked} (hp : Placed off (es ++ es'))
    (hle : off + (frames (recordCodec checksum) (es.map Tracked.item)).length ≤ k)
    (hnext : ∀ e tl, es' = e :: tl → k < e.stop) :
    (es ++ es').filter (fun e => decide (e.stop ≤ k)) = es := by
  obtain ⟨hp1, hp2⟩ := (@Placed.append checksum _ _ _).1 hp
  have hkeep : ∀ e ∈ es, e.stop ≤ k := by
    intro e he
    exact (@Placed.stop_le checksum _ _ hp1 e he).trans hle
  have hlose : ∀ e ∈ es', ¬ e.stop ≤ k := by
    cases es' with
    | nil => simp
    | cons a tl =>
      have hcut := hnext a tl rfl
      intro e he
      rcases mem_cons.1 he with rfl | he
      · omega
      · have hge := hp2.2.start_ge e he
        simp only [Tracked.stop] at hge hcut ⊢
        omega
  rw [filter_append, filter_eq_self.2 (by simpa using hkeep),
    filter_eq_nil_iff.2 (by simpa using hlose), append_nil]

lemma Placed.note {proc : ℕ} {delivered : List Delivery}
    (hp : Placed off es) : Placed off (es.map (Tracked.note proc delivered)) := by
  induction es generalizing off with
  | nil => exact hp
  | cons _ _ ih => exact ⟨hp.1, ih hp.2⟩

lemma Unformatted.crash (hu : Unformatted h) (k : ℕ) : Unformatted (h.step (.crash k)) := by
  obtain ⟨j, hj, hdata⟩ := hu.file
  refine ⟨⟨min (max k h.disk.synced) j, by omega, ?_⟩, rfl, ?_⟩
  · simp [step, System.step, Disk.crash, hdata, take_take]
  · simp [step, hu.entries]

lemma InUse.crash (hu : InUse checksum h) (k : ℕ) :
    Unformatted (h.step (.crash k)) ∨ InUse checksum (h.step (.crash k)) := by
  obtain ⟨torn, hl⟩ := hu.laid
  set k' := max k h.disk.synced with hk'
  have hent : (h.step (.crash k)).entries = h.entries.filter fun e => decide (e.stop ≤ k') := rfl
  by_cases hshort : k' < 8
  · refine .inl ⟨⟨k', hshort, ?_⟩, rfl, ?_⟩
    · show h.disk.data.take k' = _
      rw [hl.file, take_fileMagic_of_le hshort.le]
    · rw [hent, filter_eq_nil_iff]
      intro e he
      have hge := hl.placed.start_ge e he
      have hlose : ¬ e.stop ≤ k' := by
        rw [Tracked.stop]
        omega
      simpa using hlose
  · obtain ⟨as1, as2, torn', has, ht', htake, hle, hnext⟩ := cut_frames hl.valid hl.isTorn (k' - 8)
    obtain ⟨es1, es2, hes, hes1, hes2⟩ := map_eq_append_iff.1 has
    have hplaced := hl.placed
    rw [hes] at hplaced
    obtain ⟨hp1, hp2⟩ := (@Placed.append checksum _ _ _).1 hplaced
    rw [hes1] at hp2
    -- the entries that are kept are those whose frames are whole
    have hfilter : h.entries.filter (fun e => decide (e.stop ≤ k')) = es1 := by
      rw [hes]
      refine @Placed.filter_cut checksum _ _ _ _ hplaced (by rw [hes1]; omega) ?_
      rintro a es3 rfl
      have hcut := hnext a.item (es3.map Tracked.item) (by rw [← hes2]; rfl)
      simp only [frames_append, frames_cons, frames_nil, append_nil, length_append,
        length_enc_item] at hcut
      simp only [Tracked.stop, hp2.1]
      omega
    refine .inr ⟨⟨torn', ?_⟩, ?_⟩
    · rw [hent, hfilter]
      refine ⟨?_, ht', ?_, hp1, ?_, ?_⟩
      · intro p hp
        refine hl.valid p ?_
        rw [hes, map_append]
        exact mem_append_left _ hp
      · show h.disk.data.take k' = _
        rw [hl.file, take_fileMagic_of_ge (not_lt.1 hshort), htake, hes1]
      · have := hl.increasing
        rw [hes] at this
        exact (pairwise_append.1 this).1
      · intro e he
        exact hl.positive e (by rw [hes]; simp [he])
    · intro m hm
      cases hm

lemma Inv.crash (hi : Inv checksum h) (k : ℕ) : Inv checksum (h.step (.crash k)) :=
  ⟨hi.layout.elim (fun hu => .inl (hu.crash k)) fun hu => hu.crash k, hi.dropped⟩

lemma Inv.close (hi : Inv checksum h) (syncOk : Bool) : Inv checksum (h.step (.close syncOk)) := by
  have hstep : h.step (.close syncOk) = { h with toSystem := h.toSystem.step (.close syncOk) } := by
    simp [step]
  rw [hstep]
  obtain ⟨hdata, -, hproc⟩ := h.toSystem.step_close syncOk
  refine ⟨?_, hi.dropped⟩
  rcases hi.layout with hu | hu
  · obtain ⟨j, hj, hfile⟩ := hu.file
    exact .inl ⟨⟨j, hj, hdata.trans hfile⟩, hproc, hu.entries⟩
  · obtain ⟨torn, hl⟩ := hu.laid
    refine .inr ⟨⟨torn, hl.valid, hl.isTorn, hdata.trans hl.file, hl.placed, hl.increasing,
      hl.positive⟩, ?_⟩
    intro m hm
    cases hproc.symm.trans hm

lemma step_openLog {cfg : WalConfig} (hp : h.proc = none) :
    h.step (.openLog cfg) = { h with toSystem := h.toSystem.step (.openLog cfg)
                                     current := h.current + 1
                                     caughtUp := decide (h.disk.data.length ≤ 8) } := by
  simp [step, hp]

lemma Inv.openLog (hi : Inv checksum h) {cfg : WalConfig}
    (hg : GoodOp checksum h (.openLog cfg)) : Inv checksum (h.step (.openLog cfg)) := by
  obtain ⟨hen, hck⟩ := hg
  cases hp : h.proc with
  | some =>
    have hsame : h.step (.openLog cfg) = h := by simp [step, hp]
    rw [hsame]
    exact hi
  | none =>
    rw [step_openLog hp]
    refine ⟨?_, hi.dropped⟩
    rcases hi.layout with hu | hu
    · obtain ⟨j, hj, hdata⟩ := hu.file
      by_cases hj0 : j = 0
      · -- a fresh file
        have hnil : h.disk.data = [] := by rw [hdata, hj0, take_zero]
        have hfile := Disk.write_fileMagic hnil
        rw [System.step_openLog_fresh hp hen hnil]
        refine .inr ⟨⟨[], ?_⟩, ?_⟩
        · simp only [hu.entries]
          exact ⟨by simp, Torn.nil, by simp [hfile], trivial, List.Pairwise.nil, by simp⟩
        · intro m hm
          cases hm
          refine ⟨hen, hck, ?_, ?_, ?_, .inl le_rfl, ?_⟩
          · simp [hu.entries, Manager.at]
          · simp [hfile, Manager.at, length_fileMagic]
          · simp [hu.entries]
          · simp [hu.entries]
      · rw [System.step_openLog_part hp hen hj0 hj hdata]
        exact .inl ⟨hu.file, hu.closed, hu.entries⟩
    · obtain ⟨torn, hl⟩ := hu.laid
      have hlen := congrArg List.length hl.file
      simp only [length_append, length_fileMagic] at hlen
      rw [System.step_openLog_formatted hp hen hl.file]
      refine .inr ⟨⟨torn, hl⟩, ?_⟩
      intro m hm
      cases hm
      refine ⟨hen, hck, ?_, le_rfl, ?_, .inl le_rfl, ?_⟩
      · simp only [Manager.at]
        omega
      · -- nothing counts as flushed yet
        intro e he hle
        have := hl.positive e he
        simp only [Manager.at] at hle
        omega
      · -- a process has caught up at once only when there is no record
        intro hcaught e he
        have hsmall : h.disk.data.length ≤ 8 := by simpa using hcaught
        have := @Placed.stop_le checksum _ _ hl.placed e he
        have := hl.placed.start_ge e he
        simp only [Tracked.stop, frameSize] at *
        omega

section Calls

variable {m : Manager} {torn : Bytes} {e : Tracked}

lemma flushed_mono {marks marks' : List (ℕ × ℕ)} (hsub : marks ⊆ marks')
    (hf : e.flushed marks) : e.flushed marks' := by
  simp only [Tracked.flushed, Bool.or_eq_true, any_eq_true] at hf ⊢
  exact hf.imp id fun ⟨mark, hmem, h1⟩ => ⟨mark, hsub hmem, h1⟩

lemma flushed_of_marked (hm : h.Marked e.seq) (hk : h.current ∈ e.procs) : e.flushed h.marks := by
  obtain ⟨k, hmem, hle⟩ := hm
  simp only [Tracked.flushed, Bool.or_eq_true, any_eq_true]
  exact .inr ⟨(h.current, k), hmem, by simp [hk, hle]⟩

variable (hl : Laid checksum h.disk h.entries torn) (ha : Alive checksum h m)
include hl ha

lemma InUse.of_same
    {s : System} {m' : Manager} (hdata : s.disk.data = h.disk.data) (hproc : s.proc = some m')
    (hcfg : m'.cfg = m.cfg) (hoff : m'.currentOffset = m.currentOffset)
    (happ : m'.appendedSeq = m.appendedSeq) (hflushed : m'.flushedSeq = m.flushedSeq) :
    InUse checksum { h with toSystem := s } := by
  refine ⟨⟨torn, hl.valid, hl.isTorn, by rw [hdata, hl.file], hl.placed, hl.increasing,
    hl.positive⟩, ?_⟩
  intro m1 hm1
  obtain rfl : m' = m1 := by simpa [hproc] using hm1
  refine ⟨by rw [hcfg]; exact ha.enabled, by rw [hcfg]; exact ha.sameSum,
    by rw [hoff]; exact ha.covers, ?_, ?_, ?_, ?_⟩
  · rw [hoff, hdata]
    exact ha.inFile
  · rw [hflushed]
    exact ha.flushed
  · rw [hflushed, happ]
    exact ha.bound
  · rw [happ]
    exact ha.known

section Append

variable {rec : WalRecord} {written : ℕ} {syncOk : Bool}

omit hl ha in
lemma Laid.concat {d d' : Disk} {entries : List Tracked} {new : Tracked}
    (hl : Laid checksum d entries []) (hdata : d'.data = fileMagic ++
      frames (recordCodec checksum) (entries.map Tracked.item ++ [new.item]))
    (hv : ∀ p ∈ entries.map Tracked.item ++ [new.item], (recordCodec checksum).Valid p)
    (hstart : new.start = d.data.length) (hlarge : ∀ e ∈ entries, e.seq < new.seq)
    (hpos : 0 < new.seq) : Laid checksum d' (entries ++ [new]) [] := by
  have hmap : (entries ++ [new]).map Tracked.item = entries.map Tracked.item ++
    [new.item] := by simp
  refine ⟨?_, Torn.nil, ?_, ?_, ?_, ?_⟩
  · rw [hmap]
    exact hv
  · rw [hmap, append_nil]
    exact hdata
  · rw [@Placed.append checksum]
    refine ⟨hl.placed, ?_, trivial⟩
    rw [hstart, hl.file, append_nil, length_append, length_fileMagic]
  · rw [pairwise_append]
    refine ⟨hl.increasing, pairwise_singleton _ _, ?_⟩
    intro e he e' he'
    rw [mem_singleton.1 he']
    exact hlarge e he
  · intro e he
    rcases mem_append.1 he with he | he
    · exact hl.positive e he
    · rw [mem_singleton.1 he]
      exact hpos

lemma InUse.append_whole
    (hw : frameSize rec ≤ written) (hsize : frameSize rec < 2 ^ 32) (hcaught : h.caughtUp)
    (hc : m.CleanTail h.disk) (hseq : m.appendedSeq + 1 < 2 ^ 64) :
    InUse checksum (h.call m (.append rec written syncOk)) := by
  have hnext : m.nextSeq = m.appendedSeq + 1 := Bytes.wrap_of_lt hseq
  obtain ⟨hen, rfl, hcov, hin, hflushed, hbound, hkn⟩ := ha
  obtain ⟨rfl, hoff⟩ := hc.whole hen hl.valid hl.isTorn hl.file hcov hin
  set new : Tracked := ⟨m.nextSeq, rec, m.pos, [h.current], false⟩ with hnew
  have hdata : (m.call h.disk (.append rec written syncOk)).2.data = fileMagic ++
      frames (recordCodec m.cfg.checksum) (h.entries.map Tracked.item ++ [new.item]) :=
    Manager.append_data hen hw hc.1 (by rw [hl.file, append_nil])
  have hcall : h.call m (.append rec written syncOk) =
      { h with toSystem := ⟨(m.call h.disk (.append rec written syncOk)).2,
        some (m.afterAppend rec)⟩
               entries := h.entries ++ [new] } := by
    simp only [Ledger.call, Manager.call, Manager.append_whole hen hw]
    rfl
  have hmap : (h.entries ++ [new]).map Tracked.item = h.entries.map Tracked.item ++ [new.item] := by
    simp
  have hlen : (frames (recordCodec m.cfg.checksum)
      (h.entries.map Tracked.item ++ [new.item])).length =
      (frames (recordCodec m.cfg.checksum) (h.entries.map Tracked.item)).length + frameSize rec :=
    length_frames_concat _ _ _ _
  rw [hcall]
  refine ⟨⟨[], ?_⟩, ?_⟩
  · refine hl.concat hdata (Manager.valid_concat hl.valid hsize) hc.1 ?_ ?_
    · intro e he
      have := (hkn hcaught e he).1
      show e.seq < m.nextSeq
      omega
    · show 0 < m.nextSeq
      omega
  · intro m1 hm1
    cases hm1
    refine ⟨hen, rfl, ?_, ?_, ?_, ?_, ?_⟩
    · rw [hmap, hlen]
      show _ ≤ m.currentOffset + frameSize rec
      omega
    · have hend := congrArg List.length hl.file
      simp only [length_append, length_fileMagic, append_nil] at hend
      show m.currentOffset + frameSize rec ≤ _
      rw [hdata, length_append, length_fileMagic, hlen]
      omega
    · intro e he hle
      rcases mem_append.1 he with he | he
      · exact hflushed e he hle
      · -- a number that counts as flushed before it is given out was marked
        rw [mem_singleton.1 he] at hle ⊢
        have hle' : m.nextSeq ≤ m.flushedSeq := hle
        rcases hbound with hb | ⟨k, hmem, hk⟩
        · omega
        · exact .inr ⟨k, hmem, hle'.trans hk⟩
    · refine hbound.imp (fun hb => ?_) id
      show m.flushedSeq ≤ m.nextSeq
      omega
    · intro _ e he
      show e.seq ≤ m.nextSeq ∧ h.current ∈ e.procs
      rcases mem_append.1 he with he | he
      · have := hkn hcaught e he
        exact ⟨by omega, this.2⟩
      · rw [mem_singleton.1 he]
        exact ⟨le_rfl, by simp [hnew]⟩

lemma InUse.append_short
    (hw : written < frameSize rec) (hsize : frameSize rec < 2 ^ 32) (hc : m.CleanTail h.disk)
    (hseq : m.appendedSeq + 1 < 2 ^ 64) :
    InUse checksum (h.call m (.append rec written syncOk)) := by
  have hnext : m.nextSeq = m.appendedSeq + 1 := Bytes.wrap_of_lt hseq
  obtain ⟨hen, rfl, hcov, hin, hflushed, hbound, hkn⟩ := ha
  obtain ⟨rfl, hoff⟩ := hc.whole hen hl.valid hl.isTorn hl.file hcov hin
  have hdata : (h.disk.write m.pos ((encode m.cfg.checksum m.nextSeq rec).take written)).data =
      h.disk.data ++ (encode m.cfg.checksum m.nextSeq rec).take written := Disk.write_end _ hc.1 _
  simp only [Ledger.call, Manager.call, Manager.append_short hen hw]
  refine ⟨⟨(encode m.cfg.checksum m.nextSeq rec).take written, hl.valid,
    m.torn_take_encode hw hsize, ?_, hl.placed, hl.increasing, hl.positive⟩, ?_⟩
  · rw [hdata, hl.file]
    simp
  · intro m1 hm1
    cases hm1
    refine ⟨hen, rfl, hcov, ?_, hflushed, hbound.imp (fun hb => ?_) id, fun hcu e he => ?_⟩
    · rw [hdata, length_append]
      exact hin.trans (Nat.le_add_right _ _)
    · show m.flushedSeq ≤ m.nextSeq
      omega
    · have := hkn hcu e he
      exact ⟨by show e.seq ≤ m.nextSeq; omega, this.2⟩

lemma InUse.append (hsize : frameSize rec < 2 ^ 32) (hcaught : h.caughtUp) (hc : m.CleanTail h.disk)
    (hseq : m.appendedSeq + 1 < 2 ^ 64) :
    InUse checksum (h.call m (.append rec written syncOk)) := by
  by_cases hw : frameSize rec ≤ written
  · exact InUse.append_whole hl ha hw hsize hcaught hc hseq
  · exact InUse.append_short hl ha (not_le.1 hw) hsize hc hseq

end Append

lemma InUse.markFlushed (n : ℕ) : InUse checksum (h.call m (.markFlushed n)) := by
  have hsub : h.marks ⊆ h.marks ++ [(h.current, n)] := subset_append_left _ _
  have hmarked : ∀ k, h.Marked k → ∃ j, (h.current, j) ∈ h.marks ++ [(h.current, n)] ∧ k ≤ j :=
    fun k ⟨j, hmem, hle⟩ => ⟨j, hsub hmem, hle⟩
  have hlast : (h.current, n) ∈ h.marks ++ [(h.current, n)] := by simp
  refine ⟨⟨torn, hl⟩, ?_⟩
  intro m1 hm1
  cases hm1
  refine ⟨ha.enabled, ha.sameSum, ha.covers, ha.inFile, ?_, ?_, ha.known⟩
  · intro e he hle
    rcases le_max_iff.1 hle with hle | hle
    · exact (ha.flushed e he hle).imp (flushed_mono hsub) (hmarked _)
    · exact .inr ⟨n, hlast, hle⟩
  · show max m.flushedSeq n ≤ m.appendedSeq ∨ _
    rcases le_total m.flushedSeq n with hle | hle
    · exact .inr ⟨n, hlast, max_le hle le_rfl⟩
    · rw [max_eq_left hle]
      refine ha.bound.imp id fun hb => ?_
      show ∃ j, _ ∧ max m.flushedSeq n ≤ j
      rw [max_eq_left hle]
      exact hmarked _ hb

lemma Laid.delivered
    (fn : ℕ → WalRecord → Bool) : (m.replay h.disk fn).delivered.map (fun x => (x.offset, x.seq)) =
      h.entries.map fun e => (e.start, e.seq) := by
  obtain ⟨hen, rfl, hcov, -⟩ := ha
  have hframes := (replay_frames hen hl.valid hl.isTorn hl.file hcov fn).1
  rw [hl.placed.positions, map_map] at hframes
  have := congrArg (List.map fun p => (p.1, p.2.1)) hframes
  rw [map_map, map_map] at this
  exact this

lemma Laid.found (fn : ℕ → WalRecord → Bool) :
    ∀ e ∈ h.entries, ∃ x ∈ (m.replay h.disk fn).delivered, x.offset = e.start ∧ x.seq = e.seq := by
  intro e he
  have hmem : (e.start, e.seq) ∈
      (m.replay h.disk fn).delivered.map fun x => (x.offset, x.seq) := by
    rw [hl.delivered ha fn]
    exact mem_map.2 ⟨e, he, rfl⟩
  obtain ⟨x, hx, heq⟩ := mem_map.1 hmem
  exact ⟨x, hx, (Prod.mk.inj heq).1, (Prod.mk.inj heq).2⟩

lemma Laid.delivered_increasing (fn : ℕ → WalRecord → Bool) :
    (m.replay h.disk fn).delivered.Pairwise fun x y => x.seq < y.seq := by
  have hseqs : ((m.replay h.disk fn).delivered.map fun x => x.seq) = h.entries.map fun e =>
    e.seq := by
    have := congrArg (List.map Prod.snd) (hl.delivered ha fn)
    rw [map_map, map_map] at this
    exact this
  have hinc : (h.entries.map fun e => e.seq).Pairwise (· < ·) := pairwise_map.2 hl.increasing
  rw [← hseqs] at hinc
  exact pairwise_map.1 hinc

omit hl ha in
lemma accepted_of_le {l : List Delivery} (hinc : l.Pairwise fun x y => x.seq < y.seq)
    (hacc : l.Pairwise fun x y => y.accepted → x.accepted) {x y : Delivery}
    (hx : x ∈ l) (hy : y ∈ l) (hle : y.seq ≤ x.seq) (h : x.accepted) : y.accepted := by
  induction l with
  | nil => cases hx
  | cons a l ih =>
    obtain ⟨hinc1, hinc2⟩ := pairwise_cons.1 hinc
    obtain ⟨hacc1, hacc2⟩ := pairwise_cons.1 hacc
    rcases mem_cons.1 hx with rfl | hx'
    · rcases mem_cons.1 hy with rfl | hy'
      · exact h
      · have := hinc1 y hy'
        omega
    · rcases mem_cons.1 hy with rfl | hy'
      · exact hacc1 x hx' h
      · exact ih hinc2 hacc2 hx' hy'

omit hl ha in
lemma note_flushed {proc : ℕ} {delivered : List Delivery} {marks : List (ℕ × ℕ)}
    (hf : e.flushed marks) : (e.note proc delivered).flushed marks := by
  simp only [Tracked.flushed, Tracked.note, Bool.or_eq_true, any_eq_true, Bool.and_eq_true,
    contains_iff_mem] at hf ⊢
  rcases hf with hf | ⟨mark, hmem, hproc, hle⟩
  · exact .inl (.inl hf)
  · refine .inr ⟨mark, hmem, ?_, hle⟩
    split_ifs
    · exact mem_cons_of_mem _ hproc
    · exact hproc

lemma InUse.replay {fn : ℕ → WalRecord → Bool}
    (hacc : (m.replay h.disk fn).delivered.Pairwise fun x y => y.accepted → x.accepted) :
    InUse checksum (h.call m (.replay fn)) := by
  set delivered := (m.replay h.disk fn).delivered with hdelivered
  obtain ⟨hseq, happ, hflushed⟩ := replay_counters m h.disk fn
  have hfound := hl.found ha fn
  have hinc := hl.delivered_increasing ha fn
  rw [← hdelivered] at hseq hflushed hfound hinc
  have hitem : (h.entries.map (Tracked.note h.current delivered)).map Tracked.item =
      h.entries.map Tracked.item := by
    rw [map_map]
    rfl
  have hcall : h.call m (.replay fn) =
      { h with toSystem := ⟨h.disk, some (m.afterReplay (m.replay h.disk fn))⟩
               entries := h.entries.map (Tracked.note h.current delivered)
               caughtUp := true } := rfl
  rw [hcall]
  refine ⟨⟨torn, ?_, hl.isTorn, ?_, hl.placed.note, ?_, ?_⟩, ?_⟩
  · rw [hitem]
    exact hl.valid
  · rw [hitem]
    exact hl.file
  · exact pairwise_map.2 hl.increasing
  · intro e' he'
    obtain ⟨e, he, rfl⟩ := mem_map.1 he'
    exact hl.positive e he
  · intro m1 hm1
    cases hm1
    refine ⟨ha.enabled, ha.sameSum, ?_, ha.inFile, ?_, ?_, ?_⟩
    · rw [hitem]
      exact ha.covers
    · intro e' he' hle
      obtain ⟨e, he, rfl⟩ := mem_map.1 he'
      have hle' : e.seq ≤ (m.replay h.disk fn).flushedSeq := hle
      rcases hflushed with hsame | ⟨x, hx, hxacc, hxseq⟩
      · rw [hsame] at hle'
        exact (ha.flushed e he hle').imp note_flushed id
      · -- accepted itself, or followed by an accepted record
        left
        obtain ⟨y, hy, hyoff, hyseq⟩ := hfound e he
        have hyacc := accepted_of_le hinc hacc hx hy (by omega) hxacc
        have hany : (delivered.any fun x => x.offset == e.start && x.accepted) :=
          any_eq_true.2 ⟨y, hy, by simp [hyoff, hyacc]⟩
        simp [Tracked.flushed, Tracked.note, hany]
    · rcases hflushed with hsame | ⟨x, hx, -, hxseq⟩
      · have hb := ha.bound
        rw [← hsame] at hb
        exact hb.imp (fun h1 => h1.trans happ) id
      · left
        show (m.replay h.disk fn).flushedSeq ≤ (m.replay h.disk fn).appendedSeq
        rw [hxseq]
        exact hseq x hx
    · intro _ e' he'
      obtain ⟨e, he, rfl⟩ := mem_map.1 he'
      obtain ⟨x, hx, hxoff, hxseq⟩ := hfound e he
      have hany : (delivered.any fun x => x.offset == e.start) :=
        any_eq_true.2 ⟨x, hx, by simp [hxoff]⟩
      refine ⟨?_, by simp [Tracked.note, hany]⟩
      show e.seq ≤ (m.replay h.disk fn).appendedSeq
      rw [← hxseq]
      exact hseq x hx

omit hl ha in
lemma Inv.compact (hi : Inv checksum h) (hl : Laid checksum h.disk h.entries torn)
    (ha : Alive checksum h m) (hcaught : h.caughtUp) (truncOk : Bool) :
    Inv checksum (h.call m (.compact truncOk)) := by
  obtain heq | ⟨hle, hlt, -, heq⟩ := m.compact_cases h.disk truncOk
  · refine ⟨.inr ?_, ?_⟩
    · simp only [Ledger.call, Manager.call, heq, if_true]
      exact InUse.of_same hl ha rfl rfl rfl rfl rfl rfl
    · simp only [Ledger.call, heq, if_true]
      exact hi.dropped
  · have hpos : ¬ m.currentOffset - 8 = 0 := by omega
    have hmagic : h.disk.data.take 8 = fileMagic := by rw [hl.file, take_fileMagic]
    have hflushed : ∀ e ∈ h.entries, e.flushed h.marks := by
      intro e he
      obtain ⟨h1, h2⟩ := ha.known hcaught e he
      exact (ha.flushed e he (h1.trans hle)).elim id fun hm => flushed_of_marked hm h2
    simp only [Ledger.call, Manager.call, heq, hpos, if_false]
    refine ⟨.inr ⟨⟨[], by simp, Torn.nil, ?_, trivial, List.Pairwise.nil, by simp⟩, ?_⟩, ?_⟩
    · simpa [Disk.truncate] using hmagic
    · intro m1 hm1
      cases hm1
      refine ⟨ha.enabled, ha.sameSum, by simp [Manager.afterCompact], ?_, by simp,
        ha.bound, by simp⟩
      show 8 ≤ (h.disk.data.take 8).length
      rw [hmagic, length_fileMagic]
    · have hnone : h.entries.filter (fun e => !e.flushed h.marks) = [] := by
        rw [filter_eq_nil_iff]
        intro e he
        simp [hflushed e he]
      rw [hnone, hi.dropped]
      rfl

end Calls

lemma Inv.step (hi : Inv checksum h) {op : Op} (hg : GoodOp checksum h op) :
    Inv checksum (h.step op) := by
  cases op with
  | openLog => exact hi.openLog hg
  | close syncOk => exact hi.close syncOk
  | crash k => exact hi.crash k
  | call c =>
    cases hp : h.proc with
    | none =>
      have hsame : h.step (.call c) = h := by simp [Ledger.step, hp]
      rw [hsame]
      exact hi
    | some m =>
      have hstep : h.step (.call c) = h.call m c := by simp [Ledger.step, hp]
      rw [hstep]
      rcases hi.layout with hu | hu
      · rw [hu.closed] at hp
        cases hp
      · obtain ⟨torn, hl⟩ := hu.laid
        have ha := hu.alive m hp
        cases c with
        | append =>
          obtain ⟨hsize, hcaught, hm⟩ := hg
          refine ⟨.inr (InUse.append hl ha hsize hcaught (hm m hp).1 (hm m hp).2), ?_⟩
          simp only [Ledger.call]
          split <;> exact hi.dropped
        | groupCommit =>
          refine ⟨.inr (InUse.of_same hl ha ?_ rfl rfl rfl rfl rfl), hi.dropped⟩
          simp [Manager.call, Manager.doFdatasync]
        | markFlushed n => exact ⟨.inr (InUse.markFlushed hl ha n), hi.dropped⟩
        | compact truncOk => exact hi.compact hl ha hg truncOk
        | replay => exact ⟨.inr (InUse.replay hl ha (hg m hp)), hi.dropped⟩

lemma Inv.run (hi : Inv checksum h) {ops : List Op} (hg : GoodRun checksum h ops) :
    Inv checksum (h.run ops) := by
  induction ops generalizing h with
  | nil => exact hi
  | cons _ _ ih => exact ih (hi.step hg.1) hg.2

/-- **Compaction removes flushed records only** in every history of good operations. -/
theorem dropsNothing_of_goodRun (checksum : Bool) (ops : List Op)
    (hg : GoodRun checksum init ops) : (init.run ops).DropsNothing :=
  ((inv_init checksum).run hg).dropped

def markAndCompact : List Op :=
  [.openLog {}, .call (.append {} 61 true), .call (.markFlushed 1), .call (.compact true)]

theorem dropsNothing_markAndCompact :
    GoodRun true init markAndCompact ∧ (init.run markAndCompact).DropsNothing := by
  have hg : GoodRun true init markAndCompact := by
    refine ⟨⟨rfl, rfl⟩, ⟨by decide, rfl, ?_⟩, trivial, rfl, trivial⟩
    intro m hm
    cases hm
    exact ⟨⟨rfl, by decide +kernel⟩, by decide⟩
  exact ⟨hg, dropsNothing_of_goodRun true markAndCompact hg⟩

def compactAfterRestart : List Op :=
  [.openLog {}, .call (.append {} 61 true), .close true, .openLog {}, .call (.compact true)]

theorem not_dropsNothing_compactAfterRestart : ¬ (init.run compactAfterRestart).DropsNothing := by
  intro hd
  have hlen := congrArg List.length hd
  revert hlen
  decide +kernel

end Ledger

end SpidoNG.Wal
