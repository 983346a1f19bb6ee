import SpidoNG.Lib.Runs
import SpidoNG.Wal.Compaction

/-!
# The order of the log

`append` draws its sequence number before it takes the lock.
-/

namespace SpidoNG.Wal

open FrameLog List Option

variable {m : Manager}

structure Process where
  mgr : Manager
  drawn : List (ℕ × WalRecord) := []
  replayed : Bool

structure Log where
  disk : Disk := Disk.empty
  proc : Option Process := none

inductive LogEvent
  | start (cfg : WalConfig)
  | stop
  | draw (rec : WalRecord)
  | write (i written : ℕ) (syncOk : Bool)
  | replay (fn : ℕ → WalRecord → Bool)

namespace Log

def next (l : Log) : LogEvent → Option Log
  | .start cfg =>
    match l.proc, openOrCreate cfg l.disk with
    | none, .ok (m, d) => some ⟨d, some ⟨m, [], d.data.length = 8⟩⟩
    | _, _ => none
  | .stop => l.proc.map fun _ => ⟨l.disk, none⟩
  | .draw rec => l.proc.map fun p =>
      if p.mgr.cfg.enabled then
        ⟨l.disk, some { p with
          mgr := { p.mgr with appendedSeq := p.mgr.nextSeq }
          drawn := p.drawn ++ [(p.mgr.nextSeq, rec)] }⟩
      else l
  | .write i written syncOk => l.proc.bind fun p => (p.drawn[i]?).map fun x =>
      let r := p.mgr.write l.disk x.2 x.1 written syncOk
      ⟨r.2.2, some { p with mgr := r.2.1, drawn := p.drawn.eraseIdx i }⟩
  | .replay fn => l.proc.map fun p =>
      ⟨l.disk, some { p with
        mgr := p.mgr.afterReplay (p.mgr.replay l.disk fn)
        replayed := true }⟩

/-- A replay meets the records in the order of their numbers. -/
def InOrder (l : Log) : Prop :=
  ∀ p, l.proc = some p → ∀ fn, ((p.mgr.replay l.disk fn).delivered.map (·.seq)).Pairwise (· < ·)

/-- Numbers are drawn by processes that know those in the file, they are written whole and in the
order in which they were drawn, and all processes use the log, with checksums or without. -/
def Orderly (checksum : Bool) (l : Log) : LogEvent → Prop
  | .start cfg => cfg.enabled = true ∧ cfg.checksum = checksum
  | .draw rec => frameSize rec < 2 ^ 32 ∧
      ∀ p, l.proc = some p → p.replayed = true ∧ p.mgr.appendedSeq + 1 < 2 ^ 64
  | .write i written _ => i = 0 ∧
      ∀ p, l.proc = some p → ∀ x, p.drawn[i]? = some x → frameSize x.2 ≤ written
  | _ => True

instance (checksum : Bool) (l : Log) (e : LogEvent) : Decidable (Orderly checksum l e) :=
  match e with
  | .start _ => inferInstanceAs (Decidable (_ ∧ _))
  | .stop | .replay _ => inferInstanceAs (Decidable True)
  | .draw _ => inferInstanceAs (Decidable (_ ∧ ∀ p ∈ l.proc, _ ∧ _))
  | .write i _ _ => inferInstanceAs
      (Decidable (_ ∧ ∀ p ∈ l.proc, ∀ x ∈ (p.drawn[i]? : Option (ℕ × WalRecord)), _))

structure Tailing (checksum : Bool) (items : List (ℕ × WalRecord)) (d : Disk) (p : Process) :
    Prop where
  enabled : p.mgr.cfg.enabled = true
  sums : p.mgr.cfg.checksum = checksum
  pos : p.mgr.pos = d.data.length
  offset : p.mgr.currentOffset = d.data.length
  valid : ∀ x ∈ p.drawn, (recordCodec checksum).Valid x
  known : p.replayed = true → ((items ++ p.drawn).map (·.1)).Pairwise (· < ·) ∧
    ∀ x ∈ items ++ p.drawn, x.1 ≤ p.mgr.appendedSeq
  unknown : p.replayed = false → p.drawn = []

structure Ordered (checksum : Bool) (l : Log) (items : List (ℕ × WalRecord)) : Prop where
  valid : ∀ x ∈ items, (recordCodec checksum).Valid x
  file : l.disk.data = fileMagic ++ frames (recordCodec checksum) items ∨
    l.disk.data = [] ∧ items = [] ∧ l.proc = none
  increasing : (items.map (·.1)).Pairwise (· < ·)
  tailing : ∀ p, l.proc = some p → Tailing checksum items l.disk p

variable {checksum : Bool} {l l' : Log} {items : List (ℕ × WalRecord)} {p : Process}

lemma delivered_seqs {d : Disk} (hen : m.cfg.enabled)
    (hv : ∀ p ∈ items, (recordCodec m.cfg.checksum).Valid p)
    (hfile : d.data = fileMagic ++ frames (recordCodec m.cfg.checksum) items)
    (hcov : m.currentOffset = d.data.length) (fn : ℕ → WalRecord → Bool) :
    (m.replay d fn).delivered.map (·.seq) = items.map (·.1) := by
  have hlen := congrArg List.length hfile
  rw [List.length_append, length_fileMagic] at hlen
  have hframes := (replay_frames hen hv Torn.nil (hfile.trans (by rw [append_nil]))
    (by omega) fn).1
  have hseqs := congrArg (List.map fun x : ℕ × (ℕ × WalRecord) => x.2.1) hframes
  rw [List.map_map, List.map_map] at hseqs
  refine hseqs.trans ?_
  have hitem := congrArg (List.map (·.1))
    (map_snd_positions (c := recordCodec m.cfg.checksum) 8 items)
  rwa [List.map_map] at hitem

section

variable (h : Ordered checksum l items)
include h

lemma Ordered.file_of_open (hp : l.proc = some p) :
    l.disk.data = fileMagic ++ frames (recordCodec p.mgr.cfg.checksum) items := by
  rw [(h.tailing p hp).sums]
  refine h.file.resolve_right fun hnone => ?_
  cases hp.symm.trans hnone.2.2

lemma Ordered.delivered (hp : l.proc = some p) (fn : ℕ → WalRecord → Bool) :
    (p.mgr.replay l.disk fn).delivered.map (·.seq) = items.map (·.1) :=
  delivered_seqs (h.tailing p hp).enabled ((h.tailing p hp).sums ▸ h.valid) (h.file_of_open hp)
    (h.tailing p hp).offset fn

lemma Ordered.inOrder : l.InOrder := by
  intro p hp fn
  rw [h.delivered hp fn]
  exact h.increasing

lemma Ordered.start {cfg : WalConfig} (hen : cfg.enabled)
    (hsum : cfg.checksum = checksum) (hnext : l.next (.start cfg) = some l') :
    Ordered checksum l' items := by
  have hopened (d : Disk) (hdata : d.data = fileMagic ++ frames (recordCodec checksum) items) :
      Ordered checksum ⟨d, some ⟨Manager.at cfg d.data.length, [], d.data.length = 8⟩⟩ items := by
    refine ⟨h.valid, .inl hdata, h.increasing, fun p hp => ?_⟩
    cases hp
    refine ⟨hen, hsum, rfl, rfl, by simp, fun hreplayed => ?_, fun _ => rfl⟩
    have hlen := congrArg List.length hdata
    have hitem := @length_le_frames _ _ (recordCodec checksum) items
    rw [List.length_append, length_fileMagic, of_decide_eq_true hreplayed] at hlen
    obtain rfl := length_eq_zero_iff.1 (show items.length = 0 by omega)
    simp
  cases hproc : l.proc with
  | some p => simp [next, hproc] at hnext
  | none =>
    rcases h.file with hfile | ⟨hnil, rfl, -⟩
    · have hopen := openOrCreate_formatted hen hfile
      simp only [next, hproc, hopen, some.injEq] at hnext
      exact hnext ▸ hopened l.disk hfile
    · have hopen : openOrCreate cfg l.disk = .ok (Manager.at cfg 8, l.disk.write 0 fileMagic) := by
        simp [openOrCreate, hen, hnil]
      have hdata := Disk.write_fileMagic hnil
      have hmade := hopened (l.disk.write 0 fileMagic) (by simp [hdata])
      simp only [next, hproc, hopen, some.injEq] at hnext
      rw [hdata, length_fileMagic] at hmade hnext
      exact hnext ▸ hmade

lemma Ordered.draw {rec : WalRecord} (hsize : frameSize rec < 2 ^ 32)
    (hp : l.proc = some p) (hreplayed : p.replayed) (hroom : p.mgr.appendedSeq + 1 < 2 ^ 64) :
    Ordered checksum ⟨l.disk, some { p with
      mgr := { p.mgr with appendedSeq := p.mgr.nextSeq }
      drawn := p.drawn ++ [(p.mgr.nextSeq, rec)] }⟩ items := by
  have ht := h.tailing p hp
  have hseq : p.mgr.nextSeq = p.mgr.appendedSeq + 1 := Bytes.wrap_of_lt hroom
  refine ⟨h.valid, .inl (ht.sums ▸ h.file_of_open hp), h.increasing, fun q hq => ?_⟩
  cases hq
  refine ⟨ht.enabled, ht.sums, ht.pos, ht.offset, fun x hx => ?_, fun _ => ?_, fun hno => ?_⟩
  · rcases mem_append.1 hx with hx | hx
    · exact ht.valid x hx
    · rw [mem_singleton.1 hx]
      exact ⟨p.mgr.nextSeq_lt, hsize⟩
  · obtain ⟨hsorted, hle⟩ := ht.known hreplayed
    rw [← append_assoc, map_append, pairwise_append]
    refine ⟨⟨hsorted, pairwise_singleton _ _, fun a ha b hb => ?_⟩, fun x hx => ?_⟩
    · obtain ⟨x, hx, rfl⟩ := mem_map.1 ha
      rw [mem_singleton.1 hb]
      have := hle x hx
      simp only
      omega
    · rcases mem_append.1 hx with hx | hx
      · exact (hle x hx).trans (by simp only; omega)
      · rw [mem_singleton.1 hx]
  · cases hreplayed.symm.trans hno

omit h in
lemma write_whole {d : Disk} {rec : WalRecord} {written : ℕ}
    (seq : ℕ) (hw : frameSize rec ≤ written) (hpos : m.pos = d.data.length) (syncOk : Bool) :
    (m.write d rec seq written syncOk).2.2.data = d.data ++ encode m.cfg.checksum seq rec ∧
      (m.write d rec seq written syncOk).2.1.cfg = m.cfg ∧
      (m.write d rec seq written syncOk).2.1.pos = m.pos + frameSize rec ∧
      (m.write d rec seq written syncOk).2.1.currentOffset = m.currentOffset + frameSize rec ∧
      (m.write d rec seq written syncOk).2.1.appendedSeq = m.appendedSeq := by
  unfold Manager.write Manager.writeRecord
  simp only [length_encode]
  rw [if_neg (not_lt.2 hw)]
  cases hs : m.syncsAlways <;> simp [Disk.write_end d hpos]

lemma Ordered.write (hp : l.proc = some p) {x : ℕ × WalRecord}
    {rest : List (ℕ × WalRecord)} (hdrawn : p.drawn = x :: rest) {written : ℕ}
    (hw : frameSize x.2 ≤ written) (syncOk : Bool) :
    Ordered checksum ⟨(p.mgr.write l.disk x.2 x.1 written syncOk).2.2,
      some { p with mgr := (p.mgr.write l.disk x.2 x.1 written syncOk).2.1, drawn := rest }⟩
      (items ++ [x]) := by
  have ht := h.tailing p hp
  obtain ⟨hdata, hcfg, hpos, hoff, happ⟩ := write_whole x.1 hw ht.pos syncOk
  have hlen := congrArg List.length hdata
  rw [List.length_append, length_encode] at hlen
  have hx := ht.valid x (by simp [hdrawn])
  obtain ⟨hsorted, hle⟩ := ht.known (by
    by_contra hno
    simp [ht.unknown (eq_false_of_ne_true hno)] at hdrawn)
  rw [hdrawn, append_cons] at hsorted hle
  refine ⟨fun y hy => ?_, .inl ?_, ?_, fun q hq => ?_⟩
  · rcases mem_append.1 hy with hy | hy
    · exact h.valid y hy
    · rw [mem_singleton.1 hy]
      exact hx
  · rw [hdata, h.file_of_open hp, ht.sums]
    simp [frames, recordCodec]
  · rw [map_append] at hsorted
    exact (pairwise_append.1 hsorted).1
  · cases hq
    refine ⟨hcfg ▸ ht.enabled, hcfg ▸ ht.sums, ?_, ?_, fun y hy =>
      ht.valid y (by simp [hdrawn, hy]),
      fun _ => ⟨hsorted, happ ▸ hle⟩, fun hno => ?_⟩
    · simp only [hpos, hlen, ht.pos]
    · simp only [hoff, hlen, ht.offset]
    · simp [ht.unknown hno] at hdrawn

lemma Ordered.replay (hp : l.proc = some p) (fn : ℕ → WalRecord → Bool) :
    Ordered checksum ⟨l.disk, some { p with
      mgr := p.mgr.afterReplay (p.mgr.replay l.disk fn)
      replayed := true }⟩ items := by
  have ht := h.tailing p hp
  obtain ⟨hseen, hgrow, -⟩ := replay_counters p.mgr l.disk fn
  refine ⟨h.valid, .inl (ht.sums ▸ h.file_of_open hp), h.increasing, fun q hq => ?_⟩
  cases hq
  refine ⟨ht.enabled, ht.sums, ht.pos, ht.offset, ht.valid, fun _ => ?_, fun hno => by cases hno⟩
  cases hreplayed : p.replayed with
  | true => exact (ht.known hreplayed).imp_right fun hle x hx => (hle x hx).trans hgrow
  | false =>
    simp only [ht.unknown hreplayed, append_nil]
    refine ⟨h.increasing, fun x hx => ?_⟩
    have hmem : x.1 ∈ (p.mgr.replay l.disk fn).delivered.map (·.seq) := by
      rw [h.delivered hp fn]
      exact mem_map_of_mem hx
    obtain ⟨y, hy, hyx⟩ := mem_map.1 hmem
    exact hyx ▸ hseen y hy

lemma Ordered.next {e : LogEvent} (hok : Orderly checksum l e)
    (hnext : l.next e = some l') : ∃ items', Ordered checksum l' items' := by
  cases e with
  | start cfg => exact ⟨items, h.start hok.1 hok.2 hnext⟩
  | stop =>
    obtain ⟨p, hp, rfl⟩ := map_eq_some_iff.1 hnext
    exact ⟨items, h.valid, .inl ((h.tailing p hp).sums ▸ h.file_of_open hp), h.increasing, by simp⟩
  | draw rec =>
    obtain ⟨p, hp, rfl⟩ := map_eq_some_iff.1 hnext
    rw [if_pos (h.tailing p hp).enabled]
    exact ⟨items, h.draw hok.1 hp (hok.2 p hp).1 (hok.2 p hp).2⟩
  | write i written syncOk =>
    obtain ⟨rfl, hwhole⟩ := hok
    obtain ⟨p, hp, hnext⟩ := bind_eq_some_iff.1 hnext
    obtain ⟨x, hx, rfl⟩ := map_eq_some_iff.1 hnext
    obtain ⟨rest, hdrawn⟩ : ∃ rest, p.drawn = x :: rest := by
      cases hd : p.drawn with
      | nil => simp [hd] at hx
      | cons y rest =>
        rw [hd] at hx
        exact ⟨rest, by rw [show y = x from some.inj hx]⟩
    have hwrite := h.write hp hdrawn (hwhole p hp x hx) syncOk
    rw [hdrawn]
    exact ⟨_, hwrite⟩
  | replay fn =>
    obtain ⟨p, hp, rfl⟩ := map_eq_some_iff.1 hnext
    exact ⟨items, h.replay hp fn⟩

end

/-- **The log is in order**, as long as numbers are written in the order in which they are drawn, by
processes that know those in the file. -/
theorem inOrder_of_orderly (checksum : Bool) (es : List LogEvent) (l : Log)
    (hrun : Runs.run next {} es = some l) (hok : Runs.Meets next (Orderly checksum) {} es) :
    l.InOrder := by
  have hstart : ∃ items, Ordered checksum {} items :=
    ⟨[], by simp, .inr ⟨rfl, rfl, rfl⟩, List.Pairwise.nil, by simp⟩
  obtain ⟨items, hend⟩ := Runs.run_induction (I := fun l => ∃ items, Ordered checksum l items)
    (fun ⟨_, h⟩ hok hnext => h.next hok hnext) hstart hok hrun
  exact hend.inOrder

/-- Two threads draw before either writes; the next process replays and appends once more. -/
def twoProcesses : List LogEvent :=
  [.start {}, .draw {}, .draw { primaryKey := [7] }, .write 0 61 true, .write 0 62 true, .stop,
    .start {}, .replay fun _ _ => true, .draw {}, .write 0 61 true]

theorem inOrder_twoProcesses : ∃ l, Runs.run next {} twoProcesses = some l ∧
    (l.proc.map fun p => (p.mgr.replay l.disk fun _ _ => true).delivered.map (·.seq)) =
      some [1, 2, 3] ∧ l.InOrder := by
  have hrun : ((Runs.run next {} twoProcesses).bind fun l => l.proc.map fun p =>
      (p.mgr.replay l.disk fun _ _ => true).delivered.map (·.seq)) = some [1, 2, 3] := by
    decide +kernel
  obtain ⟨l, hl, hseqs⟩ := bind_eq_some_iff.1 hrun
  refine ⟨l, hl, hseqs, inOrder_of_orderly true twoProcesses l hl ?_⟩
  have hall : Runs.meetsAll next (fun l e => decide (Orderly true l e)) {} twoProcesses := by
    decide +kernel
  simpa only [decide_eq_true_eq] using Runs.meets_of_meetsAll hall

theorem not_inOrder :
    (∃ l, Runs.run next {} [.start {}, .draw {}, .draw {}, .write 1 61 true, .write 0 61 true] =
      some l ∧ ¬ l.InOrder) ∧
    ∃ l, Runs.run next {} [.start {}, .draw {}, .write 0 61 true, .stop, .start {}, .draw {},
      .write 0 61 true] = some l ∧ ¬ l.InOrder := by
  refine ⟨⟨_, rfl, fun h => ?_⟩, ⟨_, rfl, fun h => ?_⟩⟩
  all_goals
    have hseqs := h _ rfl fun _ _ => true
    revert hseqs
    decide +kernel

end Log

end SpidoNG.Wal
