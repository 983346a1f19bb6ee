import SpidoNG.Service.Statements

/-!
# Is an acknowledged row in the log?

A resource with the write mode `batch_durable` should answer 202 only for rows in the log.
-/

namespace SpidoNG.Service

open Bytes Pg Prog List

variable {cfg : Config}

def Incoming.row (x : Incoming cfg) : Option (List PgParam) :=
  (JsonBody.parse x.request.body).bind fun body =>
    (ownerId cfg.auth x.resource x.request x.bypass).map fun owner =>
      ownedRow x.resource x.bypass owner body

def Answer.Acknowledges (a : Answer cfg) : Prop :=
  a.incoming.endpoint = .create ∧ a.incoming.resource.writeMode = .batchDurable ∧
    a.response.status = 202

/-- When the answer was produced, the log held a durable record of the row. -/
def Answer.Durable (carries : Wal.WalRecord → List PgParam → Prop) (a : Answer cfg) : Prop :=
  ∃ row ∈ a.incoming.row, ∃ e ∈ a.log, carries e.record row ∧ e.durable = true

def Server.DurableAck (carries : Wal.WalRecord → List PgParam → Prop) (s : Server cfg) : Prop :=
  ∀ a ∈ s.answered, a.Acknowledges → a.Durable carries

structure Blank (h : Wal.History) : Prop where
  log : h.log = []
  disk : h.disk.data.length ≤ 8
  proc : ∀ m, h.proc = some m → m.currentOffset ≤ 8

lemma blank_init : Blank Wal.History.init := ⟨rfl, by decide, nofun⟩

variable {h : Wal.History}

lemma Blank.openLog (hb : Blank h) (c : Wal.WalConfig) : Blank (h.step (.openLog c)) := by
  have hdisk := hb.disk
  have hopened : Blank ⟨h.toSystem.step (.openLog c), h.log⟩ := by
    unfold Wal.System.step Wal.openOrCreate
    dsimp only
    split
    · next m d hnone hopen =>
      split_ifs at hopen with hen hnil hmagic
      · cases hopen
        refine ⟨hb.log, ?_, by rintro m ⟨⟩; exact le_rfl⟩
        rw [Wal.Disk.write_end _ hnil.symm, length_append, hnil, Wal.length_fileMagic]
      · cases hopen
        exact ⟨hb.log, hdisk, by rintro m ⟨⟩; exact hdisk⟩
      · cases hopen
        exact ⟨hb.log, hdisk, by rintro m ⟨⟩; exact Nat.zero_le _⟩
    · exact ⟨hb.log, hdisk, hb.proc⟩
  exact hopened

lemma Blank.groupCommit (hb : Blank h) (syncOk : Bool) :
    Blank (h.step (.call (.groupCommit syncOk))) := by
  cases hp : h.proc with
  | none =>
    have hstep : h.step (.call (.groupCommit syncOk)) = h := by simp [Wal.History.step, hp]
    rw [hstep]
    exact hb
  | some m =>
    rw [Wal.History.step_call hp]
    refine ⟨by simp [Wal.History.logAfter, hb.log], ?_, ?_⟩
    · simpa [Wal.System.step, hp, Wal.Manager.call, Wal.Manager.doFdatasync] using hb.disk
    · intro m' hm'
      have hm : m' = (m.doFdatasync h.disk syncOk).1 := by
        simpa [Wal.System.step, hp, Wal.Manager.call] using hm'.symm
      rw [hm]
      exact hb.proc m hp

lemma Blank.close (hb : Blank h) (syncOk : Bool) : Blank (h.step (.close syncOk)) := by
  obtain ⟨hdata, -, hproc⟩ := h.toSystem.step_close syncOk
  refine ⟨by simp [Wal.History.step, hb.log], ?_, ?_⟩
  · show (h.toSystem.step (.close syncOk)).disk.data.length ≤ 8
    rw [hdata]
    exact hb.disk
  · intro m hm
    cases hproc.symm.trans hm

lemma Blank.crash (hb : Blank h) (k : ℕ) : Blank (h.step (.crash k)) := by
  refine ⟨by simp [Wal.History.step, hb.log], ?_, nofun⟩
  have hdisk := hb.disk
  simp only [Wal.History.step, Wal.System.step, Wal.Disk.crash, length_take]
  omega

lemma Blank.upkeep (hb : Blank h) (u : Upkeep) : Blank (h.step u.op) := by
  cases u with
  | openLog c => exact hb.openLog c
  | groupCommit syncOk => exact hb.groupCommit syncOk
  | close syncOk => exact hb.close syncOk
  | crash k => exact hb.crash k

lemma Blank.replay (hb : Blank h) {m : Wal.Manager} (hm : h.proc = some m)
    (fn : ℕ → Wal.WalRecord → Bool) : (m.replay h.disk fn).delivered = [] := by
  have hoff := hb.proc m hm
  unfold Wal.Manager.replay
  split_ifs
  · unfold Wal.replayLoop
    rw [if_neg (by simp; omega)]
  · rfl

def NoAppend (op : Op) : Prop := ∀ rec, op ≠ .walAppend rec

lemma noAppend_handler (lib : Platform) (x : Incoming cfg) : (x.handler lib).Always NoAppend := by
  refine always_iff.2 fun op hop rec => ?_
  rintro rfl
  exact (calls_handler lib x).of_emits hop

namespace Server

/-- No handler in work will append to the log, and nothing has been appended. -/
structure Quiet (s : Server cfg) : Prop where
  active : ∀ a ∈ s.active, a.rest.Always NoAppend
  wal : Blank s.wal
  answered : ∀ a ∈ s.answered, a.log = []

lemma quiet_init : Quiet ({} : Server cfg) := ⟨by simp, blank_init, by simp⟩

lemma Quiet.step {s : Server cfg} (hq : Quiet s) (lib : Platform) (ev : Event cfg) :
    Quiet (s.step lib ev) := by
  cases ev with
  | arrive x =>
    unfold Server.step
    split_ifs
    · refine ⟨?_, hq.wal, hq.answered⟩
      intro a ha
      rcases mem_append.1 ha with ha' | ha'
      · exact hq.active a ha'
      · rw [mem_singleton.1 ha']
        exact noAppend_handler lib x
    · exact hq
  | upkeep u =>
    refine ⟨?_, hq.wal.upkeep u, hq.answered⟩
    intro a ha
    cases hu : u.ends with
    | true => simp [Server.step, hu] at ha
    | false =>
      simp only [Server.step, hu] at ha
      exact hq.active a ha
  | advance _ _ written syncOk =>
    unfold Server.step
    dsimp only
    split
    · exact hq
    · next a ha =>
      have hmem : a ∈ s.active := mem_of_getElem? ha
      have halw := hq.active a hmem
      split
      · refine ⟨fun b hb => hq.active b (mem_of_mem_eraseIdx hb), hq.wal, ?_⟩
        intro b hb
        rcases mem_append.1 hb with hb' | hb'
        · exact hq.answered b hb'
        · rw [mem_singleton.1 hb']
          exact hq.wal.log
      · next op k hrest =>
        rw [hrest] at halw
        refine ⟨?_, ?_, hq.answered⟩
        · intro b hb
          rcases mem_or_eq_of_mem_set hb with hb' | rfl
          · exact hq.active b hb'
          · exact halw.2 _
        · -- the only call that would change the log is an append
          have hwal : walAfter s.wal written syncOk op = s.wal := by
            unfold walAfter
            split
            · next rec => exact absurd rfl (halw.1 rec)
            · rfl
          rw [hwal]
          exact hq.wal

lemma Quiet.run {s : Server cfg} (hq : Quiet s) (lib : Platform) (evs : List (Event cfg)) :
    Quiet (s.run lib evs) := by
  induction evs generalizing s with
  | nil => exact hq
  | cons ev _ ih => exact ih (hq.step lib ev)

/-- **No acknowledged row is durable**, and after any crashes and restarts there is nothing to
replay. -/
theorem not_durable (cfg : Config) (lib : Platform)
    (carries : Wal.WalRecord → List PgParam → Prop) (evs : List (Event cfg)) :
    let s := Server.run lib ({} : Server cfg) evs
    (∀ a ∈ s.answered, a.Acknowledges → ¬ a.Durable carries) ∧
      ∀ m fn, s.wal.proc = some m → (m.replay s.wal.disk fn).delivered = [] := by
  have hq := quiet_init.run lib evs
  refine ⟨?_, fun m fn hm => hq.wal.replay hm fn⟩
  rintro a ha - ⟨row, -, e, he, -⟩
  rw [hq.answered a ha] at he
  simp at he

end Server

def ledger : Resource :=
  { path := str "/ledger", table := str "ledger", methods := [.POST], writeMode := .batchDurable,
    columns := [str "id", str "amount"] }

def ledgerConfig : Config := { resources := [ledger] }

def postEntry : Incoming ledgerConfig where
  resource := ledger
  generated := Config.mem_generated_of_singleton ledger {}
  endpoint := .create
  served := rfl
  request :=
    { method := .POST, path := str "/ledger", query := [], version := str "HTTP/1.1", headers := [],
      body := str "\x7b\"amount\":\"5\"\x7d", keepAlive := true, params := [] }

def succeed : (op : Op) → op.Res
  | .tryAcquire | .checkout => true
  | .execPrepared _ _ _ _ | .queryCached _ _ _ _ | .exec _ => ({} : PgResult)
  | .getEntity _ _ _ _ => (none : Option Bytes)
  | .walAppend _ => (0 : ℕ)
  | .markDirty _ | .enqueue _ _ _ | .invalidateTable _ | .log _ => ()

def acknowledgeOnce : List (Event ledgerConfig) :=
  [.upkeep (.openLog {}), .arrive postEntry, .advance 0 succeed 0 true,
    .advance 0 succeed 0 true, .upkeep (.groupCommit true), .advance 0 succeed 0 true,
    .upkeep (.groupCommit true), .advance 0 succeed 0 true]

lemma acknowledges_acknowledgeOnce :
    ∃ a ∈ (Server.run ⟨fun _ => []⟩ {} acknowledgeOnce).answered, a.Acknowledges := by
  have h : ((Server.run ⟨fun _ => []⟩ {} acknowledgeOnce).answered.map fun a =>
      (a.incoming.endpoint, a.incoming.resource.writeMode, a.response.status)) =
      [(.create, .batchDurable, 202)] := by decide +kernel
  have hmem := mem_singleton_self (Endpoint.create, WriteMode.batchDurable, (202 : ℤ))
  rw [← h] at hmem
  obtain ⟨a, ha, heq⟩ := mem_map.1 hmem
  simp only [Prod.mk.injEq] at heq
  exact ⟨a, ha, heq⟩

theorem not_durable_acknowledgeOnce : let s := Server.run ⟨fun _ => []⟩ {} acknowledgeOnce
    (∃ a ∈ s.answered, a.Acknowledges ∧ ¬ a.Durable fun _ _ => True) ∧
      ∀ m fn, s.wal.proc = some m → (m.replay s.wal.disk fn).delivered = [] := by
  obtain ⟨a, ha, hack⟩ := acknowledges_acknowledgeOnce
  obtain ⟨hnot, hreplay⟩ := Server.not_durable ledgerConfig ⟨fun _ => []⟩ (fun _ _ => True)
    acknowledgeOnce
  exact ⟨⟨a, ha, hack, hnot a ha hack⟩, hreplay⟩

theorem not_durableAck_acknowledgeOnce : ledgerConfig.Accepted ∧
      ¬ (Server.run ⟨fun _ => []⟩ {} acknowledgeOnce).DurableAck fun _ _ => True := by
  refine ⟨by unfold Config.Accepted; decide +kernel, ?_⟩
  intro h
  obtain ⟨a, ha, hack⟩ := acknowledges_acknowledgeOnce
  obtain ⟨row, -, e, he, -⟩ := h a ha hack
  rw [(Server.quiet_init.run _ _).answered a ha] at he
  simp at he

end SpidoNG.Service
