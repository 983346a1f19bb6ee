import SpidoNG.Db.Rows

/-!
# What the jobs of the database layer call

What the programs of the jobs call, from their texts alone.
-/

namespace SpidoNG.Db

open Bytes Pg Cache Batch Threads

variable {G : Type}

abbrev DbRecord := CacheRecord DbThread Answer DbOp.Res

def answered : (c : CacheCall Answer ⊕ DbOp) → CallRet DbOp.Res c → Option Answer
  | .inr (.query _ _), r => some r
  | _, _ => none

structure Of (t : DbThread) (b : ℕ) (r : DbRecord) : Prop where
  thread : r.thread = t
  job : r.job = b

/-- Only queries put values into the cache, and what PostgreSQL answered; only flushes drain
queues. -/
def Fills (cfg : DbConfig) (job : DbJob) (t : DbThread) (b : ℕ) (c : CacheCall Answer ⊕ DbOp)
    (cs : List DbRecord) : Prop :=
  (∀ key v ttl tag, c = .inl (.put key v ttl tag) → ∃ sql params ttl',
    job = .queryCached sql params ttl' tag ∧ key = cfg.cacheKey sql params ∧
      ∃ q ∈ cs, Of t b q ∧ answered q.call q.ret = some v) ∧
    ∀ table, c = .inr (.drain table) → job = .flush table

def DbConfig.asked (cfg : DbConfig) (table : Bytes) : List Bytes :=
  if table = [] then cfg.tables.map Prod.fst else [table]

def Answers (key : Bytes) (t : DbThread) (b : ℕ) (a : Answer) (cs : List DbRecord) : Prop :=
  ∃ r ∈ cs, Of t b r ∧ (answered r.call r.ret = some a ∨
    getKey r.call = some key ∧ ∃ v, gotten r.call r.ret = some v ∧ v.value = a)

def Enqueues (table : Bytes) (n : ℕ) (t : DbThread) (b : ℕ) (cs : List DbRecord)
    (r : DbRecord) : Prop :=
  r ∈ cs ∧ Of t b r ∧ ticket r.call r.ret = some (table, n)

def Waits (table : Bytes) (t : DbThread) (b : ℕ) (cs : List DbRecord) (w : DbRecord) : Prop :=
  w ∈ cs ∧ Of t b w ∧ w.call = .inr (.awaitDrained table)

def Ends (cfg : DbConfig) : (job : DbJob) → DbThread → ℕ → job.Out → List DbRecord → Prop
  | .queryCached sql params _ _, t, b, a, cs => Answers (cfg.cacheKey sql params) t b a cs
  | .write table _, t, b, out, cs => ∀ n, out = some n → ∃ r, Enqueues table n t b cs r
  | .flushNow table, t, b, _, cs => ∀ table' ∈ cfg.asked table, ∃ w, Waits table' t b cs w
  | .writeSync table _, t, b, out, cs => ∀ n, out = some n → ∃ r, Enqueues table n t b cs r ∧
      ∀ table' ∈ cfg.asked table, ∃ w, Waits table' t b cs w ∧ r.ended < w.began
  | _, _, _, _, _ => True

section Programs

variable {α : Type} {cfg : DbConfig} {job : DbJob} {t : DbThread} {b : ℕ} {cs cs' : List DbRecord}
  {post : α → List DbRecord → Prop}

lemma Answers.mono {key : Bytes} {a : Answer} (h : Answers key t b a cs) (hcs : ∀ r ∈ cs, r ∈ cs') :
    Answers key t b a cs' := by
  obtain ⟨r, hr, h⟩ := h
  exact ⟨r, hcs r hr, h⟩

lemma Enqueues.mono {table : Bytes} {n : ℕ} {r : DbRecord}
    (h : Enqueues table n t b cs r) (hcs : ∀ r ∈ cs, r ∈ cs') :
    Enqueues table n t b cs' r := ⟨hcs r h.1, h.2⟩

lemma Waits.mono {table : Bytes} {w : DbRecord} (h : Waits table t b cs w)
    (hcs : ∀ r ∈ cs, r ∈ cs') : Waits table t b cs' w :=
  ⟨hcs w h.1, h.2⟩

lemma Ends.mono {out : job.Out} (h : Ends cfg job t b out cs) (hcs : ∀ r ∈ cs, r ∈ cs') :
    Ends cfg job t b out cs' := by
  cases job with
  | queryCached => exact Answers.mono h hcs
  | write =>
    intro n hn
    obtain ⟨r, hr⟩ := h n hn
    exact ⟨r, hr.mono hcs⟩
  | flushNow =>
    intro table' ht
    obtain ⟨w, hw⟩ := h table' ht
    exact ⟨w, hw.mono hcs⟩
  | writeSync =>
    intro n hn
    obtain ⟨r, hr, h⟩ := h n hn
    refine ⟨r, hr.mono hcs, fun table' ht => ?_⟩
    obtain ⟨w, hw, hlt⟩ := h table' ht
    exact ⟨w, hw.mono hcs, hlt⟩
  | _ => trivial

variable {c : CacheCall Answer ⊕ DbOp}

lemma under_perform {f : CallRet DbOp.Res c → Script α}
    (hok : ∀ cs', (∀ r ∈ cs, r ∈ cs') → Fills cfg job t b c cs')
    (h : ∀ r (cs' cs'' : List DbRecord), (∀ r ∈ cs, r ∈ cs') → (∀ r ∈ cs', r ∈ cs'') →
      ∀ began ended, ⟨t, b, c, r, began, ended⟩ ∈ cs'' →
        (∀ r' ∈ cs', r'.thread = t → r'.ended < began) →
          (f r).Under (history t b (Fills cfg job t b)) post cs'') :
    (Prog.perform c >>= f).Under (history t b (Fills cfg job t b)) post cs := by
  intro cs' hcs
  refine ⟨hok cs' hcs, ?_⟩
  rintro r cs'' ⟨hcs', began, ended, hmem, hser⟩
  exact h r cs' cs'' hcs hcs' began ended hmem hser

def PutsNothing (job : DbJob) (c : CacheCall Answer ⊕ DbOp) : Prop :=
  (∀ key v ttl tag, c ≠ .inl (.put key v ttl tag)) ∧ ∀ table, c = .inr (.drain table) →
    job = .flush table

lemma PutsNothing.fills (h : PutsNothing job c) : Fills cfg job t b c cs :=
  ⟨fun key v ttl tag hc => absurd hc (h.1 key v ttl tag), h.2⟩

lemma putsNothing_outside {x : DbOp} (h : ∀ table, x ≠ .drain table) :
    PutsNothing job (.inr x) := by
  constructor
  · rintro key v ttl tag ⟨⟩
  · rintro table ⟨⟩
    exact absurd rfl (h table)

lemma putsNothing_cached {x : CacheCall Answer} (h : ∀ key v ttl tag, x ≠ .put key v ttl tag) :
    PutsNothing job (.inl x) := by
  constructor
  · rintro key v ttl tag ⟨⟩
    exact absurd rfl (h key v ttl tag)
  · rintro table ⟨⟩

lemma fills_outside {x : DbOp} (h : ∀ table, x ≠ .drain table) : Fills cfg job t b (.inr x) cs :=
  (putsNothing_outside h).fills

lemma under_queryCached (sql : Bytes) (params : List PgParam) (ttl : ℕ) (tag : Bytes) :
    (queryCached cfg sql params ttl tag).Under
      (history t b (Fills cfg (.queryCached sql params ttl tag) t b))
      (Answers (cfg.cacheKey sql params) t b) cs := by
  refine under_perform (c := .inl (.get _)) ?_ ?_
  · exact fun cs' _ => (putsNothing_cached (by simp)).fills
  · intro hit cs1 cs2 _ _ began ended hget _
    cases hit with
    | some v => exact fun cs3 hcs => ⟨_, hcs _ hget, ⟨rfl, rfl⟩, .inr ⟨rfl, v, rfl, rfl⟩⟩
    | none =>
      refine under_perform (c := .inr (.query sql params)) (fun cs' _ => fills_outside (by simp)) ?_
      intro r cs3 cs4 _ _ began' ended' hquery _
      have hans : ∀ cs', (∀ r ∈ cs4, r ∈ cs') → Answers (cfg.cacheKey sql params) t b r cs' :=
        fun cs' hcs => ⟨_, hcs _ hquery, ⟨rfl, rfl⟩, .inl rfl⟩
      split_ifs
      · refine under_perform (c := .inl (.put _ _ _ _)) ?_ ?_
        · refine fun cs' hcs => ⟨?_, by rintro table ⟨⟩⟩
          rintro key v ttl' tag' ⟨⟩
          exact ⟨sql, params, ttl, rfl, rfl, _, hcs _ hquery, ⟨rfl, rfl⟩, rfl⟩
        · intro _ cs5 cs6 h5 h6 _ _ _ _ cs7 h7
          exact hans cs7 fun r hr => h7 r (h6 r (h5 r hr))
      · exact hans

lemma under_waitOne (table : Bytes) : (waitOne table).Under (history t b (Fills cfg job t b))
      (fun _ cs' => (∀ r ∈ cs, r ∈ cs') ∧ ∃ w, Waits table t b cs' w ∧
        ∀ r ∈ cs, r.thread = t → r.ended < w.began) cs := by
  refine under_perform (c := .inr (.requestFlush table)) (fun cs' _ => fills_outside (by simp)) ?_
  intro _ cs1 cs2 h1 h2 _ _ _ _ cs3 h3
  refine ⟨fills_outside (by simp), ?_⟩
  rintro r cs4 ⟨h4, began, ended, hmem, hser⟩ cs5 h5
  have hcs : ∀ r ∈ cs, r ∈ cs3 := fun r hr => h3 r (h2 r (h1 r hr))
  refine ⟨fun r hr => h5 r (h4 r (hcs r hr)), _, ⟨h5 _ hmem, ⟨rfl, rfl⟩, rfl⟩, ?_⟩
  exact fun r hr ht => hser r (hcs r hr) ht

lemma under_waitAll (tables : List Bytes) :
    (tables.forM waitOne).Under (history t b (Fills cfg job t b))
      (fun _ cs' => (∀ r ∈ cs, r ∈ cs') ∧ ∀ table ∈ tables, ∃ w, Waits table t b cs' w ∧
        ∀ r ∈ cs, r.thread = t → r.ended < w.began) cs := by
  induction tables generalizing cs with
  | nil => exact fun cs' hcs => ⟨hcs, by simp⟩
  | cons table _ ih =>
    refine Prog.Under.bind (p := waitOne table) ((under_waitOne table).mono ?_)
    rintro _ cs1 ⟨h1, w, hw, hlt⟩
    refine ih.mono ?_
    rintro _ cs2 ⟨h2, h⟩
    refine ⟨fun r hr => h2 r (h1 r hr), List.forall_mem_cons.2 ⟨⟨w, hw.mono h2, hlt⟩, ?_⟩⟩
    intro table' ht
    obtain ⟨w', hw', hlt'⟩ := h table' ht
    exact ⟨w', hw', fun r hr => hlt' r (h1 r hr)⟩

lemma under_flushNow (table : Bytes) : (flushNow cfg table).Under (history t b (Fills cfg job t b))
      (fun _ cs' => (∀ r ∈ cs, r ∈ cs') ∧ ∀ table' ∈ cfg.asked table, ∃ w, Waits table' t b cs' w ∧
        ∀ r ∈ cs, r.thread = t → r.ended < w.began) cs := by
  unfold flushNow DbConfig.asked
  split_ifs
  · exact under_waitAll _
  · refine (under_waitOne table).mono ?_
    rintro _ cs' ⟨hcs, h⟩
    exact ⟨hcs, by simpa using h⟩

lemma under_write (table : Bytes) (row : Row) :
    (write table row).Under (history t b (Fills cfg job t b))
      (fun out cs' => ∀ n, out = some n → ∃ r, Enqueues table n t b cs' r) cs := by
  refine under_perform (c := .inl (.markDirty table)) ?_ ?_
  · exact fun cs' _ => (putsNothing_cached (by simp)).fills
  · intro _ cs1 cs2 _ _ _ _ _ _ cs3 _
    refine ⟨fills_outside (by simp), ?_⟩
    rintro r cs4 ⟨_, began, ended, hmem, _⟩ cs5 h5 n rfl
    exact ⟨_, h5 _ hmem, ⟨rfl, rfl⟩, rfl⟩

lemma under_writeSync (table : Bytes) (row : Row) :
    (writeSync cfg table row).Under (history t b (Fills cfg job t b))
      (fun out cs' => ∀ n, out = some n → ∃ r, Enqueues table n t b cs' r ∧
        ∀ table' ∈ cfg.asked table, ∃ w, Waits table' t b cs' w ∧ r.ended < w.began) cs := by
  refine under_perform (c := .inl (.markDirty table)) ?_ ?_
  · exact fun cs' _ => (putsNothing_cached (by simp)).fills
  · intro _ cs1 cs2 _ _ _ _ _ _
    refine under_perform (c := .inr (.enqueue table row)) (fun cs' _ => fills_outside (by simp)) ?_
    intro out cs3 cs4 _ _ began ended hmem _
    refine Prog.Under.bind ((under_flushNow table).mono ?_)
    rintro _ cs5 ⟨h5, h⟩ cs6 h6 n rfl
    refine ⟨_, ⟨h6 _ (h5 _ hmem), ⟨rfl, rfl⟩, rfl⟩, fun table' ht => ?_⟩
    obtain ⟨w, hw, hlt⟩ := h table' ht
    exact ⟨w, hw.mono h6, hlt _ hmem rfl⟩

lemma always_markClean (table : Bytes) (rows : ℕ) :
    (markClean table rows).Always (PutsNothing job) := by
  induction rows with
  | zero => trivial
  | succ _ ih => exact .perform_bind (putsNothing_cached (by simp)) fun _ => ih

lemma always_attempts (table : Bytes) (b : Sending) (left : ℕ) (error : PgResult) :
    (attempts table b left error).Always (PutsNothing job) := by
  induction left generalizing error with
  | zero => exact .perform_bind (putsNothing_outside (by simp)) fun _ => always_markClean _ _
  | succ _ ih =>
    refine .perform_bind (putsNothing_outside (by simp)) fun r => ?_
    split_ifs
    · exact always_markClean _ _
    · exact ih r

lemma always_flush (table : Bytes) : (flush cfg table).Always (PutsNothing (.flush table)) := by
  unfold flush
  split
  · trivial
  · refine .perform_bind ⟨by simp, by rintro table' ⟨⟩; rfl⟩ fun items => ?_
    split_ifs
    · trivial
    · exact always_attempts _ _ _ _

lemma always_update (sql : Bytes) (params : List PgParam) (table : Bytes) :
    (update sql params table).Always (PutsNothing job) := by
  refine .perform_bind (putsNothing_outside (by simp)) fun committed => ?_
  exact .perform_bind (putsNothing_cached (by simp)) fun _ => trivial

lemma always_notified (payload : Bytes) : (notified cfg payload).Always (PutsNothing job) := by
  have hone : ∀ table, (cached (.invalidateTable table)).Always (PutsNothing job) :=
    fun table => .perform (putsNothing_cached (by simp))
  unfold notified
  dsimp only
  split_ifs
  · exact Prog.always_forM _ fun table _ => hone table
  · exact hone _

lemma under_of_always {p : Script α} (hp : p.Always (PutsNothing job)) :
    p.Under (history t b (Fills cfg job t b)) (fun _ _ => True) cs :=
  Prog.Under.of_always hp (fun _ _ => trivial) (fun hop _ =>
    ⟨hop.fills, fun _ _ _ => trivial⟩) trivial

lemma under_script (t : DbThread) (b : ℕ) (job : DbJob) (cs : List DbRecord) :
    (script cfg job).Under (history t b (Fills cfg job t b)) (Ends cfg job t b) cs := by
  cases job with
  | queryCached sql params ttl tag => exact under_queryCached sql params ttl tag
  | update sql params table => exact under_of_always (always_update sql params table)
  | write table row => exact under_write table row
  | writeSync table row => exact under_writeSync table row
  | flushNow table =>
    refine (under_flushNow table).mono ?_
    rintro _ cs' ⟨-, h⟩ table' ht
    obtain ⟨w, hw, -⟩ := h table' ht
    exact ⟨w, hw⟩
  | flush table => exact under_of_always (always_flush table)
  | rebalance =>
    exact under_of_always (Prog.always_forM _ fun c _ => .perform (putsNothing_outside (by simp)))
  | sweep | resetThreadL1 => exact under_of_always (.perform (putsNothing_cached (by simp)))
  | notified payload => exact under_of_always (always_notified payload)
  | stop => exact under_of_always (.perform (putsNothing_outside (by simp)))

end Programs

def Returned (cfg : DbConfig) (job : DbJob) (t : DbThread) (b : ℕ) (out : Option job.Out)
    (cs : List DbRecord) : Prop := ∀ x, out = some x → Ends cfg job t b x cs

lemma histories_of_dbRun {S : Server G} {cfg : DbConfig} {pg : G} {es : List DbEvent} {s : DbSys G}
    (hrun : run (dbMachine S cfg) (cfg.start pg) es = some s) :
    Histories (Fills cfg) (Returned cfg) s := by
  refine histories_of_run ?_ ?_ ?_ hrun
  · intro t b fuel job cs
    refine Prog.Under.bind ((under_script t b job cs).mono ?_)
    rintro out cs' hends cs'' hcs x ⟨⟩
    exact hends.mono hcs
  · rintro job t b c cs cs' hcs ⟨h, hdrain⟩
    refine ⟨fun key v ttl tag hc => ?_, hdrain⟩
    obtain ⟨sql, params, ttl', hjob, hkey, q, hq, hans⟩ := h key v ttl tag hc
    exact ⟨sql, params, ttl', hjob, hkey, q, hcs q hq, hans⟩
  · exact fun hcs h x hx => (h x hx).mono hcs

end SpidoNG.Db
