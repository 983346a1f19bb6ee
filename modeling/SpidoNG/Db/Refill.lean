import SpidoNG.Db.History

/-!
# Refills of the cache and invalidations

A query that misses the cache puts the answer there without looking for invalidations in between.
-/

namespace SpidoNG.Db

open Bytes Pg Cache Batch Threads

variable {G : Type}

def OneTag (cfg : DbConfig) (s : DbSys G) : DbEvent → Prop
  | .start _ (.queryCached sql params _ tag) _ => ∀ b sql' params' ttl' tag',
      Begun s b (.queryCached sql' params' ttl' tag') →
        cfg.cacheKey sql' params' = cfg.cacheKey sql params → tag' = tag
  | _ => True

/-- No two puts of one key and no two invalidations of one table overlap, and queries with one key
have one tag. -/
structure Regular (cfg : DbConfig) (s : DbSys G) (e : DbEvent) : Prop where
  calm : Calm s e
  oneTag : OneTag cfg s e

def OneTagOn (cfg : DbConfig) (key : Bytes) (s : DbSys G) : DbEvent → Prop
  | .start _ (.queryCached sql params _ tag) _ => cfg.cacheKey sql params = key →
      ∀ b sql' params' ttl' tag', Begun s b (.queryCached sql' params' ttl' tag') →
        cfg.cacheKey sql' params' = key → tag' = tag
  | _ => True

/-- What `Regular` says, of one key and one table only. -/
structure RegularOn (cfg : DbConfig) (key tag : Bytes) (s : DbSys G) (e : DbEvent) : Prop where
  calm : CalmOn key tag s e
  oneTag : OneTagOn cfg key s e

lemma Regular.on {cfg : DbConfig} {s : DbSys G} {e : DbEvent} (h : Regular cfg s e)
    (key tag : Bytes) : RegularOn cfg key tag s e := by
  refine ⟨h.calm.on key tag, ?_⟩
  cases e with
  | start _ job =>
    cases job with
    | queryCached sql params =>
      intro hkey b sql' params' ttl' tag' hbegun hkey'
      exact h.oneTag b sql' params' ttl' tag' hbegun (hkey'.trans hkey.symm)
    | _ => trivial
  | _ => trivial

/-- The cache key of a query. -/
def DbJob.cacheKey (cfg : DbConfig) : DbJob → Option Bytes
  | .queryCached sql params _ _ => some (cfg.cacheKey sql params)
  | _ => none

/-- The tag and the answer of a query. -/
def queried : (job : DbJob) → job.Out → Option (Bytes × Answer)
  | .queryCached _ _ _ tag, a => some (tag, a)
  | _, _ => none

variable {key tag : Bytes} {j : JobRecord DbThread DbJob.Out} {a : Answer}

lemma eq_of_queried (h : queried j.job j.out = some (tag, a)) :
    ∃ sql params ttl, j = ⟨j.thread, .queryCached sql params ttl tag, a, j.began, j.ended⟩ := by
  obtain ⟨t, job, out, b, e⟩ := j
  cases job with
  | queryCached sql params ttl =>
    cases h
    exact ⟨sql, params, ttl, rfl⟩
  | _ => cases h

variable {c : CacheCall Answer ⊕ DbOp} {r : CallRet DbOp.Res c}

lemma stamp_of_answered (h : answered c r = some a) : stamp c r = some a.asOf := by
  cases c with
  | inl => cases h
  | inr x =>
    cases x with
    | query =>
      cases h
      rfl
    | _ => cases h

lemma DbConfig.cacheKey_of_take {cfg : DbConfig} {sql sql' : Bytes} {params params' : List PgParam}
    (h : (cfg.cacheKey sql params).take L1.kKeyMax = (cfg.cacheKey sql' params').take L1.kKeyMax) :
    cfg.cacheKey sql params = cfg.cacheKey sql' params' := by
  have hlen : ∀ sql params, (cfg.cacheKey sql params).length ≤ L1.kKeyMax := by
    intro sql params
    rw [DbConfig.cacheKey, cfg.digest.length_hex]
    decide
  rwa [List.take_of_length_le (hlen _ _), List.take_of_length_le (hlen _ _)] at h

section Runs

variable {S : Server G} {cfg : DbConfig} {pg : G} {es : List DbEvent} {s s' : DbSys G} {e : DbEvent}

/-- All queries with the key have one tag. -/
def SameTag (cfg : DbConfig) (key : Bytes) (s : DbSys G) : Prop :=
  ∀ {b b' sql sql' params params' ttl ttl' tag tag'}, Begun s b (.queryCached sql params ttl tag) →
    Begun s b' (.queryCached sql' params' ttl' tag') →
      cfg.cacheKey sql params = key → cfg.cacheKey sql' params' = key → tag = tag'

lemma SameTag.step (h : SameTag cfg key s) (hone : OneTagOn cfg key s e)
    (hstep : Step (dbMachine S cfg) s e s') : SameTag cfg key s' := by
  intro b b' sql sql' params params' ttl ttl' tag tag' hq hq' hkey hkey'
  rcases hq.cases hstep.jobChange with hq | ⟨t, fuel, rfl⟩
  · rcases hq'.cases hstep.jobChange with hq' | ⟨t', fuel', rfl⟩
    · exact h hq hq' hkey hkey'
    · exact hone hkey' b sql params ttl tag hq hkey
  · rcases hq'.cases hstep.jobChange with hq' | ⟨t', fuel', heq⟩
    · exact (hone hkey b' sql' params' ttl' tag' hq' hkey').symm
    · cases heq
      rfl

lemma sameTag_of_run (hmeets : Meets (dbMachine S cfg) (RegularOn cfg key tag) (cfg.start pg) es)
    (hrun : run (dbMachine S cfg) (cfg.start pg) es = some s) : SameTag cfg key s := by
  refine run_induction (I := SameTag cfg key) (fun h hok hstep => h.step hok.oneTag hstep) ?_ hmeets
    hrun
  rintro b b' sql sql' params params' ttl ttl' tag tag' (⟨t, j, hj, -⟩ | ⟨r, hr, -⟩)
  · cases hj
  · cases hr

lemma query_of_put (hrun : run (dbMachine S cfg) (cfg.start pg) es = some s) {n ttl : ℕ}
    {key : Bytes} {v : Answer} (hput : Began s n (.inl (.put key v ttl tag))) :
    ∃ b sql params ttl', Begun s b (.queryCached sql params ttl' tag) ∧
      key = cfg.cacheKey sql params ∧ b < v.asOf ∧ ∀ r ∈ s.jobs, r.began = b →
        ∃ p ∈ s.calls, p.began = n ∧ p.call = .inl (.put key v ttl tag) ∧ p.ended < r.ended := by
  have hjobs := jobStamped_of_run hrun
  have hist := histories_of_dbRun hrun
  -- The query had its answer before it put it.
  have hask : ∀ {t b} {q : DbRecord}, q ∈ s.calls → Of t b q → answered q.call q.ret = some v →
      b < v.asOf := by
    intro t b q hq hof hans
    have hgt := hjobs.record_gt hq
    have hstamp := ((accounts_of_run hrun).keeps.returned hq).1 _ (stamp_of_answered hans)
    rw [hof.job] at hgt
    omega
  rcases hput with ⟨t, a, ha, rfl, hcall⟩ | ⟨p, hp, rfl, hcall⟩
  · obtain ⟨job, b, k, hpen⟩ := Sys.pending_of_active ha
    obtain ⟨sql, params, ttl', rfl, hkey, q, hq, hof, hans⟩ :=
      (hist.running hpen).demand.1 key v ttl tag hcall
    refine ⟨b, sql, params, ttl', .inl ⟨t, _, hpen, rfl, rfl⟩, hkey, hask hq hof hans, ?_⟩
    exact fun r hr hb => absurd hb (hjobs.pending_ne hpen hr)
  · obtain ⟨job, hbegan, hfills⟩ := hist.made hp
    obtain ⟨sql, params, ttl', rfl, hkey, q, hq, hof, hans⟩ := hfills.1 key v ttl tag hcall
    refine ⟨p.job, sql, params, ttl', hbegan, hkey, hask hq hof hans, ?_⟩
    exact fun r hr hb => ⟨p, hp, rfl, hcall, (hjobs.call_within hp hr hb.symm).2⟩

/-- A query with the key and the tag that began before the time `m` is over when `i` begins. -/
def NoneUnderWay (cfg : DbConfig) (s : DbSys G) (key tag : Bytes) (m : ℕ) (i : DbRecord) : Prop :=
  ∀ b sql params ttl, Begun s b (.queryCached sql params ttl tag) → cfg.cacheKey sql params = key →
    b < m → ∃ r ∈ s.jobs, r.began = b ∧ r.ended < i.began

lemma asOf_of_cut (hmeets : Meets (dbMachine S cfg) (RegularOn cfg key tag) (cfg.start pg) es)
    (hrun : run (dbMachine S cfg) (cfg.start pg) es = some s) (htag : tag ≠ []) {m : ℕ}
    {i c : DbRecord} (hi : i ∈ s.calls) (hdrop : invalidated i.call = some tag) (hm : m ≤ i.began)
    (hnone : NoneUnderWay cfg s key tag m i) (hc : c ∈ s.calls) (hclears : clears c.call)
    (hcut : c = i ∨ i.ended ≤ c.began) (hj : j ∈ s.jobs) (hjkey : j.job.cacheKey cfg = some key)
    (ha : queried j.job j.out = some (tag, a)) (hthread : j.thread = c.thread)
    (hafter : c.ended ≤ j.began) : m ≤ a.asOf := by
  have hstamped := stamped_of_run hrun
  obtain ⟨sql, params, ttl, heq⟩ := eq_of_queried ha
  rw [heq] at hj hjkey
  obtain rfl : cfg.cacheKey sql params = key := Option.some.inj hjkey
  obtain ⟨r, hr, hof, hfrom⟩ := (histories_of_dbRun hrun).finished hj a rfl
  have hlate : j.began < r.began := hof.job ▸ (jobStamped_of_run hrun).record_gt hr
  rcases hfrom with hans | ⟨hkey, v, hv, rfl⟩
  · -- PostgreSQL answered after the query began.
    have hstamp := ((accounts_of_run hrun).keeps.returned hr).1 _ (stamp_of_answered hans)
    have hlt := hstamped.record_lt hi
    have hlt' := hstamped.record_lt hc
    rcases hcut with rfl | hcut <;> omega
  · by_contra hold
    obtain ⟨key, ttl', tag', hbegan, htake⟩ := (traced_of_run hrun).got hr hkey hv
    obtain ⟨b, sql', params', ttl'', hbegun, rfl, hask, hput⟩ := query_of_put hrun hbegan
    have hsame := DbConfig.cacheKey_of_take htake
    have htags : tag' = tag := sameTag_of_run hmeets hrun hbegun (.inr ⟨_, hj, rfl, rfl⟩) hsame rfl
    subst htags
    obtain ⟨q, hq, hqb, hqi⟩ := hnone b sql' params' ttl'' hbegun hsame (by omega)
    obtain ⟨p, hp, hpn, hpcall, hpq⟩ := hput q hq hqb
    exact silent_of_run (x := ⟨v.id, cfg.cacheKey sql params, tag', v.value, ttl', htag⟩)
      (hmeets.mono fun _ _ h => h.calm) hrun hp (hsame ▸ hpcall) hpn
      ⟨hc, hclears, i, hi, eq_of_invalidated hdrop, hpq.trans hqi, hcut⟩ hr
      (hof.thread.trans hthread) (by omega) hv rfl

/-- The time of a commit. -/
def committed : (c : CacheCall Answer ⊕ DbOp) → CallRet DbOp.Res c → Option ℕ
  | .inr (.commit _ _), r => r
  | _, _ => none

lemma stamp_of_committed {m : ℕ} (h : committed c r = some m) : stamp c r = some m := by
  cases c with
  | inl => cases h
  | inr x =>
    cases x with
    | commit => exact h
    | _ => cases h

/-- After an invalidation no query returns an answer from before a commit that preceded it. -/
def NoStaleRefill (s : DbSys G) : Prop :=
  ∀ k ∈ s.calls, ∀ i ∈ s.calls, ∀ j ∈ s.jobs, ∀ m tag a, committed k.call k.ret = some m →
    invalidated i.call = some tag → queried j.job j.out = some (tag, a) → k.ended ≤ i.began →
      i.ended ≤ j.began → m ≤ a.asOf

/-- A query after an invalidation, on a thread that has noticed it, does not return an answer from
before the commit, unless another query with its key was under way all the time. -/
theorem committed_le_asOf (S : Server G) (cfg : DbConfig)
    {key tag : Bytes} (hmeets : Meets (dbMachine S cfg) (RegularOn cfg key tag) (cfg.start pg) es)
    (hrun : run (dbMachine S cfg) (cfg.start pg) es = some s) (htag : tag ≠ []) {m : ℕ}
    {k i c : DbRecord} (hk : k ∈ s.calls) (hcommit : committed k.call k.ret = some m)
    (hi : i ∈ s.calls) (hdrop : invalidated i.call = some tag) (horder : k.ended ≤ i.began)
    (hnone : NoneUnderWay cfg s key tag m i) (hc : c ∈ s.calls)
    (hclear : c = i ∨ clears c.call = true ∧ i.ended ≤ c.began)
    {j : JobRecord DbThread DbJob.Out} (hj : j ∈ s.jobs) (hkey : j.job.cacheKey cfg = some key)
    {a : Answer}
    (ha : queried j.job j.out = some (tag, a)) (hthread : j.thread = c.thread)
    (hafter : c.ended ≤ j.began) : m ≤ a.asOf := by
  have hlt := ((accounts_of_run hrun).keeps.returned hk).1 m (stamp_of_committed hcommit)
  refine asOf_of_cut hmeets hrun htag hi hdrop (by omega) hnone hc ?_
    (hclear.imp_right And.right) hj
    hkey ha hthread hafter
  rcases hclear with rfl | hclear
  · rw [eq_of_invalidated hdrop]
    rfl
  · exact hclear.1

def takesTurn (ts : List DbThread) (tag : Bytes) (s : DbSys G) (e : DbEvent) : Bool :=
  decide (e.thread ∈ ts) && match e with
    | .start _ (.queryCached _ _ _ tag') _ => tag' = tag
    | .enter _ _ => ts.all fun u => (s.active u).isNone
    | _ => true

structure Confined (ts : List DbThread) (tag : Bytes) (s : DbSys G) : Prop where
  active : ∀ {u a}, s.active u = some a → u ∈ ts
  pending : ∀ {u j}, s.pending u = some j → u ∈ ts
  tags : ∀ {b sql params ttl tag'}, Begun s b (.queryCached sql params ttl tag') → tag' = tag

lemma confined_init (cfg : DbConfig) (pg : G) (ts : List DbThread) (tag : Bytes) :
    Confined ts tag (cfg.start pg) where
  active ha := by cases ha
  pending hj := by cases hj
  tags := by
    rintro b sql params ttl tag' (⟨u, j, hj, -⟩ | ⟨r, hr, -⟩)
    · cases hj
    · cases hr

lemma Confined.step {ts : List DbThread} (h : Confined ts tag s)
    (he : takesTurn ts tag s e) (hstep : Step (dbMachine S cfg) s e s') : Confined ts tag s' := by
  obtain ⟨hthread, he⟩ := Bool.and_eq_true_iff.1 he
  constructor
  · intro u a ha
    rcases hstep.change.active_cases ha with ⟨-, fuel, rfl, -⟩ | ⟨b, hb, -⟩
    · exact of_decide_eq_true hthread
    · exact h.active hb
  · intro u j hj
    rcases hstep.jobChange.pending_cases hj with ⟨-, -, fuel, rfl, -⟩ | ⟨i, hi, -⟩
    · exact of_decide_eq_true hthread
    · exact h.pending hi
  · intro b sql params ttl tag' hbegan
    rcases hbegan.cases hstep.jobChange with hbegan | ⟨u, fuel, rfl⟩
    · exact h.tags hbegan
    · exact of_decide_eq_true he

lemma Confined.regular {ts : List DbThread} (h : Confined ts tag s)
    (he : takesTurn ts tag s e) : Regular cfg s e := by
  obtain ⟨-, he⟩ := Bool.and_eq_true_iff.1 he
  constructor
  · cases e with
    | enter =>
      intro c _ v a ha
      have hnone := List.all_eq_true.1 he v (h.active ha)
      rw [ha] at hnone
      cases hnone
    | _ => trivial
  · cases e with
    | start _ job =>
      cases job with
      | queryCached =>
        intro b sql' params' ttl' tag'' hbegan _
        rw [h.tags hbegan, of_decide_eq_true he]
      | _ => trivial
    | _ => trivial

/-- The cache key of the query `q` without parameters. -/
def asKey : Bytes := DbConfig.small.cacheKey (str "q") []

/-- Ask, change, ask again. -/
def askedAgain : List DbEvent :=
  jobEvents (.worker 0) (.queryCached (str "q") [] 0 (str "t")) [3, 1, 22] ++
    jobEvents (.worker 0) (.update (str "u") [] (str "t")) [1, 4] ++
      jobEvents (.worker 0) (.queryCached (str "q") [] 0 (str "t")) [3, 1, 22]

theorem committed_le_asOf_askedAgain :
    ∃ s k i j m a, run (dbMachine .content .small) (DbConfig.small.start ()) askedAgain = some s ∧
      k ∈ s.calls ∧ i ∈ s.calls ∧ j ∈ s.jobs ∧ committed k.call k.ret = some m ∧
        invalidated i.call = some (str "t") ∧ k.ended ≤ i.began ∧
          NoneUnderWay .small s asKey (str "t") m i ∧ j.job.cacheKey .small = some asKey ∧
          queried j.job j.out = some (str "t", a) ∧ i.ended ≤ j.began ∧ m ≤ a.asOf := by
  have hturns := meets_of_meetsAll (show meetsAll (dbMachine .content .small)
    (takesTurn [.worker 0] (str "t")) (DbConfig.small.start ()) askedAgain = true by decide +kernel)
  have hfound : (run (dbMachine .content .small) (DbConfig.small.start ()) askedAgain).any
      (fun s => (s.pending (.worker 0)).isNone && s.calls.any fun k => s.calls.any fun i =>
        s.jobs.any fun j => (committed k.call k.ret).any fun m => (queried j.job j.out).any fun x =>
          (invalidated i.call = some (str "t") && (j.job.cacheKey .small = some asKey &&
              x.1 = str "t")) &&
            (j.thread = i.thread && (k.ended ≤ i.began && (i.ended ≤ j.began && s.jobs.all fun r =>
              (queried r.job r.out).isNone || (m ≤ r.began || r.ended < i.began))))) = true := by
    decide +kernel
  simp only [Option.any_eq_true, List.any_eq_true, Bool.and_eq_true, decide_eq_true_eq,
    List.all_eq_true, Bool.or_eq_true, Option.isNone_iff_eq_none] at hfound
  obtain ⟨s, hrun, hidle, k, hk, i, hi, j, hj, m, hm, ⟨tag, a⟩, ha, ⟨hdrop, hkey, rfl⟩,
    hthread, horder,
    hafter, hall⟩ := hfound
  have hnone : NoneUnderWay .small s asKey (str "t") m i := by
    rintro b sql params ttl (⟨u, q, hq, -⟩ | ⟨r, hr, rfl, hjob⟩) - hb
    · have hconfined := run_induction Confined.step (confined_init _ _ _ _) hturns hrun
      rw [List.mem_singleton.1 (hconfined.pending hq), hidle] at hq
      cases hq
    · refine ⟨r, hr, rfl, ?_⟩
      rcases hall r hr with hr | hr | hr
      · obtain ⟨t, job, out, b, e⟩ := r
        subst hjob
        cases hr
      · omega
      · exact hr
  have hregular : Meets (dbMachine .content .small) (Regular .small) _ _ :=
    hturns.along Confined.step Confined.regular (confined_init _ _ _ _)
  exact ⟨s, k, i, j, m, a, hrun, hk, hi, hj, hm, hdrop, horder, hnone, hkey, ha, hafter,
    committed_le_asOf .content .small (hregular.mono fun _ _ h => h.on _ _) hrun
    (by decide) hk hm hi
      hdrop horder hnone hi (.inl rfl) hj hkey ha hthread hafter⟩

/-- Worker 0 asks PostgreSQL, worker 1 commits and invalidates, worker 0 puts its old answer, and
worker 1 finds it. -/
def refilled : List DbEvent :=
  .start (.worker 0) (.queryCached (str "q") [] 0 (str "t")) 1 ::
    (callEvents (.worker 0) 3 ++ callEvents (.worker 0) 1 ++
      jobEvents (.worker 1) (.update (str "u") [] (str "t")) [1, 2] ++ callEvents (.worker 0) 22 ++
        .finish (.worker 0) :: jobEvents (.worker 1) (.queryCached (str "q") [] 0 (str "t")) [5])

/-- The stale refill, in a run in which no calls overlap at all: the query is made on the thread
that committed the change and invalidated the table before. -/
theorem not_committed_le_asOf_refilled :
    ∃ s, run (dbMachine .content .small) (DbConfig.small.start ()) refilled = some s ∧
      Meets (dbMachine .content .small) (Regular .small) (DbConfig.small.start ()) refilled ∧
        (∃ k ∈ s.calls, ∃ i ∈ s.calls, ∃ j ∈ s.jobs, ∃ m a, committed k.call k.ret = some m ∧
          invalidated i.call = some (str "t") ∧ queried j.job j.out = some (str "t", a) ∧
            k.ended ≤ i.began ∧ i.ended ≤ j.began ∧ k.thread = i.thread ∧ i.thread = j.thread ∧
              a.asOf < m) ∧ ¬ NoStaleRefill s := by
  have hturns := meets_of_meetsAll (show meetsAll (dbMachine .content .small)
    (takesTurn [.worker 0, .worker 1] (str "t")) (DbConfig.small.start ()) refilled = true by
      decide +kernel)
  have hfound : (run (dbMachine .content .small) (DbConfig.small.start ()) refilled).any
      (fun s => s.calls.any fun k => s.calls.any fun i => s.jobs.any fun j =>
        (committed k.call k.ret).any fun m => (queried j.job j.out).any fun x =>
          (invalidated i.call = some (str "t") && x.1 = str "t") &&
            (k.ended ≤ i.began && (i.ended ≤ j.began && (k.thread = i.thread &&
              (i.thread = j.thread && x.2.asOf < m))))) = true := by
    decide +kernel
  simp only [Option.any_eq_true, List.any_eq_true, Bool.and_eq_true, decide_eq_true_eq] at hfound
  obtain ⟨s, hrun, k, hk, i, hi, j, hj, m, hm, ⟨tag, a⟩, ha, ⟨hdrop, rfl⟩, horder, hafter, hcommit,
    hthread, hlt⟩ := hfound
  refine ⟨s, hrun, hturns.along Confined.step Confined.regular (confined_init _ _ _ _),
    ⟨k, hk, i, hi, j, hj, m, a, hm, hdrop, ha, horder, hafter, hcommit, hthread, hlt⟩, fun h => ?_⟩
  exact hlt.not_ge (h k hk i hi j hj m _ a hm hdrop ha horder hafter)

end Runs

end SpidoNG.Db
