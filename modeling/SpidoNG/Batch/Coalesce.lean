import SpidoNG.Batch.Writer
import SpidoNG.Lib.Upsert

/-!
# Coalescing

`send_batch` sends only the last of the rows with the same key bytes.
-/

namespace SpidoNG.Batch

open Bytes Pg Upsert List Option BatchTableConfig

variable {K D V : Type} [DecidableEq K] [LinearOrder V] {cfg : BatchTableConfig}

structure Stored (K D : Type) where
  keyed : Table K D
  generated : List D

structure TableSql (cfg : BatchTableConfig) (K D V : Type) where
  read : Row → Option (Option K × D)
  version : D → Option V
  keyed : ∀ {row k d}, read row = some (k, d) → k.isSome = cfg.prepared.pkIndex.isSome
  null_key : ∀ {row i p}, cfg.prepared.pkIndex = some i → row[i]? = some p → p.isNull = true →
    read row = none

def keyedOf (ps : List (Option K × D)) : List (K × D) :=
  ps.filterMap fun p => p.1.map fun k => (k, p.2)

def generatedOf (ps : List (Option K × D)) : List D :=
  ps.filterMap fun p => if p.1.isSome then none else some p.2

namespace TableSql

variable (sql : TableSql cfg K D V) (c : OnConflict)

def allow : D → D → Bool := if c.versionGuard then newer sql.version else fun _ _ => true

def upsert (rows : List Row) (t : Stored K D) : Stored K D :=
  if c.set = [] then t
  else
    match rows.mapM sql.read with
    | none => t
    | some ps =>
      match storeOnce (sql.allow c) (keyedOf ps) [] t.keyed with
      | none => t
      | some keyed => ⟨keyed, t.generated ++ generatedOf ps⟩

def insertNew (rows : List Row) (t : Stored K D) : Stored K D :=
  match rows.mapM sql.read with
  | none => t
  | some ps =>
    if ((keyedOf ps).map Prod.fst).Nodup ∧ ∀ p ∈ keyedOf ps, t.keyed p.1 = none then
      ⟨storeAll (fun _ _ => true) (keyedOf ps) t.keyed, t.generated ++ generatedOf ps⟩
    else t

def exec (s : Insert) (t : Stored K D) : Stored K D :=
  match s.onConflict with
  | none => sql.insertNew s.rows t
  | some c => sql.upsert c s.rows t

def accepted (rows : List Row) : List (K × D) := keyedOf (rows.filterMap sql.read)

def execEach (table : Bytes) (rows : List Row) (t : Stored K D) : Stored K D :=
  rows.foldl (fun t row => sql.exec (cfg.prepared.sendBatch table [row]) t) t

end TableSql

def BatchTableConfig.LastOfKey (cfg : BatchTableConfig) (rows : List Row) (row : Row) : Prop :=
  match cfg.pkIndex with
  | none => row ∈ rows
  | some i => ∃ before after, rows = before ++ row :: after ∧
      ∀ r ∈ after, keyBytes i r ≠ keyBytes i row

variable {row : Row} {rows : List Row}

lemma mem_coalesceBy {i : ℕ} :
    row ∈ coalesceBy i rows ↔ ∃ before after, rows = before ++ row :: after ∧
      ∀ r ∈ after, keyBytes i r ≠ keyBytes i row := by
  induction rows with
  | nil => simp [coalesceBy]
  | cons r rows ih =>
    have hlat : (∃ before after, rows = before ++ row :: after ∧
        ∀ r ∈ after, keyBytes i r ≠ keyBytes i row) → ∃ before after,
        r :: rows = before ++ row :: after ∧ ∀ r ∈ after, keyBytes i r ≠ keyBytes i row := by
      rintro ⟨before, after, rfl, haft⟩
      exact ⟨r :: before, after, rfl, haft⟩
    unfold coalesceBy
    split_ifs with hany
    · rw [ih]
      refine ⟨hlat, ?_⟩
      rintro ⟨before, after, heq, haft⟩
      cases before with
      | nil =>
        -- The first row is not the last one with its key.
        obtain ⟨rfl, rfl⟩ := List.cons.inj heq
        obtain ⟨r', hr', hkey⟩ := any_eq_true.1 hany
        exact absurd (of_decide_eq_true hkey) (haft r' hr')
      | cons b before => exact ⟨before, after, (List.cons.inj heq).2, haft⟩
    · rw [mem_cons, ih]
      constructor
      · rintro (rfl | h)
        · refine ⟨[], rows, rfl, ?_⟩
          intro r' hr' hkey
          exact hany (any_eq_true.2 ⟨r', hr', decide_eq_true hkey⟩)
        · exact hlat h
      · rintro ⟨before, after, heq, haft⟩
        cases before with
        | nil => exact .inl (List.cons.inj heq).1.symm
        | cons b before => exact .inr ⟨before, after, (List.cons.inj heq).2, haft⟩

lemma nodup_coalesceBy (i : ℕ) (rows : List Row) :
    ((coalesceBy i rows).map (keyBytes i)).Nodup := by
  induction rows with
  | nil => simp [coalesceBy]
  | cons _ _ ih =>
    unfold coalesceBy
    split_ifs with hany
    · exact ih
    · refine nodup_cons.2 ⟨?_, ih⟩
      intro hmem
      obtain ⟨r, hr, hkey⟩ := mem_map.1 hmem
      obtain ⟨before, after, rfl, -⟩ := mem_coalesceBy.1 hr
      exact hany (any_eq_true.2 ⟨r, by simp, decide_eq_true hkey⟩)

lemma mem_coalesce (hst : cfg.dataModel = .State) :
    row ∈ cfg.coalesce rows ↔ cfg.LastOfKey rows row := by
  unfold coalesce BatchTableConfig.LastOfKey
  rw [hst]
  cases cfg.pkIndex with
  | none => exact Iff.rfl
  | some => exact mem_coalesceBy

lemma BatchTableConfig.LastOfKey.mem (h : cfg.LastOfKey rows row) : row ∈ rows := by
  unfold BatchTableConfig.LastOfKey at h
  cases hi : cfg.pkIndex with
  | none => rwa [hi] at h
  | some =>
    rw [hi] at h
    obtain ⟨before, after, rfl, -⟩ := h
    simp

variable {α β : Type} {f : α → Option β} {l : List α}

lemma mapM_of_ne_none (h : ∀ a ∈ l, f a ≠ none) : l.mapM f = some (l.filterMap f) := by
  induction l with
  | nil => rfl
  | cons a l ih =>
    obtain ⟨b, hb⟩ := ne_none_iff_exists'.1 (h a (by simp))
    rw [mapM_cons, hb, ih fun a ha => h a (by simp [ha]), filterMap_cons_some hb]
    rfl

lemma mapM_of_eq_none {a : α} (ha : a ∈ l) (h : f a = none) : l.mapM f = none := by
  induction l with
  | nil => cases ha
  | cons b l ih =>
    rw [mapM_cons]
    rcases mem_cons.1 ha with rfl | ha
    · rw [h]
      rfl
    · rw [ih ha]
      cases f b <;> rfl

lemma eq_of_nodup_filterMap
    (h : (l.filterMap f).Nodup) {a b : α} {c : β} (ha : a ∈ l) (hb : b ∈ l) (hfa : f a = some c)
    (hfb : f b = some c) : a = b := by
  induction l with
  | nil => cases ha
  | cons x l ih =>
    have hhead : ∀ y ∈ l, f x = some c → f y ≠ some c := by
      intro y hy hx hfy
      rw [filterMap_cons_some hx] at h
      exact (nodup_cons.1 h).1 (mem_filterMap.2 ⟨y, hy, hfy⟩)
    have htail : (l.filterMap f).Nodup :=
      h.sublist (List.Sublist.filterMap f (sublist_cons_self x l))
    rcases mem_cons.1 ha with rfl | ha'
    · rcases mem_cons.1 hb with rfl | hb'
      · rfl
      · exact absurd hfb (hhead b hb' hfa)
    · rcases mem_cons.1 hb with rfl | hb'
      · exact absurd hfa (hhead a ha' hfb)
      · exact ih htail ha' hb'

namespace TableSql

variable {sql : TableSql cfg K D V} {c : OnConflict}

lemma upsert_of_refused (hmem : row ∈ rows) (h : sql.read row = none)
    (t : Stored K D) : sql.upsert c rows t = t := by
  unfold upsert
  rw [mapM_of_eq_none hmem h]
  split_ifs <;> rfl

lemma upsert_of_nodup (hset : c.set ≠ []) (h : ∀ row ∈ rows, sql.read row ≠ none)
    (hnodup : ((sql.accepted rows).map Prod.fst).Nodup) (t : Stored K D) :
    sql.upsert c rows t = ⟨storeAll (sql.allow c) (sql.accepted rows) t.keyed,
      t.generated ++ generatedOf (rows.filterMap sql.read)⟩ := by
  have hstore := @storeOnce_of_nodup K D _ (sql.allow c) (sql.accepted rows) [] t.keyed hnodup
    (by simp)
  unfold accepted at hstore
  simp only [upsert, if_neg hset, mapM_of_ne_none h, hstore]
  rfl

lemma upsert_of_not_nodup (h : ∀ row ∈ rows, sql.read row ≠ none)
    (hnodup : ¬ ((sql.accepted rows).map Prod.fst).Nodup) :
    sql.upsert c rows ⟨fun _ => none, []⟩ = ⟨fun _ => none, []⟩ := by
  have hstore := @storeOnce_of_not_nodup K D _ (sql.allow c) (sql.accepted rows) [] (fun _ => none)
    (by simp) fun hand => hnodup hand.1
  unfold accepted at hstore
  unfold upsert
  rw [mapM_of_ne_none h]
  simp only [hstore]
  split_ifs <;> rfl

lemma coalesce_singleton (cfg : BatchTableConfig) (row : Row) : cfg.coalesce [row] = [row] := by
  unfold coalesce
  split
  · simp [coalesceBy]
  · rfl

lemma exec_sendBatch (hst : cfg.dataModel = .State) (hkey : cfg.primaryKey ≠ []) (table : Bytes)
    (rows : List Row) (t : Stored K D) : sql.exec (cfg.prepared.sendBatch table rows) t =
      sql.upsert cfg.prepared.conflict (cfg.prepared.coalesce rows) t := by
  have hconflict : (cfg.prepared.sendBatch table rows).onConflict = some cfg.prepared.conflict := by
    show cfg.prepared.onConflict = _
    unfold onConflict
    rw [if_pos]
    have hups : cfg.prepared.upsert := by simp [prepared, hst]
    have hpk : cfg.prepared.primaryKey.isEmpty = false := by
      simpa [prepared] using hkey
    simp [hups, hpk]
  simp only [exec, hconflict]
  rfl

lemma execEach_eq (hst : cfg.dataModel = .State) (hkey : cfg.primaryKey ≠ [])
    (hset : cfg.prepared.conflict.set ≠ []) (table : Bytes) (rows : List Row) (t : Stored K D) :
    sql.execEach table rows t =
      ⟨storeAll (sql.allow cfg.prepared.conflict) (sql.accepted rows) t.keyed,
        t.generated ++ generatedOf (rows.filterMap sql.read)⟩ := by
  induction rows generalizing t with
  | nil => simp [execEach, accepted, keyedOf, generatedOf, storeAll]
  | cons row rows ih =>
    show sql.execEach table rows (sql.exec (cfg.prepared.sendBatch table [row]) t) = _
    rw [ih, exec_sendBatch hst hkey, coalesce_singleton]
    cases hrow : sql.read row with
    | none =>
      rw [upsert_of_refused (by simp) hrow]
      simp [accepted, hrow]
    | some p =>
      have hgood : ∀ r ∈ [row], sql.read r ≠ none := by simp [hrow]
      have hkeys : ((sql.accepted [row]).map Prod.fst).Nodup := by
        obtain ⟨k, d⟩ := p
        cases k <;> simp [accepted, keyedOf, hrow]
      rw [upsert_of_nodup hset hgood hkeys]
      obtain ⟨k, d⟩ := p
      cases k <;> simp [accepted, keyedOf, generatedOf, storeAll, hrow]

variable (sql c) in
def Stands (ds : List D) (s : D) : Prop :=
  if c.versionGuard then Prevails sql.version ds s else ds.getLast? = some s

omit [DecidableEq K] in
lemma stands_iff (ds : List D) (s : D) :
    (∀ x, putAll (sql.allow c) ds x = put (sql.allow c) x s) ↔ sql.Stands c ds s := by
  unfold Stands allow
  split_ifs
  · exact putAll_newer_iff ds s
  · exact putAll_true_iff ds s

variable (sql c) in
/-- The last rows for the key bytes have different keys, and each does what all rows for its key
do. -/
structure Representative (rows : List Row) : Prop where
  accepts : ∀ row, cfg.prepared.LastOfKey rows row → sql.read row ≠ none
  apart : ∀ row row' k d d', cfg.prepared.LastOfKey rows row → cfg.prepared.LastOfKey rows row' →
    sql.read row = some (some k, d) → sql.read row' = some (some k, d') → row = row'
  stands : ∀ k, contents k (sql.accepted rows) ≠ [] → ∃ row s, cfg.prepared.LastOfKey rows row ∧
    sql.read row = some (some k, s) ∧ sql.Stands c (contents k (sql.accepted rows)) s

section

omit [DecidableEq K] [LinearOrder V]

lemma mem_accepted {k : K} {d : D} :
    (k, d) ∈ sql.accepted rows ↔ ∃ row ∈ rows, sql.read row = some (some k, d) := by
  simp only [accepted, keyedOf, mem_filterMap, map_eq_some_iff, Prod.mk.injEq, Prod.exists]
  constructor
  · rintro ⟨k', d', ⟨row, hrow, hread⟩, k'', hk, rfl, rfl⟩
    cases hk
    exact ⟨row, hrow, hread⟩
  · rintro ⟨row, hrow, hread⟩
    exact ⟨some k, d, ⟨row, hrow, hread⟩, k, rfl, rfl, rfl⟩

lemma keys_accepted (rows : List Row) :
    (sql.accepted rows).map Prod.fst = rows.filterMap fun row => (sql.read row).bind Prod.fst := by
  induction rows with
  | nil => rfl
  | cons row _ ih =>
    unfold accepted keyedOf at ih ⊢
    cases hrow : sql.read row with
    | none => simp [hrow, ih]
    | some p =>
      obtain ⟨k, d⟩ := p
      cases k <;> simp [hrow, ih]

lemma generated_coalesce (hst : cfg.dataModel = .State) (rows : List Row) :
    generatedOf ((cfg.prepared.coalesce rows).filterMap sql.read) =
      generatedOf (rows.filterMap sql.read) := by
  have hmodel : cfg.prepared.dataModel = .State := hst
  unfold coalesce
  rw [hmodel]
  cases hi : cfg.prepared.pkIndex with
  | none => rfl
  | some =>
    have hnil : ∀ rows : List Row, generatedOf (rows.filterMap sql.read) = [] := by
      intro rows
      apply filterMap_eq_nil_iff.2
      intro p hp
      obtain ⟨row, -, hrow⟩ := mem_filterMap.1 hp
      have hkey := sql.keyed (show sql.read row = some (p.1, p.2) from hrow)
      rw [hi] at hkey
      simp [hkey]
    rw [hnil, hnil]

end

lemma nodup_keys (hst : cfg.dataModel = .State) (h : sql.Representative c rows) :
    ((sql.accepted (cfg.prepared.coalesce rows)).map Prod.fst).Nodup := by
  have hmodel : cfg.prepared.dataModel = .State := hst
  have hmem := fun row => @mem_coalesce cfg.prepared row rows hmodel
  rw [keys_accepted]
  unfold coalesce at hmem ⊢
  rw [hmodel] at hmem ⊢
  cases hi : cfg.prepared.pkIndex with
  | none =>
    -- No row has a key of its own.
    have hnil : (rows.filterMap fun row => (sql.read row).bind Prod.fst) = [] := by
      apply filterMap_eq_nil_iff.2
      intro row _
      cases hrow : sql.read row with
      | none => rfl
      | some p =>
        have hkey := sql.keyed (show sql.read row = some (p.1, p.2) from hrow)
        rw [hi] at hkey
        simpa using hkey
    rw [hnil]
    exact nodup_nil
  | some i =>
    rw [hi] at hmem
    refine pairwise_filterMap.2 (List.Pairwise.imp_of_mem ?_ (List.Nodup.of_map _
      (nodup_coalesceBy i rows)))
    intro row row' hrow hrow' hne k hk k' hk' heq
    subst heq
    obtain ⟨⟨k1, d⟩, hread, hk1⟩ := bind_eq_some_iff.1 hk
    obtain ⟨⟨k2, d'⟩, hread', hk2⟩ := bind_eq_some_iff.1 hk'
    dsimp only at hk1 hk2
    subst hk1
    subst hk2
    exact hne (h.apart row row' k d d' ((hmem row).1 hrow) ((hmem row').1 hrow') hread hread')

lemma upsert_of_all_refused (h : ∀ row ∈ rows, sql.read row = none)
    (t : Stored K D) : sql.upsert c rows t = t := by
  cases rows with
  | nil => simp [upsert, keyedOf, generatedOf, storeOnce]
  | cons row => exact upsert_of_refused (by simp) (h row (by simp)) t

lemma stored_ne_empty (hmem : row ∈ rows) (h : sql.read row ≠ none) :
    (⟨storeAll (sql.allow c) (sql.accepted rows) fun _ => none,
      [] ++ generatedOf (rows.filterMap sql.read)⟩ : Stored K D) ≠ ⟨fun _ => none, []⟩ := by
  obtain ⟨⟨k, d⟩, hread⟩ := ne_none_iff_exists'.1 h
  intro heq
  obtain ⟨hkeys, hgen⟩ := Stored.mk.inj heq
  cases k with
  | some k =>
    have hk := congrFun hkeys k
    rw [storeAll_apply] at hk
    have hin : d ∈ contents k (sql.accepted rows) :=
      mem_contents.2 (mem_accepted.2 ⟨row, hmem, hread⟩)
    exact putAll_ne_none _ (.inl (ne_nil_of_mem hin)) hk
  | none =>
    have hin : d ∈ generatedOf (rows.filterMap sql.read) :=
      mem_filterMap.2 ⟨(none, d), mem_filterMap.2 ⟨row, hmem, hread⟩, rfl⟩
    rw [nil_append] at hgen
    rw [hgen] at hin
    cases hin

lemma putAll_eq_of_stored {ps qs : List (K × D)} {allow : D → D → Bool}
    (h : ∀ t : Table K D, storeAll allow ps t = storeAll allow qs t) (k : K) (x : Option D) :
    putAll allow (contents k ps) x = putAll allow (contents k qs) x := by
  have hk := congrFun (h fun _ => x) k
  rwa [storeAll_apply, storeAll_apply] at hk

lemma representative_of_eq (hst : cfg.dataModel = .State)
    (hgood : ∀ row ∈ cfg.prepared.coalesce rows, sql.read row ≠ none)
    (hnodup : ((sql.accepted (cfg.prepared.coalesce rows)).map Prod.fst).Nodup)
    (h : ∀ k x, putAll (sql.allow c) (contents k (sql.accepted (cfg.prepared.coalesce rows))) x =
      putAll (sql.allow c) (contents k (sql.accepted rows)) x) : sql.Representative c rows := by
  have hmem := fun row => @mem_coalesce cfg.prepared row rows hst
  refine ⟨fun row hrow => hgood row ((hmem row).2 hrow), ?_, ?_⟩
  · intro row row' k d d' hrow hrow' hread hread'
    rw [keys_accepted] at hnodup
    refine eq_of_nodup_filterMap hnodup ((hmem row).2 hrow) ((hmem row').2 hrow') (c := k) ?_ ?_
    · rw [hread]
      rfl
    · rw [hread']
      rfl
  · intro k hne
    have hserver : contents k (sql.accepted (cfg.prepared.coalesce rows)) ≠ [] := by
      intro hnil
      have hnone := h k none
      rw [hnil, putAll_nil] at hnone
      exact putAll_ne_none _ (.inl hne) hnone.symm
    obtain ⟨s, hs⟩ := exists_mem_of_ne_nil _ hserver
    have hin := mem_contents.1 hs
    obtain ⟨row, hrow, hread⟩ := mem_accepted.1 hin
    refine ⟨row, s, (hmem row).1 hrow, hread, stands_iff _ _ |>.1 ?_⟩
    intro x
    rw [← h k x, contents_eq_singleton hnodup hin]
    rfl

lemma exec_eq_execEach_of_set_nil (hst : cfg.dataModel = .State) (hkey : cfg.primaryKey ≠ [])
    (hset : cfg.prepared.conflict.set = []) (table : Bytes) (rows : List Row) (t : Stored K D) :
    sql.exec (cfg.prepared.sendBatch table rows) t = sql.execEach table rows t := by
  have hnone : ∀ rows t, sql.exec (cfg.prepared.sendBatch table rows) t = t := by
    intro rows t
    rw [exec_sendBatch hst hkey, upsert, if_pos hset]
  have heach : sql.execEach table rows t = t := by
    unfold execEach
    induction rows with
    | nil => rfl
    | cons _ _ ih => rw [foldl_cons, hnone, ih]
  rw [hnone, heach]

lemma exec_eq_execEach_of_representative (hst : cfg.dataModel = .State)
    (hkey : cfg.primaryKey ≠ []) (hset : cfg.prepared.conflict.set ≠ []) (table : Bytes)
    (h : sql.Representative cfg.prepared.conflict rows) (t : Stored K D) :
    sql.exec (cfg.prepared.sendBatch table rows) t = sql.execEach table rows t := by
  have hmem := fun row => @mem_coalesce cfg.prepared row rows hst
  have hnodup := nodup_keys hst h
  rw [exec_sendBatch hst hkey, execEach_eq hst hkey hset,
    upsert_of_nodup hset (fun row hrow => h.accepts row ((hmem row).1 hrow)) hnodup,
    generated_coalesce hst]
  congr 1
  funext k
  rw [storeAll_apply, storeAll_apply]
  by_cases hnil : contents k (sql.accepted rows) = []
  · have hserver : contents k (sql.accepted (cfg.prepared.coalesce rows)) = [] := by
      rw [contents_eq_nil] at hnil ⊢
      intro d hd
      obtain ⟨row, hrow, hread⟩ := mem_accepted.1 hd
      exact hnil d (mem_accepted.2 ⟨row, ((hmem row).1 hrow).mem, hread⟩)
    rw [hnil, hserver]
  · obtain ⟨row, s, hrow, hread, hstands⟩ := h.stands k hnil
    have hin : (k, s) ∈ sql.accepted (cfg.prepared.coalesce rows) :=
      mem_accepted.2 ⟨row, (hmem row).2 hrow, hread⟩
    rw [contents_eq_singleton hnodup hin, (stands_iff _ s).2 hstands]
    rfl

end TableSql

/-- **Coalescing.** On every table the batch does what its rows do one by one, if and only if there
is nothing to set, or every row is refused, or the last rows stand for all of them. -/
theorem batch_eq_rows_iff (cfg : BatchTableConfig) (hstate : cfg.dataModel = .State)
    (hkey : cfg.primaryKey ≠ []) (sql : TableSql cfg K D V) (table : Bytes) (rows : List Row) :
    (∀ t, sql.exec (cfg.prepared.sendBatch table rows) t = sql.execEach table rows t) ↔
      cfg.prepared.conflict.set = [] ∨ (∀ row ∈ rows, sql.read row = none) ∨
        sql.Representative cfg.prepared.conflict rows := by
  have hmem := fun row => @mem_coalesce cfg.prepared row rows hstate
  by_cases hset : cfg.prepared.conflict.set = []
  · exact ⟨fun _ => .inl hset,
      fun _ t => TableSql.exec_eq_execEach_of_set_nil hstate hkey hset table rows t⟩
  · constructor
    · intro h
      refine .inr ?_
      by_cases hall : ∀ row ∈ rows, sql.read row = none
      · exact .inl hall
      · right
        simp only [TableSql.exec_sendBatch hstate hkey, TableSql.execEach_eq hstate hkey hset] at h
        push Not at hall
        obtain ⟨row, hrow, hread⟩ := hall
        have hsome := TableSql.stored_ne_empty (c := cfg.prepared.conflict) hrow hread
        -- An empty table shows that the statement is not refused.
        have hempty := h ⟨fun _ => none, []⟩
        have hgood : ∀ row ∈ cfg.prepared.coalesce rows, sql.read row ≠ none := by
          intro r hr hnone
          rw [TableSql.upsert_of_refused hr hnone] at hempty
          exact hsome hempty.symm
        have hnodup : ((sql.accepted (cfg.prepared.coalesce rows)).map Prod.fst).Nodup := by
          by_contra hnot
          rw [TableSql.upsert_of_not_nodup hgood hnot] at hempty
          exact hsome hempty.symm
        refine TableSql.representative_of_eq hstate hgood hnodup (TableSql.putAll_eq_of_stored ?_)
        intro t
        have ht := h ⟨t, []⟩
        rw [TableSql.upsert_of_nodup hset hgood hnodup] at ht
        exact (Stored.mk.inj ht).1
    · rintro (hnil | hall | hrep) t
      · exact absurd hnil hset
      · have hsub : ∀ row ∈ cfg.prepared.coalesce rows, sql.read row = none := fun row hrow =>
          hall row ((hmem row).1 hrow).mem
        have hnone : rows.filterMap sql.read = [] := filterMap_eq_nil_iff.2 hall
        rw [TableSql.exec_sendBatch hstate hkey, TableSql.upsert_of_all_refused hsub,
          TableSql.execEach_eq hstate hkey hset]
        simp [TableSql.accepted, hnone, keyedOf, generatedOf, storeAll]
      · exact TableSql.exec_eq_execEach_of_representative hstate hkey hset table hrep t

def states : BatchTableConfig :=
  { columns := [str "id", str "label", str "version"], primaryKey := str "id" }

def cell (p : PgParam) : Option Bytes := if p.isNull then none else some p.value

def statesSql : TableSql states Bytes (Option Bytes × Option ℕ) ℕ where
  read row :=
    match row with
    | [id, label, version] =>
      if id.isNull then none
      else some (some id.value, cell label, (cell version).map fun b =>
        LittleEndian.getLE b.reverse)
    | _ => none
  version d := d.2
  keyed := by
    intro row k d h
    have hindex : states.prepared.pkIndex.isSome = true := rfl
    rw [hindex]
    split at h
    · split_ifs at h
      cases h
      rfl
    · cases h
  null_key := by
    intro row i p hi hp hnull
    have hindex : states.prepared.pkIndex = some 0 := rfl
    cases hindex.symm.trans hi
    split
    · cases hp
      rw [if_pos hnull]
    · rfl

def stateRow (label : String) (version : ℤ) : Row := [.i4 1, .text (str label), .i4 version]

lemma representative_inOrder :
    statesSql.Representative states.prepared.conflict [stateRow "a" 1, stateRow "b" 2] := by
  have hlast : ∀ row, states.prepared.LastOfKey [stateRow "a" 1, stateRow "b" 2] row →
      row = stateRow "b" 2 := by
    intro row hrow
    have hmem := (mem_coalesce rfl).2 hrow
    have hcoalesce : states.prepared.coalesce [stateRow "a" 1, stateRow "b" 2]
      = [stateRow "b" 2] := by
      decide +kernel
    rw [hcoalesce] at hmem
    exact mem_singleton.1 hmem
  refine ⟨?_, ?_, ?_⟩
  · intro row hrow
    rw [hlast row hrow]
    decide +kernel
  · intro row row' k d d' hrow hrow' _ _
    rw [hlast row hrow, hlast row' hrow']
  · intro k hne
    have hacc : statesSql.accepted [stateRow "a" 1, stateRow "b" 2] =
        [((PgParam.i4 1).value, some (str "a"), some 1),
          ((PgParam.i4 1).value, some (str "b"), some 2)] := rfl
    have hk : k = (PgParam.i4 1).value := by
      obtain ⟨d, hd⟩ := exists_mem_of_ne_nil _ hne
      have hin := mem_contents.1 hd
      rw [hacc] at hin
      rcases mem_cons.1 hin with h | h
      · exact congrArg Prod.fst h
      · exact congrArg Prod.fst (mem_singleton.1 h)
    have hcontents : contents k (statesSql.accepted [stateRow "a" 1, stateRow "b" 2]) =
        [(some (str "a"), some 1), (some (str "b"), some 2)] := by
      rw [hacc, hk]
      decide +kernel
    refine ⟨stateRow "b" 2, (some (str "b"), some 2),
      ⟨[stateRow "a" 1], [], rfl, by simp⟩, by rw [hk]; decide +kernel, ?_⟩
    rw [hcontents]
    refine ⟨⟨_, 1, rfl, rfl⟩, ?_, by decide +kernel⟩
    intro d hd w hw
    rcases mem_cons.1 hd with rfl | hd
    · cases hw
      decide
    · cases mem_singleton.1 hd
      cases hw
      exact le_refl 2

theorem batch_eq_rows_inOrder :
    statesSql.exec (states.prepared.sendBatch (str "states") [stateRow "a" 1, stateRow "b" 2])
        ⟨fun _ => none, []⟩ =
      statesSql.execEach (str "states") [stateRow "a" 1, stateRow "b" 2] ⟨fun _ => none, []⟩ :=
  (batch_eq_rows_iff states rfl (by decide) statesSql (str "states") _).2
    (.inr (.inr representative_inOrder)) _

theorem not_batch_eq_rows_staleLast :
    ¬ ∀ t, statesSql.exec (states.prepared.sendBatch (str "states")
        [stateRow "new" 2, stateRow "old" 1]) t =
      statesSql.execEach (str "states") [stateRow "new" 2, stateRow "old" 1] t := by
  intro h
  have hkey := congrArg (fun s => s.keyed (PgParam.i4 1).value) (h ⟨fun _ => none, []⟩)
  revert hkey
  decide +kernel

end SpidoNG.Batch
