import SpidoNG.Lib.Separated
import SpidoNG.Service.Statements

/-!
# Do the names of prepared statements determine them?

The pool and the database know a prepared statement by its name.
-/

namespace SpidoNG.Service

open Bytes Pg Prog List Statement Resource

namespace Statement

def all : List Statement :=
  [.idemClaim, .idemFetch, .idemClear, .idemStore, .beforeInsert, .afterInsert, .beforeUpdate,
    .afterUpdate, .beforeDelete, .afterDelete, .insert, .bulkInsert, .update, .delete]

lemma mem_all (s : Statement) : s ∈ all := by cases s <;> decide

lemma eq_of_tag_part {s s' : Statement} (h : s.tag <+: s'.tag) : s = s' := by
  have hall : ∀ s ∈ all, ∀ s' ∈ all, s.tag <+: s'.tag → s = s' := by decide +kernel
  exact hall s (mem_all s) s' (mem_all s') h

lemma underscore_notMem_decimal (n : ℕ) : (95 : UInt8) ∉ decimal n := fun h =>
  absurd (digit_of_mem_decimal h).2 (by decide)

lemma name_inj {s s' : Statement} {table table' : Bytes} {n n' : ℕ}
    (h : s.name table n = s'.name table' n') : s = s' ∧ table = table' ∧ (s.numbered → n = n') := by
  unfold name at h
  rw [append_assoc, append_assoc] at h
  obtain rfl : s = s' := by
    have hs : s.tag <+: s.tag ++ (table ++ if s.numbered then str "_" ++ decimal n else []) :=
      prefix_append _ _
    rw [h] at hs
    rcases prefix_or_prefix_of_prefix hs (prefix_append _ _) with hp | hp
    · exact eq_of_tag_part hp
    · exact (eq_of_tag_part hp).symm
  have hrest := append_cancel_left h
  cases hn : s.numbered with
  | false => simpa [hn] using hrest
  | true =>
    simp only [hn, if_true] at hrest
    obtain ⟨htable, hnum⟩ := Separated.last_inj (s := 95) (underscore_notMem_decimal n)
      (underscore_notMem_decimal n') hrest
    exact ⟨rfl, htable, fun _ => decimal_injective hnum⟩

end Statement

variable {r : Resource}

lemma eq_of_table_eq {cfg : Config} {r' : Resource} (hr : r ∈ cfg.generated)
    (hr' : r' ∈ cfg.generated) (h : r.table = r'.table) : r = r' := by
  have : Std.Symm fun r r' : Resource => r.table ≠ r'.table := ⟨fun _ _ => Ne.symm⟩
  by_contra hne
  exact (pairwise_pwFilter cfg.resources).forall hr hr' hne h

section

variable {cfg : Config} (lib : Platform) (x y : Incoming cfg)

def Incoming.Executes (name sql : Bytes) : Prop :=
  ∃ types params, (x.handler lib).Emits (.execPrepared name sql types params)

def Consistent : Prop :=
  ∀ name sql sql', x.Executes lib name sql → y.Executes lib name sql' → sql = sql'

/-- Statements with one name and different texts: `PUT`s that set different columns, or `DELETE`s of
which one is restricted to the caller's rows. -/
def Clash : Prop :=
  x.resource.table = y.resource.table ∧
    ((x.Updates ∧ y.Updates ∧ x.updateParams = y.updateParams ∧ x.setColumns ≠ y.setColumns) ∨
      (x.Deletes ∧ y.Deletes ∧ x.restricted ≠ y.restricted))

end

section

variable {cfg : Config} {lib : Platform} {x y : Incoming cfg}

lemma consistent_of_not_clash (h : ¬ Clash x y) : Consistent lib x y := by
  rintro name sql sql' ⟨types, params, hx⟩ ⟨types', params', hy⟩
  obtain ⟨s, n, hrun, hname, rfl⟩ := (calls_handler lib x).of_emits hx
  obtain ⟨s', n', hrun', hname', rfl⟩ := (calls_handler lib y).of_emits hy
  obtain ⟨rfl, htable, hnum⟩ := name_inj (hname.symm.trans hname')
  have hres : x.resource = y.resource := eq_of_table_eq x.generated y.generated htable
  rw [hres]
  cases s with
  | update =>
    obtain ⟨hux, rfl⟩ := hrun
    obtain ⟨huy, rfl⟩ := hrun'
    have hparams : x.updateParams = y.updateParams := hnum rfl
    have hcols : x.setColumns = y.setColumns := by
      by_contra hne
      exact h ⟨htable, .inl ⟨hux, huy, hparams, hne⟩⟩
    have hrestricted : x.restricted = y.restricted := by
      unfold Incoming.updateParams at hparams
      rw [hcols] at hparams
      revert hparams
      cases x.restricted <;> cases y.restricted <;> simp
    simp only [sql, hcols, hrestricted]
  | delete =>
    have hrestricted : x.restricted = y.restricted := by
      by_contra hne
      exact h ⟨htable, .inr ⟨hrun, hrun', hne⟩⟩
    simp only [sql, hrestricted]
  | bulkInsert => rw [hnum rfl]; rfl
  | _ => rfl

lemma run_runHook (name : Bytes) (hook : Option Bytes) (pk user : Bytes) :
    ∃ t, (runHook name hook pk user).Run t {} := by
  unfold runHook
  split
  · exact ⟨[], .pure _⟩
  · exact ⟨_, .call (.pure _)⟩

lemma executes_of_updates (h : x.Updates) :
    x.Executes lib (Statement.update.name x.resource.table x.updateParams)
      (updateSql x.resource x.restricted x.setColumns) := by
  rcases putHandler_cases lib h.1 with ⟨hn, -⟩ | ⟨-, id, owner, plan, heq, hsql, hparams⟩
  · exact absurd h hn
  obtain ⟨t, ht⟩ := run_runHook (str "hook_bu_" ++ x.resource.table) x.resource.hooks.beforeUpdate
    id owner
  have hname : Statement.update.name x.resource.table x.updateParams =
      str "upd_" ++ x.resource.table ++ str "_" ++ decimal plan.params.length := by
    rw [hparams]
    simp [name, numbered, tag]
  refine ⟨plan.types, plan.params, ?_⟩
  rw [heq, hname, ← hsql]
  exact ht.emits_bind .here

lemma executes_of_deletes (h : x.Deletes) :
    x.Executes lib (Statement.delete.name x.resource.table 0)
      (deleteSql x.resource ++ updateSql.ownClause x.resource x.restricted 2) := by
  rcases deleteHandler_cases lib h.1 with ⟨hn, -⟩ | ⟨-, id, owner, plan, heq, hsql⟩
  · exact absurd h hn
  obtain ⟨t, ht⟩ := run_runHook (str "hook_bd_" ++ x.resource.table) x.resource.hooks.beforeDelete
    id owner
  have hname : Statement.delete.name x.resource.table 0 = str "del_" ++ x.resource.table := by
    simp [name, numbered, tag]
  refine ⟨plan.types, plan.params, ?_⟩
  rw [heq, hname, ← hsql]
  exact ht.emits_bind .here

def Resource.names (r : Resource) : List Bytes :=
  r.table :: r.primaryKey :: (r.columns ++ r.ownership.toList.map (·.column) ++
    r.softDeleteColumn.toList)

def Resource.PlainNames (r : Resource) : Prop := ∀ name ∈ r.names, comma ∉ name

lemma comma_notMem_placeholder (k : ℕ) : comma ∉ placeholder k := by
  have h : comma ∉ decimal k := fun h => absurd (digit_of_mem_decimal h).1 (by decide)
  simpa [placeholder, str, comma] using h

lemma assignments_injective (k : ℕ) : Function.Injective (assignments k) := by
  intro cols cols' h
  have hlen : cols.length = cols'.length := by simpa [assignments] using congrArg List.length h
  refine ext_getElem hlen fun i hi hi' => ?_
  have hi2 : i < (assignments k cols).length := by simpa [assignments] using hi
  have h' := getElem_of_eq h hi2
  simpa [assignments] using h'

section

variable (hr : r.PlainNames)
include hr

lemma comma_notMem_assignments {cols : List Bytes}
    (hc : cols ⊆ r.columns) (k : ℕ) : ∀ a ∈ assignments k cols, comma ∉ a := by
  intro a ha
  obtain ⟨i, hi, rfl⟩ := mem_mapIdx.1 ha
  have hcol : comma ∉ cols[i] := hr _ (by
    have := hc (getElem_mem hi)
    simp [names, this])
  have heq : comma ∉ str "=" := by decide
  simp only [mem_append, not_or]
  exact ⟨⟨hcol, heq⟩, comma_notMem_placeholder _⟩

lemma comma_notMem_qcol {col : Bytes} (hc : comma ∉ col) : comma ∉ r.qcol col := by
  have ht : comma ∉ r.table := hr _ (by simp [names])
  have hdot : comma ∉ str "." := by decide
  simp only [qcol, mem_append, not_or]
  exact ⟨⟨ht, hdot⟩, hc⟩

lemma comma_notMem_ownClause (restricted : Bool) (k : ℕ) :
    comma ∉ updateSql.ownClause r restricted k := by
  unfold updateSql.ownClause
  split_ifs
  · cases hown : r.ownership with
    | none => simp
    | some own =>
      have hcol := comma_notMem_qcol hr (hr own.column (by simp [names, hown]))
      have hand : comma ∉ str " AND " := by decide
      have heq : comma ∉ str " = " := by decide
      simp only [Option.elim, mem_append, not_or]
      exact ⟨⟨⟨hand, hcol⟩, heq⟩, comma_notMem_placeholder k⟩
  · simp

lemma comma_notMem_notDeleted : comma ∉ r.notDeleted := by
  unfold notDeleted
  cases hsd : r.softDeleteColumn with
  | none => simp
  | some col =>
    have hcol := comma_notMem_qcol hr (hr col (by simp [names, hsd]))
    have hand : comma ∉ str " AND " := by decide
    have hnull : comma ∉ str " IS NULL" := by decide
    simp only [Option.elim, mem_append, not_or]
    exact ⟨⟨hand, hcol⟩, hnull⟩

lemma updateSql_inj {b b' : Bool} {cols cols' : List Bytes}
    (hc : cols ⊆ r.columns) (hc' : cols' ⊆ r.columns) (hne : cols ≠ []) (hne' : cols' ≠ [])
    (h : updateSql r b cols = updateSql r b' cols') :
    cols.length = cols'.length ∧ (b = b' → cols = cols') := by
  unfold updateSql at h
  rw [append_assoc, append_assoc _ (commaSeparated (assignments 1 cols'))] at h
  have hcond : ∀ (b : Bool) (n : ℕ), comma ∉ str " WHERE " ++ r.primaryKey ++ str "=" ++
      placeholder (n + 1) ++ updateSql.ownClause r b (n + 2) ++ r.notDeleted := by
    intro b n
    have hpk : comma ∉ r.primaryKey := hr _ (by simp [names])
    have hwhere : comma ∉ str " WHERE " := by decide
    have heq : comma ∉ str "=" := by decide
    simp only [mem_append, not_or]
    exact ⟨⟨⟨⟨⟨hwhere, hpk⟩, heq⟩, comma_notMem_placeholder _⟩, comma_notMem_ownClause hr b _⟩,
      comma_notMem_notDeleted hr⟩
  have hass : ∀ {cols : List Bytes}, cols ≠ [] → assignments 1 cols ≠ [] := by
    intro cols hne
    simpa [assignments] using hne
  obtain ⟨hlen, heq⟩ := Separated.intercalate_append_inj
    (comma_notMem_assignments hr hc 1) (comma_notMem_assignments hr hc' 1)
    (hcond b cols.length) (hcond b' cols'.length) (hass hne) (hass hne')
    (append_cancel_left h)
  have hcols : cols.length = cols'.length := by simpa [assignments] using hlen
  refine ⟨hcols, ?_⟩
  rintro rfl
  exact assignments_injective 1 (heq (by rw [hcols]))

end

lemma setColumns_subset (x : Incoming cfg) : x.setColumns ⊆ x.resource.columns := by
  unfold Incoming.setColumns
  cases JsonBody.parse x.request.body with
  | none => simp
  | some => exact fun col hcol => mem_of_mem_filter hcol

lemma not_consistent_of_updates (hr : x.resource.PlainNames) (hres : x.resource = y.resource)
    (hx : x.Updates) (hy : y.Updates) (hparams : x.updateParams = y.updateParams)
    (hne : x.setColumns ≠ y.setColumns) : ¬ Consistent lib x y := by
  intro hc
  have hex : x.Executes lib _ _ := executes_of_updates hx
  have hey : y.Executes lib _ _ := executes_of_updates hy
  rw [← hparams, ← hres] at hey
  obtain ⟨hlen, heq⟩ := updateSql_inj hr (setColumns_subset x) (hres ▸ setColumns_subset y)
    hx.2.2.1 hy.2.2.1 (hc _ _ _ hex hey)
  refine hne (heq ?_)
  unfold Incoming.updateParams at hparams
  rw [hlen] at hparams
  revert hparams
  cases x.restricted <;> cases y.restricted <;> simp

lemma ownClause_ne_nil (hx : x.restricted) (k : ℕ) :
    updateSql.ownClause x.resource true k ≠ [] := by
  have hown : x.resource.ownership.isSome := (Bool.and_eq_true_iff.1 hx).1
  obtain ⟨own, h⟩ := Option.isSome_iff_exists.1 hown
  simp [updateSql.ownClause, h, str]

lemma not_consistent_of_deletes (hres : x.resource = y.resource) (hx : x.Deletes)
    (hy : y.Deletes) (hne : x.restricted ≠ y.restricted) : ¬ Consistent lib x y := by
  intro hc
  have hex : x.Executes lib _ _ := executes_of_deletes hx
  have hey : y.Executes lib _ _ := executes_of_deletes hy
  rw [← hres] at hey
  have hsql := append_cancel_left (hc _ _ _ hex hey)
  cases hbx : x.restricted <;> cases hby : y.restricted
  · exact hne (hbx.trans hby.symm)
  · rw [hbx, hby] at hsql
    exact ownClause_ne_nil hby 2 (hres ▸ hsql.symm)
  · rw [hbx, hby] at hsql
    exact ownClause_ne_nil hbx 2 hsql
  · exact hne (hbx.trans hby.symm)

end

/-- **Names determine statements unless two requests clash**, provided that no name of the resource
has a comma. -/
theorem consistent_iff_not_clash (cfg : Config) (lib : Platform) (x y : Incoming cfg) :
    (¬ Clash x y → Consistent lib x y) ∧
      (x.resource.PlainNames → Consistent lib x y → ¬ Clash x y) := by
  refine ⟨consistent_of_not_clash, ?_⟩
  rintro hr hc ⟨htable, hclash⟩
  have hres : x.resource = y.resource := eq_of_table_eq x.generated y.generated htable
  rcases hclash with ⟨hx, hy, hparams, hne⟩ | ⟨hx, hy, hne⟩
  · exact not_consistent_of_updates hr hres hx hy hparams hne hc
  · exact not_consistent_of_deletes hres hx hy hne hc

def notes : Resource :=
  { path := str "/notes", table := str "notes", methods := [.PUT],
    columns := [str "id", str "title", str "body"] }

def notesConfig : Config := { resources := [notes] }

def putNote (body : Bytes) : Incoming notesConfig where
  resource := notes
  generated := Config.mem_generated_of_singleton notes {}
  endpoint := .update
  served := rfl
  request :=
    { method := .PUT, path := str "/notes/1", query := [], version := str "HTTP/1.1", headers := [],
      body := body, keepAlive := true, params := [(str "id", str "1")] }

lemma putNote_updates {body : Bytes} (h : (putNote body).setColumns ≠ []) :
    (putNote body).Updates :=
  ⟨rfl, ⟨rfl, by simp [putNote, Request.param, str], nofun⟩, h, fun _ _ => rfl⟩

def setTitle : Bytes := str "\x7b\"title\":\"a\"\x7d"

def setBody : Bytes := str "\x7b\"body\":\"a\"\x7d"

def setBoth : Bytes := str "\x7b\"body\":\"a\",\"title\":\"b\"\x7d"

theorem consistent_setTitle : ¬ Clash (putNote setTitle) (putNote setBoth) ∧
      Consistent ⟨fun _ => []⟩ (putNote setTitle) (putNote setBoth) := by
  have h : ¬ Clash (putNote setTitle) (putNote setBoth) := by
    rintro ⟨-, ⟨-, -, heq, -⟩ | ⟨hx, -⟩⟩
    · exact absurd heq (by decide +kernel)
    · exact absurd hx.1 (by decide)
  exact ⟨h, (consistent_iff_not_clash _ _ _ _).1 h⟩

theorem not_consistent_putNotes :
    notesConfig.Accepted ∧ ¬ Consistent ⟨fun _ => []⟩ (putNote setTitle) (putNote setBody) := by
  have htitle : (putNote setTitle).setColumns = [str "title"] := by decide +kernel
  have hbody : (putNote setBody).setColumns = [str "body"] := by decide +kernel
  refine ⟨by unfold Config.Accepted; decide +kernel, ?_⟩
  refine not_consistent_of_updates ?_ rfl (putNote_updates (by simp [htitle]))
    (putNote_updates (by simp [hbody])) ?_ ?_
  · unfold Resource.PlainNames
    decide +kernel
  · unfold Incoming.updateParams
    rw [htitle, hbody]
    rfl
  · rw [htitle, hbody]
    decide

end SpidoNG.Service
