import SpidoNG.Lib.Placeholders
import SpidoNG.Service.Selects

/-!
# What the texts of queries are made of

The handlers of lists, `/count` and `/stats` put their SQL together while they look at the request.
-/

namespace SpidoNG.Service

open Bytes Pg Prog Placeholders List Option

def Cond.pieces (table : Bytes) : Cond → List Piece
  | .eq col k => [.text (table ++ str "." ++ col ++ str " = "), .mark k]
  | .key col k => [.text (col ++ str "="), .mark k]
  | .isNull col => [.text (table ++ str "." ++ col ++ str " IS NULL")]
  | .compare col op k =>
    if op = .in ∨ op = .notIn then
      [.text (table ++ str "." ++ col ++ str " " ++ op.sql ++ str "("), .mark k,
        .text (str "::text[])")]
    else [.text (table ++ str "." ++ col ++ str " " ++ op.sql ++ str " "), .mark k]
  | .test col op => [.text (table ++ str "." ++ col ++ str " " ++ op.sql)]
  | .after col k => [.text (table ++ str "." ++ col ++ str " > "), .mark k]

def Cond.numbers : Cond → List ℕ
  | .eq _ k | .key _ k | .compare _ _ k | .after _ k => [k]
  | .isNull _ | .test _ _ => []

def wherePieces (table : Bytes) : List Cond → List Piece
  | [] => []
  | c :: cs => .text (str " WHERE ") ::
    (c.pieces table ++ cs.flatMap fun c => .text (str " AND ") :: c.pieces table)

def Select.pieces (q : Select) : List Piece :=
  .text (str "SELECT " ++ q.projection ++ str " FROM " ++ q.table ++
      q.joins.flatMap (Join.render q.table)) :: (wherePieces q.table q.conds ++
    .text (clause (str " ") q.groupBy ++ clause (str " ORDER BY ") q.orderBy) ::
      ((q.limit.elim [] fun k => [.text (str " LIMIT "), .mark k]) ++
        q.offset.elim [] fun k => [.text (str " OFFSET "), .mark k]))

lemma Cond.render_pieces (table : Bytes) (c : Cond) :
    Placeholders.render (c.pieces table) = c.render table := by
  cases c with
  | compare _ op =>
    by_cases hop : op = .in ∨ op = .notIn <;>
      simp [Cond.pieces, Cond.render, hop, Piece.render, placeholder, append_assoc]
  | _ => simp [Cond.pieces, Cond.render, Piece.render, placeholder, append_assoc]

lemma Cond.marks_pieces (table : Bytes) (c : Cond) : marks (c.pieces table) = c.numbers := by
  cases c with
  | compare _ op =>
    by_cases hop : op = .in ∨ op = .notIn <;> simp [Cond.pieces, Cond.numbers, hop]
  | _ => rfl

lemma render_wherePieces (table : Bytes) (conds : List Cond) :
    Placeholders.render (wherePieces table conds) = renderWhere table conds := by
  cases conds with
  | nil => rfl
  | cons c cs =>
    have hrest : Placeholders.render (cs.flatMap fun c => .text (str " AND ") :: c.pieces table) =
        (cs.map (Cond.render table)).flatMap (str " AND " ++ ·) := by
      induction cs with
      | nil => rfl
      | cons _ _ ih =>
        simp only [flatMap_cons, map_cons, render_append, render_cons, Cond.render_pieces, ih]
        rfl
    have hjoin : ∀ (x : Bytes) (xs : List Bytes),
        intercalate (str " AND ") (x :: xs) = x ++ xs.flatMap (str " AND " ++ ·) := by
      intro x xs
      induction xs generalizing x with
      | nil => simp [intercalate]
      | cons y _ ih =>
        rw [flatMap_cons, append_assoc, ← ih y]
        simp [intercalate]
    simp only [wherePieces, renderWhere, render_cons, render_append, Cond.render_pieces, hrest,
      isEmpty_cons, Bool.false_eq_true, if_false, map_cons, hjoin]
    rfl

lemma marks_wherePieces (table : Bytes) (conds : List Cond) :
    marks (wherePieces table conds) = conds.flatMap Cond.numbers := by
  cases conds with
  | nil => rfl
  | cons c cs =>
    have hrest : marks (cs.flatMap fun c => .text (str " AND ") :: c.pieces table) =
        cs.flatMap Cond.numbers := by
      induction cs with
      | nil => rfl
      | cons _ _ ih =>
        rw [flatMap_cons, flatMap_cons, marks_append, marks_text, Cond.marks_pieces, ih]
    rw [wherePieces, marks_text, marks_append, Cond.marks_pieces, hrest, flatMap_cons]

lemma Select.render_pieces (q : Select) : Placeholders.render q.pieces = q.render := by
  unfold Select.pieces Select.render
  cases q.limit <;> cases q.offset <;>
    simp [render_wherePieces, Piece.render, placeholder, append_assoc]

lemma Select.marks_pieces (q : Select) : marks q.pieces =
    q.conds.flatMap Cond.numbers ++ (q.limit.toList ++ q.offset.toList) := by
  unfold Select.pieces
  rw [marks_text, marks_append, marks_text, marks_append, marks_wherePieces]
  cases q.limit <;> cases q.offset <;> rfl

def Filter.present (query : Bytes) (f : Filter) : Bool :=
  if f.op.takesParam then !(qparam query f.param).isEmpty else qparamHas query f.param

structure ReadShape where
  bypass : Bool
  present : Filter → Bool
  cursor : Bool
  columns : List Bytes
  order : Option (Bytes × Bool)

section

variable (r : Resource)

def fieldChoice (fields : Bytes) : Option (List Bytes) :=
  if r.fieldMasking = false ∨ fields.isEmpty then some r.columns
  else if !(pieces comma fields).isEmpty && (pieces comma fields).all r.columns.contains then
    some (pieces comma fields)
  else none

def sortChoice (sort : Bytes) : Option (Option (Bytes × Bool)) :=
  if r.pagination.mode = .cursor ∨ r.sort.allowed.isEmpty ∨ sort.isEmpty then some none
  else if (r.sort.allowed.map bareSort).contains (bareSort sort) then
    some (some (bareSort sort, sort.head? == some 45))
  else none

def readShape (ep : Endpoint) (bypass : Bool) (present : Filter → Bool) (cursor : Bool)
    (sort fields : Bytes) : Option ReadShape :=
  if ep = .list then do
    let columns ← fieldChoice r fields
    let order ← sortChoice r sort
    pure ⟨bypass, present, cursor, columns, order⟩
  else some ⟨bypass, present, cursor, [], none⟩

def ReadShape.Listed (s : ReadShape) : Prop :=
  s.columns ⊆ r.columns ∧ ∀ c ∈ s.order, c.1 ∈ r.sort.allowed.map bareSort

def ownSlots (bypass : Bool) : List (Slot Cond) :=
  r.ownership.elim [] fun own => if bypass then [] else [.param (.eq own.column)]

def softDeleteSlots : List (Slot Cond) :=
  r.softDeleteColumn.elim [] fun col => [.fixed (.isNull col)]

def filterSlot (f : Filter) : Slot Cond :=
  if f.op.takesParam then .param (.compare f.column f.op) else .fixed (.test f.column f.op)

def whereSlots (s : ReadShape) : List (Slot Cond) :=
  ownSlots r s.bypass ++ softDeleteSlots r ++ (r.filters.filter s.present).map filterSlot

def cursorSlots (s : ReadShape) : List (Slot Cond) :=
  if r.pagination.mode = .cursor ∧ s.cursor then [.param (.after r.primaryKey)] else []

def orderText : Option (Bytes × Bool) → Bytes
  | none =>
    if r.pagination.mode = .cursor then r.qcol r.primaryKey ++ str " ASC" else r.sortDefaultSql
  | some (col, desc) => r.qcol col ++ (if desc then str " DESC" else str " ASC")

def listSql (s : ReadShape) : Select :=
  let slots := whereSlots r s ++ cursorSlots r s
  { projection := Resource.listed (s.columns.map r.qcol) ++ clause (str ", ") r.relationAggs ++
      totalColumn r
    table := r.table
    joins := joins r
    conds := assign 0 slots
    groupBy := r.groupByClause
    orderBy := orderText r s.order
    limit := some (arity slots + 1)
    offset := if r.pagination.mode = .cursor then none else some (arity slots + 2) }

def aggregateSql (projection : Bytes) (s : ReadShape) : Select :=
  { projection, table := r.table, conds := assign 0 (whereSlots r s) }

def sqlOf (s : ReadShape) : Endpoint → Select
  | .list => listSql r s
  | .stats => aggregateSql r (r.aggregations.stats.elim [] r.statsSelect) s
  | _ => aggregateSql r (str "COUNT(*)") s

end

structure Where.Takes (w : Where) (ss : List (Slot Cond)) : Prop where
  conds : w.conds = assign 0 ss
  params : w.params.length = arity ss

namespace Where.Takes

variable {w : Where} {ss : List (Slot Cond)}

lemma empty : ({} : Where).Takes [] := ⟨rfl, rfl⟩

variable (h : w.Takes ss)
include h

lemma add (c : Cond) : (w.add c).Takes (ss ++ [.fixed c]) where
  conds := by
    rw [assign_append, ← h.conds]
    rfl
  params := by
    rw [arity_append, ← h.params]
    rfl

lemma push (c : ℕ → Cond) (p : PgParam) : (w.push c p).Takes (ss ++ [.param c]) where
  conds := by
    rw [assign_append, ← h.conds, ← h.params, Nat.zero_add]
    rfl
  params := by
    rw [arity_append, ← h.params]
    simp [Where.push]

lemma applyFilter (query : Bytes) (f : Filter) :
    (applyFilter query w f).Takes (ss ++ ([f].filter (·.present query)).map filterSlot) := by
  unfold Service.applyFilter
  by_cases htakes : f.op.takesParam
  · by_cases hemp : (qparam query f.param).isEmpty
    · simpa [htakes, hemp, Filter.present] using h
    · simpa [htakes, hemp, Filter.present, filterSlot] using h.push _ _
  · by_cases hhas : qparamHas query f.param
    · simpa [htakes, hhas, Filter.present, filterSlot] using h.add _
    · simpa [htakes, hhas, Filter.present] using h

lemma applyFilters (query : Bytes) (fs : List Filter) :
    (fs.foldl (Service.applyFilter query) w).Takes
      (ss ++ (fs.filter (·.present query)).map filterSlot) := by
  induction fs generalizing w ss with
  | nil => simpa using h
  | cons f _ ih =>
    have hrest := ih (h.applyFilter query f)
    rwa [append_assoc, ← map_append, ← filter_append, singleton_append] at hrest

lemma ownWhere {auth : AuthConfig} {r : Resource} {req : Request} {bypass : Bool} {w' : Where}
    (hown : ownWhere auth r req bypass w = some w') : w'.Takes (ss ++ ownSlots r bypass) := by
  unfold Service.ownWhere at hown
  unfold ownSlots
  cases hr : r.ownership with
  | none =>
    simp only [hr, Option.some.injEq] at hown
    simpa [← hown] using h
  | some =>
    cases bypass with
    | true =>
      simp only [hr, if_true, Option.some.injEq] at hown
      simpa [← hown] using h
    | false =>
      simp only [hr, Bool.false_eq_true, if_false] at hown
      split at hown
      · cases hown
      · obtain rfl := Option.some.inj hown
        exact h.push _ _

lemma softDeleteWhere (r : Resource) : (softDeleteWhere r w).Takes (ss ++ softDeleteSlots r) := by
  unfold Service.softDeleteWhere softDeleteSlots
  cases r.softDeleteColumn with
  | none => simpa using h
  | some => exact h.add _

lemma cursorWhere (r : Resource) (req : Request) {s : ReadShape}
    (hs : s.cursor = !(qparam req.query (str "cursor")).isEmpty) :
    (cursorWhere r req w).Takes (ss ++ cursorSlots r s) := by
  unfold Service.cursorWhere cursorSlots
  rw [hs]
  dsimp only
  split_ifs
  · exact h.push _ _
  · simpa using h

end Where.Takes

lemma takes_applyWhere {auth : AuthConfig} {r : Resource} {req : Request} {w : Where}
    {s : ReadShape}
    (hpresent : s.present = Filter.present req.query)
    (h : applyWhere auth r req s.bypass = some w) :
    w.Takes (whereSlots r s) := by
  obtain ⟨w₀, hw₀, rfl⟩ := map_eq_some_iff.1 h
  unfold whereSlots
  rw [hpresent]
  have hown : w₀.Takes (ownSlots r s.bypass) := Where.Takes.empty.ownWhere hw₀
  exact (hown.softDeleteWhere r).applyFilters req.query r.filters

section

variable {r : Resource} {s : ReadShape}

def Numbers : Slot Cond → Prop
  | .fixed c => c.numbers = []
  | .param f => ∀ k, (f k).numbers = [k]

lemma numbers_of_mem {slot : Slot Cond} (h : slot ∈ whereSlots r s ++ cursorSlots r s) :
    Numbers slot := by
  simp only [whereSlots, mem_append] at h
  obtain ((hown | hsoft) | hfilter) | hcursor := h
  · unfold ownSlots at hown
    cases hr : r.ownership with
    | none => simp [hr] at hown
    | some =>
      rw [hr, elim_some] at hown
      split_ifs at hown
      · cases hown
      · rw [mem_singleton.1 hown]
        exact fun k => rfl
  · unfold softDeleteSlots at hsoft
    cases hr : r.softDeleteColumn with
    | none => simp [hr] at hsoft
    | some =>
      rw [hr, elim_some] at hsoft
      rw [mem_singleton.1 hsoft]
      rfl
  · obtain ⟨f, -, rfl⟩ := mem_map.1 hfilter
    unfold filterSlot
    split_ifs
    · exact fun k => rfl
    · rfl
  · unfold cursorSlots at hcursor
    split_ifs at hcursor
    · rw [mem_singleton.1 hcursor]
      exact fun k => rfl
    · cases hcursor

lemma numbers_assign {ss : List (Slot Cond)} (h : ∀ slot ∈ ss, Numbers slot) :
    (assign 0 ss).flatMap Cond.numbers = range' 1 (arity ss) :=
  flatMap_assign (fun _ ha => h _ ha) (fun _ hf => h _ hf) 0

lemma marks_listSql : marks (listSql r s).pieces = range' 1
    (arity (whereSlots r s ++ cursorSlots r s) + if r.pagination.mode = .cursor then 1 else 2) := by
  rw [Select.marks_pieces]
  show (assign 0 (whereSlots r s ++ cursorSlots r s)).flatMap Cond.numbers ++
    ([arity (whereSlots r s ++ cursorSlots r s) + 1] ++
      Option.toList (if r.pagination.mode = .cursor then none
        else some (arity (whereSlots r s ++ cursorSlots r s) + 2))) = _
  rw [numbers_assign fun _ => numbers_of_mem, ← range'_append_1, Nat.add_comm 1]
  split_ifs <;> rfl

lemma marks_aggregateSql (projection : Bytes) :
    marks (aggregateSql r projection s).pieces = range' 1 (arity (whereSlots r s)) := by
  rw [Select.marks_pieces]
  show (assign 0 (whereSlots r s)).flatMap Cond.numbers ++ [] = _
  rw [numbers_assign fun _ h => numbers_of_mem (mem_append_left _ h), append_nil]

end

variable {fields sort : Bytes}

section

variable {r : Resource} {req : Request}

lemma projection_eq_map_fieldChoice : projection r req =
    (fieldChoice r (qparam req.query (str "fields"))).map fun columns =>
      Resource.listed (columns.map r.qcol) ++ clause (str ", ") r.relationAggs := by
  unfold projection fieldChoice
  cases r.fieldMasking with
  | false => simp [Resource.selectListBase]
  | true =>
    simp only [if_true, project, Bool.true_eq_false, false_or]
    split_ifs <;> rfl

lemma orderBy_eq_map_sortChoice : orderBy r req =
    (sortChoice r (qparam req.query (str "sort"))).map (orderText r) := by
  unfold orderBy sortChoice
  by_cases hmode : r.pagination.mode = .cursor
  · simp [hmode, orderText]
  by_cases hall : r.sort.allowed.isEmpty
  · simp [hmode, hall, orderText]
  by_cases hemp : (qparam req.query (str "sort")).isEmpty
  · simp [hmode, hall, hemp, orderText]
  simp only [hmode, hall, hemp, if_false, false_or, Bool.false_eq_true]
  split_ifs <;> simp [orderText, *]

lemma subset_of_fieldChoice {columns : List Bytes}
    (h : fieldChoice r fields = some columns) : columns ⊆ r.columns := by
  unfold fieldChoice at h
  split_ifs at h with hall hkn
  · obtain rfl := Option.some.inj h
    exact List.Subset.refl _
  · obtain rfl := Option.some.inj h
    intro c hc
    simp only [Bool.and_eq_true, List.all_eq_true] at hkn
    exact contains_iff_mem.1 (hkn.2 c hc)

lemma mem_of_sortChoice {order : Option (Bytes × Bool)}
    (h : sortChoice r sort = some order) : ∀ c ∈ order, c.1 ∈ r.sort.allowed.map bareSort := by
  unfold sortChoice at h
  split_ifs at h with hdefault hkn
  · obtain rfl := Option.some.inj h
    exact fun c hc => nomatch hc
  · obtain rfl := Option.some.inj h
    rintro c ⟨⟩
    exact contains_iff_mem.1 hkn

end

def Spaced (s : Bytes) : Prop := ∀ c ∈ s.head?, c = 32

lemma Spaced.apart {s : Bytes} (h : Spaced s) : Apart s := by
  intro c hc
  rw [h c hc]
  decide

lemma spaced_nil : Spaced [] := fun _ hc => nomatch hc

lemma spaced_append {a s : Bytes} (ha : a.head? = some 32) : Spaced (a ++ s) := by
  intro c hc
  rw [head?_append_of_ne_nil _ (by rintro rfl; cases ha), ha] at hc
  exact (Option.some.inj hc).symm

lemma spaced_clause {keyword body s : Bytes} (hkey : keyword.head? = some 32) (hs : Spaced s) :
    Spaced (clause keyword body ++ s) := by
  unfold clause
  split_ifs
  · exact hs
  · rw [append_assoc]
    exact spaced_append hkey

lemma spread_cond (table : Bytes) (c : Cond) : Spread (c.pieces table) := by
  cases c with
  | compare _ op =>
    by_cases hin : op = .in ∨ op = .notIn
    · have hcast : (str "::text[])").head? = some 58 := rfl
      simp only [Cond.pieces, hin, if_true, Spread, render_cons, render_nil, Piece.render,
        append_nil, and_true]
      intro c hc
      rw [hcast] at hc
      cases hc
      decide
    · simp only [Cond.pieces, hin, if_false]
      exact ⟨spaced_nil.apart, trivial⟩
  | isNull | test => trivial
  | _ => exact ⟨spaced_nil.apart, trivial⟩

lemma spread_wherePieces (table : Bytes) (conds : List Cond) :
    Spread (wherePieces table conds) := by
  have hblank : (str " AND ").head? = some 32 := rfl
  cases conds with
  | nil => trivial
  | cons c cs =>
    have hrest : Spread (cs.flatMap fun c => .text (str " AND ") :: c.pieces table) ∧
        Spaced (Placeholders.render (cs.flatMap fun c => .text (str " AND ") ::
        c.pieces table)) := by
      induction cs with
      | nil => exact ⟨trivial, spaced_nil⟩
      | cons c _ ih =>
        rw [flatMap_cons, cons_append, render_cons]
        exact ⟨(spread_cond table c).append ih.1 ih.2.apart, spaced_append hblank⟩
    exact (spread_cond table c).append hrest.1 hrest.2.apart

lemma spread_select (q : Select) : Spread q.pieces := by
  have hblank : (str " ").head? = some 32 ∧ (str " ORDER BY ").head? = some 32 ∧
      (str " LIMIT ").head? = some 32 ∧ (str " OFFSET ").head? = some 32 := by decide +kernel
  have hoff : Spread (q.offset.elim [] fun k => [.text (str " OFFSET "), .mark k]) ∧
      Spaced (Placeholders.render (q.offset.elim [] fun k =>
      [.text (str " OFFSET "), .mark k])) := by
    cases q.offset with
    | none => exact ⟨trivial, spaced_nil⟩
    | some => exact ⟨⟨spaced_nil.apart, trivial⟩, spaced_append hblank.2.2.2⟩
  have hlimit : Spread (q.limit.elim [] fun k => [.text (str " LIMIT "), .mark k]) ∧
      ∀ s, Spaced s → Spaced
        (Placeholders.render (q.limit.elim [] fun k => [.text (str " LIMIT "), .mark k]) ++ s) := by
    cases q.limit with
    | none => exact ⟨trivial, fun s hs => hs⟩
    | some =>
      refine ⟨⟨spaced_nil.apart, trivial⟩, fun s _ => ?_⟩
      show Spaced ((str " LIMIT " ++ _) ++ s)
      rw [append_assoc]
      exact spaced_append hblank.2.2.1
  refine (spread_wherePieces q.table q.conds).append (hlimit.1.append hoff.1 hoff.2.apart) ?_
  rw [render_cons, render_append]
  show Apart ((clause (str " ") q.groupBy ++ clause (str " ORDER BY ") q.orderBy) ++ _)
  rw [append_assoc]
  exact (spaced_clause hblank.1 (spaced_clause hblank.2.1 (hlimit.2 _ hoff.2))).apart

section

variable {lib : Platform} {cfg : Config} {r : Resource} {req : Request} {s : ReadShape}

lemma listSelect_eq {w : Where} (hw : w.Takes (whereSlots r s))
    (hs : s.cursor = !(qparam req.query (str "cursor")).isEmpty) :
    (listSelect r req (Resource.listed (s.columns.map r.qcol) ++ clause (str ", ") r.relationAggs)
      (orderText r s.order) w).1 = listSql r s ∧
    marks (listSql r s).pieces = range' 1 (listSelect r req
      (Resource.listed (s.columns.map r.qcol) ++ clause (str ", ") r.relationAggs)
      (orderText r s.order) w).2.length := by
  have hcursor := hw.cursorWhere r req hs
  rw [marks_listSql]
  unfold listSelect listSql
  dsimp only
  rw [← hcursor.conds, ← hcursor.params]
  split_ifs with hmode
  · exact ⟨rfl, by rw [length_append]; rfl⟩
  · exact ⟨rfl, by rw [length_append]; rfl⟩

def Request.shape (auth : AuthConfig) (r : Resource) (req : Request) (ep : Endpoint) :
    Option ReadShape :=
  readShape r ep (bypassOwn auth (r.perms ep) r.permissions.header req) (Filter.present req.query)
    (!(qparam req.query (str "cursor")).isEmpty) (qparam req.query (str "sort"))
    (qparam req.query (str "fields"))

lemma exists_of_emits_list {op : Op} (hop : (listHandler lib cfg.auth r req).Emits op) :
    ∃ s params, req.shape cfg.auth r .list = some s ∧
      op = .queryCached (listSql r s) params r.cacheTtlS r.table ∧
      marks (listSql r s).pieces = range' 1 params.length := by
  unfold listHandler at hop
  rw [projection_eq_map_fieldChoice, orderBy_eq_map_sortChoice] at hop
  split at hop
  · cases hop
  cases hfields : fieldChoice r (qparam req.query (str "fields")) with
  | none =>
    rw [hfields] at hop
    cases hop
  | some columns =>
  rw [hfields] at hop
  simp only [map_some] at hop
  split at hop
  · cases hop
  next w hw =>
  cases hsort : sortChoice r (qparam req.query (str "sort")) with
  | none =>
    rw [hsort] at hop
    cases hop
  | some order =>
  rw [hsort] at hop
  obtain ⟨s, hshape, hbypass, hpresent, hcursor, rfl, rfl⟩ : ∃ s : ReadShape,
      req.shape cfg.auth r .list = some s ∧
      s.bypass = bypassOwn cfg.auth r.permissions.list r.permissions.header req ∧
      s.present = Filter.present req.query ∧
      s.cursor = !(qparam req.query (str "cursor")).isEmpty ∧ s.columns = columns ∧
      s.order = order := by
    refine ⟨⟨bypassOwn cfg.auth r.permissions.list r.permissions.header req,
      Filter.present req.query, !(qparam req.query (str "cursor")).isEmpty, columns,
      order⟩, ?_, rfl,
      rfl, rfl, rfl, rfl⟩
    simp only [Request.shape, readShape, if_true, hfields, hsort, bind_eq_bind, bind_some]
    rfl
  rw [← hbypass] at hw
  obtain ⟨hselect, hmarks⟩ := listSelect_eq (takes_applyWhere hpresent hw) hcursor
  refine ⟨s, _, hshape, ?_, hmarks⟩
  rw [emits_call_pure_iff.1 hop]
  exact congrArg (Op.queryCached · _ _ _) hselect

lemma exists_of_emits_aggregate {perms : Option Perms} {projection : Bytes}
    {respond : PgResult → Response} {op : Op}
    (hop : (aggregate lib cfg.auth r perms projection req respond).Emits op)
    (hbypass : s.bypass = bypassOwn cfg.auth perms r.permissions.header req)
    (hpresent : s.present = Filter.present req.query) :
    ∃ params, op = .queryCached (aggregateSql r projection s) params r.cacheTtlS r.table ∧
      marks (aggregateSql r projection s).pieces = range' 1 params.length := by
  unfold aggregate at hop
  split at hop
  · cases hop
  · split at hop
    · cases hop
    · next w hw =>
      rw [← hbypass] at hw
      have htakes := takes_applyWhere hpresent hw
      refine ⟨w.params, ?_, ?_⟩
      · rw [emits_call_pure_iff.1 hop]
        unfold aggregateSelect aggregateSql
        rw [htakes.conds]
      · rw [marks_aggregateSql, htakes.params]

variable {ep : Endpoint}

lemma exists_shape (auth : AuthConfig) (r : Resource) (req : Request)
    (hep : ep ≠ .list) : ∃ s : ReadShape,
    req.shape auth r ep = some s ∧ s.bypass = bypassOwn auth (r.perms ep) r.permissions.header req ∧
      s.present = Filter.present req.query := by
  refine ⟨⟨bypassOwn auth (r.perms ep) r.permissions.header req, Filter.present req.query,
    !(qparam req.query (str "cursor")).isEmpty, [], none⟩, ?_, rfl, rfl⟩
  rw [Request.shape, readShape, if_neg hep]

lemma exists_of_emits (hep : ep = .list ∨ ep = .count ∨ ep = .stats) {op : Op}
    (hop : (handler lib cfg r req ep).Emits op) : ∃ s params, req.shape cfg.auth r ep = some s ∧
      op = .queryCached (sqlOf r s ep) params r.cacheTtlS r.table ∧
      marks (sqlOf r s ep).pieces = range' 1 params.length := by
  obtain rfl | rfl | rfl := hep
  · exact exists_of_emits_list hop
  · obtain ⟨s, hshape, hbypass, hpresent⟩ := exists_shape cfg.auth r req
      (show Endpoint.count ≠ .list by decide)
    obtain ⟨params, hparams⟩ := exists_of_emits_aggregate hop hbypass hpresent
    exact ⟨s, params, hshape, hparams⟩
  · have hstats : ∃ stats, r.aggregations.stats = some stats ∧
        (statsHandler lib cfg.auth r stats req).Emits op := by
      have hemits : (handler lib cfg r req .stats).Emits op := hop
      simp only [handler] at hemits
      cases hstats : r.aggregations.stats with
      | none =>
        rw [hstats] at hemits
        cases hemits
      | some stats =>
        rw [hstats] at hemits
        exact ⟨stats, rfl, hemits⟩
    obtain ⟨stats, hstats, hop⟩ := hstats
    obtain ⟨s, hshape, hbypass, hpresent⟩ := exists_shape cfg.auth r req
      (show Endpoint.stats ≠ .list by decide)
    obtain ⟨params, hparams⟩ := exists_of_emits_aggregate hop hbypass hpresent
    refine ⟨s, params, hshape, ?_⟩
    rw [sqlOf, hstats]
    exact hparams

lemma listed_of_readShape {bypass cursor : Bool} {present : Filter → Bool}
    (h : readShape r ep bypass present cursor sort fields = some s) : s.Listed r := by
  unfold readShape at h
  split_ifs at h
  · simp only [bind_eq_bind, bind_eq_some_iff, Option.pure_def, Option.some.injEq] at h
    obtain ⟨columns, hcolumns, order, hord, rfl⟩ := h
    exact ⟨subset_of_fieldChoice hcolumns, mem_of_sortChoice hord⟩
  · obtain rfl := Option.some.inj h
    exact ⟨nil_subset _, fun c hc => nomatch hc⟩

end

/-- **What reaches the text of a query**: fragments of the configuration, chosen by flags, `sort`
and `fields`, and the marks `$1` to `$n`, each once and in this order. -/
theorem sqlText_of_emits (lib : Platform) (cfg : Config) (r : Resource) (req : Request)
    {ep : Endpoint}
    (hep : ep = .list ∨ ep = .count ∨ ep = .stats) {op : Op}
    (hop : (handler lib cfg r req ep).Emits op) : ∃ s params,
      readShape r ep (bypassOwn cfg.auth (r.perms ep) r.permissions.header req)
        (Filter.present req.query) (!(qparam req.query (str "cursor")).isEmpty)
        (qparam req.query (str "sort")) (qparam req.query (str "fields")) = some s ∧
      s.Listed r ∧ op = .queryCached (sqlOf r s ep) params r.cacheTtlS r.table ∧
      (sqlOf r s ep).render = Placeholders.render (sqlOf r s ep).pieces ∧
      marks (sqlOf r s ep).pieces = range' 1 params.length ∧
      ((∀ b, .text b ∈ (sqlOf r s ep).pieces → 36 ∉ b) →
        scan (sqlOf r s ep).render = (range' 1 params.length).map decimal) := by
  obtain ⟨s, params, hshape, hquery, hmarks⟩ := exists_of_emits hep hop
  refine ⟨s, params, hshape, listed_of_readShape hshape, hquery,
    (Select.render_pieces _).symm, hmarks,
    fun hdollar => ?_⟩
  rw [← Select.render_pieces, scan_render (spread_select _) hdollar, hmarks]

def searched : Resource :=
  { path := str "/items", table := str "items", columns := [str "id", str "name"],
    filters := [{ param := str "q", column := str "name", op := .contains }],
    sort := { allowed := [str "name"] } }

def searchedConfig : Config := { resources := [searched] }

def searchItems : Request :=
  { method := .GET, path := str "/items", query := str "q=lamp&sort=-name",
    version := str "HTTP/1.1",
    headers := [], body := [], keepAlive := true, params := [] }

lemma exists_searchItems : ∃ op,
    (handler ⟨fun _ => []⟩ searchedConfig searched searchItems .list).Emits op := by
  have hacc : searchedConfig.Accepted := by
    unfold Config.Accepted
    decide +kernel
  have hsome : (readQuery searchedConfig.auth searched searchItems .list).isSome := by
    decide +kernel
  obtain ⟨⟨Q, params⟩, hQ⟩ := isSome_iff_exists.1 hsome
  have hloaded := hacc.loaded (Config.mem_generated_of_singleton searched {})
  exact ⟨_, (emits_handler_iff hloaded (.inl rfl) _).2 ⟨Q, params, hQ, rfl⟩⟩

theorem sqlText_searchItems : searchedConfig.Accepted ∧ ∃ s params,
    (handler ⟨fun _ => []⟩ searchedConfig searched searchItems .list).Emits
      (.queryCached (sqlOf searched s .list) params searched.cacheTtlS searched.table) ∧
    (sqlOf searched s .list).render = str ("SELECT items.id, items.name FROM items " ++
      "WHERE items.name ILIKE $1 ORDER BY items.name DESC LIMIT $2 OFFSET $3") ∧
    marks (sqlOf searched s .list).pieces = range' 1 params.length := by
  have haccepted : searchedConfig.Accepted := by
    unfold Config.Accepted
    decide +kernel
  refine ⟨haccepted, ?_⟩
  obtain ⟨op, hop⟩ := exists_searchItems
  obtain ⟨s, params, hshape, -, rfl, -, hmarks, -⟩ := sqlText_of_emits ⟨fun _ => []⟩ searchedConfig
    searched searchItems (.inl rfl) hop
  refine ⟨s, params, hop, ?_, hmarks⟩
  have htext : (readShape searched .list false (Filter.present searchItems.query) false
      (str "-name") []).map (fun s => (sqlOf searched s .list).render) =
        some (str ("SELECT items.id, items.name FROM items " ++
          "WHERE items.name ILIKE $1 ORDER BY items.name DESC LIMIT $2 OFFSET $3")) := by
    decide +kernel
  have hsame : (some s).map (fun s => (sqlOf searched s .list).render) = _ :=
    (congrArg _ hshape.symm).trans htext
  exact Option.some.inj hsame

end SpidoNG.Service
