import SpidoNG.Service.Selects

/-!
# Embedded relations

A resource with relations embeds into each row that it returns, for each relation, an array of the
rows that refer to it.
-/

namespace SpidoNG.Service

open Bytes Pg Relational List Option

def Resource.plain (r : Resource) : Resource := { r with relations := [] }

section

variable (B : Backend) (page : Paging) (db : Database) (r : Resource)

def Relation.children (rel : Relation) (row : Row) : List Row :=
  (db rel.table).filter (B.joined ⟨rel.table, rel.fk, r.primaryKey⟩ row)

def ResultRow.Carries (x : ResultRow) (rel : Relation) : Prop :=
  ∃ xs, (.relation rel, .array xs) ∈ x.values ∧
    xs.Perm ((rel.children B db r x.row).map rel.object)

def plainRows (auth : AuthConfig) (req : Request) (ep : Endpoint) : Option (List Row) := do
  let (Q, params) ← readQuery auth r.plain req ep
  let rows ← Q.run B page db params
  pure (rows.map (·.row))

def Embeds (auth : AuthConfig) (req : Request) (ep : Endpoint) (Q : ReadQuery)
    (params : List PgParam) : Prop :=
  ∃ rows, Q.run B page db params = some rows ∧
    plainRows B page db r auth req ep = some (rows.map (·.row)) ∧
    ∀ x ∈ rows, ∀ rel ∈ r.autoRelations, x.Carries B db r rel

end

section

variable (B : Backend) (page : Paging) (db : Database) (r : Resource)

def Untangled (row : Row) : Prop :=
  ∀ rel ∈ r.autoRelations, rel.children B db r row ≠ [] →
    (∀ rel' ∈ r.autoRelations, rel' ≠ rel → (rel'.children B db r row).length ≤ 1) ∧
      ∀ child ∈ rel.children B db r row, rel.kept child = true

instance (row : Row) : Decidable (Untangled B db r row) :=
  inferInstanceAs (Decidable (∀ rel ∈ r.autoRelations, rel.children B db r row ≠ [] →
    (∀ rel' ∈ r.autoRelations, rel' ≠ rel → (rel'.children B db r row).length ≤ 1) ∧
      ∀ child ∈ rel.children B db r row, rel.kept child = true))

/-- No table occurs twice, and the relations of no row are tangled. Where rows come from the
entity cache, there are no relations to embed, or no rows. -/
def Embeddable (auth : AuthConfig) (req : Request) (ep : Endpoint) : Prop :=
  if ep = .get ∧ r.readMode = .ramEntityFirst then
    r.autoRelations = [] ∨ plainRows B page db r auth req ep = some []
  else
    (r.table :: r.autoRelations.map (·.table)).Nodup ∧
      ∀ row ∈ (plainRows B page db r auth req ep).getD [], Untangled B db r row

end

section

variable {auth : AuthConfig} {r : Resource} {req : Request} {ep : Endpoint} {Q : ReadQuery}
  {params : List PgParam}

structure ReadQuery.Without (Q₀ Q : ReadQuery) : Prop where
  table : Q₀.select.table = Q.select.table
  conds : Q₀.select.conds = Q.select.conds
  orderBy : Q₀.select.orderBy = Q.select.orderBy
  limit : Q₀.select.limit = Q.select.limit
  offset : Q₀.select.offset = Q.select.offset
  joins : Q₀.select.joins = []
  groupKey : Q₀.groupKey = none

structure ReadQuery.Joins (r : Resource) (Q : ReadQuery) : Prop where
  table : Q.select.table = r.table
  joins : Q.select.joins = Service.joins r
  groupKey : Q.groupKey = Service.groupKey r
  items : ∀ rel ∈ r.autoRelations, .relation rel ∈ Q.items

lemma isSome_projection_plain {proj : Bytes} (h : projection r req = some proj) :
    ∃ proj₀, projection r.plain req = some proj₀ := by
  obtain ⟨base, hbase, -⟩ := map_eq_some_iff.1 h
  exact ⟨_, map_eq_some_iff.2 ⟨base, hbase, rfl⟩⟩

variable {items : List SelectItem}

lemma isSome_projectionItems_plain (h : projectionItems r req = some items) :
    ∃ items₀, projectionItems r.plain req = some items₀ := by
  obtain ⟨base, hbase, -⟩ := map_eq_some_iff.1 h
  exact ⟨_, map_eq_some_iff.2 ⟨base, hbase, rfl⟩⟩

lemma relation_mem_projectionItems (h : projectionItems r req = some items)
    {rel : Relation} (hrel : rel ∈ r.autoRelations) : .relation rel ∈ items := by
  obtain ⟨base, -, rfl⟩ := map_eq_some_iff.1 h
  exact mem_append_right _ (mem_map_of_mem hrel)

lemma listSelect_joins (proj order : Bytes) (w : Where) :
    (listSelect r req proj order w).1.joins = Service.joins r := by
  unfold listSelect
  split_ifs <;> rfl

lemma listSelect_plain (proj proj₀ order : Bytes) (w : Where) :
    listSelect r.plain req proj₀ order w = ({ (listSelect r req proj order w).1 with
          projection := proj₀ ++ totalColumn r, joins := [], groupBy := [] },
        (listSelect r req proj order w).2) := by
  unfold listSelect
  by_cases hmode : r.pagination.mode = .cursor
  · rw [if_pos hmode, if_pos (show r.plain.pagination.mode = .cursor from hmode)]
    rfl
  · rw [if_neg hmode, if_neg (show ¬ r.plain.pagination.mode = .cursor from hmode)]
    rfl

lemma listRead_spec (h : listRead auth r req = some (Q, params)) : Q.Joins r ∧
    ∃ Q₀, listRead auth r.plain req = some (Q₀, params) ∧ Q₀.Without Q := by
  unfold listRead at h
  split at h
  · cases h
  next hrole =>
  simp only [Option.bind_eq_bind, Option.bind_eq_some_iff, Option.pure_def, Option.some.injEq] at h
  obtain ⟨proj, hproj, items, hitem, w, hw, order, hord, hQ⟩ := h
  obtain ⟨rfl, rfl⟩ := Prod.mk.inj hQ
  obtain ⟨proj₀, hproj₀⟩ := isSome_projection_plain hproj
  obtain ⟨items₀, hitem₀⟩ := isSome_projectionItems_plain hitem
  have hw₀ : applyWhere auth r.plain req
      (bypassOwn auth r.plain.permissions.list r.plain.permissions.header req) = some w := hw
  have hord₀ : orderBy r.plain req = some order := hord
  have hrole₀ : ¬ (!roleCheck auth r.plain.permissions.list r.plain.permissions.header req) :=
    hrole
  refine ⟨⟨listSelect_table _ _ _, listSelect_joins _ _ _, rfl, fun rel hrel =>
    mem_append_left _ (relation_mem_projectionItems hitem hrel)⟩, ?_⟩
  refine ⟨⟨items₀ ++ totalItem r, str ", ", none, { (listSelect r req proj order w).1 with
    projection := proj₀ ++ totalColumn r, joins := [], groupBy := [] }⟩, ?_, ?_⟩
  · unfold listRead
    rw [if_neg hrole₀, hproj₀, hitem₀, hw₀, hord₀]
    simp only [Option.bind_eq_bind, bind_some, listSelect_plain proj proj₀ order w]
    rfl
  · exact ⟨rfl, rfl, rfl, rfl, rfl, rfl, rfl⟩

lemma getRead_spec (h : getRead auth r req = some (Q, params)) :
    (r.readMode = .ramEntityFirst ∧ getRead auth r.plain req = some (Q, params) ∧
      Q.select.joins = [] ∧ Q.groupKey = none ∧ ∀ rel, .relation rel ∉ Q.items) ∨
    r.readMode ≠ .ramEntityFirst ∧ Q.Joins r ∧
      ∃ Q₀, getRead auth r.plain req = some (Q₀, params) ∧ Q₀.Without Q := by
  unfold getRead at h
  dsimp only at h
  split at h
  · cases h
  next hrole =>
  split at h
  · cases h
  next hid =>
  rw [Option.bind_eq_bind, Option.bind_eq_some_iff] at h
  obtain ⟨w, hw, h⟩ := h
  have hrole₀ : ¬ (!roleCheck auth r.plain.permissions.get r.plain.permissions.header req) :=
    hrole
  have hw₀ : ownWhere auth r.plain req
      (bypassOwn auth r.plain.permissions.get r.plain.permissions.header req)
      ({ : Where }.push (.eq r.plain.primaryKey) (pkParam (req.param (str "id")))) = some w := hw
  split at h
  · next hmode =>
    have hmode₀ : r.plain.readMode = .ramEntityFirst := hmode
    obtain ⟨rfl, rfl⟩ := Prod.mk.inj (some.inj h)
    refine .inl ⟨hmode, ?_, rfl, rfl, by simp⟩
    unfold getRead
    dsimp only
    rw [if_neg hrole₀, if_neg hid, hw₀, Option.bind_eq_bind, bind_some, if_pos hmode₀]
    rfl
  · next hmode =>
    have hmode₀ : ¬ r.plain.readMode = .ramEntityFirst := hmode
    simp only [Option.bind_eq_bind, Option.bind_eq_some_iff, Option.pure_def,
      Option.some.injEq] at h
    obtain ⟨proj, hproj, items, hitem, hQ⟩ := h
    obtain ⟨rfl, rfl⟩ := Prod.mk.inj hQ
    obtain ⟨items₀, hitem₀⟩ := isSome_projectionItems_plain hitem
    obtain ⟨proj₀, hproj₀⟩ : ∃ proj₀, rowProjection r.plain req = some proj₀ := by
      unfold rowProjection at hproj ⊢
      split at hproj
      · next hmask =>
        rw [if_pos (show r.plain.fieldMasking from hmask)]
        exact isSome_projection_plain hproj
      · next hmask =>
        rw [if_neg (show ¬ r.plain.fieldMasking from hmask)]
        exact ⟨_, rfl⟩
    refine .inr ⟨hmode, ⟨rfl, rfl, rfl, fun rel hrel => relation_mem_projectionItems hitem hrel⟩, ?_⟩
    refine ⟨⟨items₀, str ", ", none, rowSelect r.plain proj₀ (softDeleteWhere r w)⟩, ?_, ?_⟩
    · unfold getRead
      dsimp only
      rw [if_neg hrole₀, if_neg hid, hw₀, Option.bind_eq_bind, bind_some, if_neg hmode₀, hproj₀,
        hitem₀]
      rfl
    · exact ⟨rfl, rfl, rfl, rfl, rfl, rfl, rfl⟩

end

namespace ReadQuery

section

variable (B : Backend) (page : Paging) (db : Database) (Q : ReadQuery) (params : List PgParam)

def joinedWith (row : Row) : List JoinedRow :=
  (choices (Q.select.joins.map fun j => padded ((db j.table).filter (B.joined j row)))).map
    fun cs => (row, cs)

def resultOf (n : ℕ) (row : Row) : ResultRow :=
  ⟨row, Q.items.map fun item => (item, item.value Q.tables n row (Q.joinedWith B db row))⟩

def Grouped : Prop :=
  match Q.groupKey with
  | none => Q.select.joins = []
  | some key => ((db Q.select.table).map (· key)).Nodup

end

variable {B : Backend} {page : Paging} {db : Database} {Q Q₀ : ReadQuery} {params : List PgParam}

lemma joinedWith_ne_nil (row : Row) : Q.joinedWith B db row ≠ [] := by
  intro h
  have hlen := congrArg List.length h
  simp only [joinedWith, length_map, length_choices, length_nil] at hlen
  obtain ⟨l, hl, hzero⟩ := mem_map.1 (prod_eq_zero_iff.1 hlen)
  obtain ⟨j, -, rfl⟩ := mem_map.1 hl
  rw [length_padded] at hzero
  omega

lemma matching_eq : Q.matching B db params =
    (B.selected db Q.select params).flatMap (Q.joinedWith B db) := by
  unfold matching
  rw [filter_leftJoins _ _ fun row => Q.select.conds.all (B.holds Q.select.table params row),
    leftJoins_eq]
  simp only [List.map_map, Function.comp_def]
  rfl

lemma groups_eq (hQ : Q.Grouped db) : Q.groups B db params =
    (B.selected db Q.select params).map (Q.joinedWith B db) := by
  unfold groups
  unfold Grouped at hQ
  rw [matching_eq]
  cases hkey : Q.groupKey with
  | none =>
    rw [hkey] at hQ
    have hsingle : Q.joinedWith B db = fun row => [(row, [])] := by
      funext row
      simp only [joinedWith, show Q.select.joins = [] from hQ]
      rfl
    simp only [hsingle]
    rw [← List.map_eq_flatMap, List.map_map]
    rfl
  | some key =>
    rw [hkey] at hQ
    refine groupBy_flatMap (k := fun row : Row => row key) ?_ (fun row _ =>
      joinedWith_ne_nil row) ?_
    · exact List.Nodup.sublist (filter_sublist.map _) hQ
    · intro row _ x hx
      obtain ⟨cs, -, rfl⟩ := mem_map.1 hx
      rfl

lemma resultRows_eq (hQ : Q.Grouped db) : Q.resultRows B db params =
    (B.selected db Q.select params).map
      (Q.resultOf B db (B.selected db Q.select params).length) := by
  unfold resultRows
  dsimp only
  rw [groups_eq hQ, length_map, filterMap_map]
  rw [← filterMap_eq_map']
  refine filterMap_congr fun row _ => ?_
  have hhead : ∃ cs, (Q.joinedWith B db row).head? = some (row, cs) := by
    have hne : Q.joinedWith B db row ≠ [] := joinedWith_ne_nil row
    obtain ⟨x, xs, hx⟩ := exists_cons_of_ne_nil hne
    obtain ⟨cs, -, rfl⟩ := mem_map.1 (show x ∈ Q.joinedWith B db row by rw [hx]; simp)
    exact ⟨cs, by rw [hx]; rfl⟩
  obtain ⟨cs, hcs⟩ := hhead
  simp [resultRow, resultOf, hcs]

lemma map_row_paged (rows : List ResultRow) : (Q.paged page params rows).map (·.row) =
    (page Q.select.orderBy (argument params Q.select.limit) (argument params Q.select.offset)
      (rows.map (·.row))).filterMap fun i => (rows.map (·.row))[i]? := by
  unfold paged
  rw [map_filterMap]
  simp only [getElem?_map]

lemma mem_of_mem_paged {rows : List ResultRow} {x : ResultRow} (h : x ∈ Q.paged page params rows) :
    x ∈ rows := by
  obtain ⟨i, -, hi⟩ := mem_filterMap.1 h
  exact mem_of_getElem? hi

lemma map_row_resultRows (hQ : Q.Grouped db) :
    (Q.resultRows B db params).map (·.row) = B.selected db Q.select params := by
  rw [resultRows_eq hQ, List.map_map]
  exact List.map_id' _

lemma Without.map_row_paged (h : Q₀.Without Q) (hQ : Q.Grouped db) :
    (Q₀.paged page params (Q₀.resultRows B db params)).map (·.row) =
      (Q.paged page params (Q.resultRows B db params)).map (·.row) := by
  have hQ₀ : Q₀.Grouped db := by
    unfold Grouped
    rw [h.groupKey]
    exact h.joins
  have hselected : B.selected db Q₀.select params = B.selected db Q.select params := by
    unfold Backend.selected
    rw [h.table, h.conds]
  rw [ReadQuery.map_row_paged, ReadQuery.map_row_paged, map_row_resultRows hQ,
    map_row_resultRows hQ₀, hselected, h.orderBy, h.limit, h.offset]

end ReadQuery

section

variable {B : Backend} {db : Database} {r : Resource} {Q : ReadQuery} {rel : Relation} {i : ℕ}

def copies (B : Backend) (db : Database) (r : Resource) (i : ℕ) (row : Row) : ℕ :=
  ((r.autoRelations.eraseIdx i).map fun rel => max 1 (rel.children B db r row).length).prod

lemma ReadQuery.Joins.tables (hQ : Q.Joins r) : Q.tables = r.autoRelations.map (·.table) := by
  unfold ReadQuery.tables
  rw [hQ.joins, Service.joins, List.map_map]
  rfl

section

variable (hnodup : (r.autoRelations.map (·.table)).Nodup) (hrel : r.autoRelations[i]? = some rel)
include hnodup hrel

lemma idxOf_table : (r.autoRelations.map (·.table)).idxOf rel.table = i := by
  obtain ⟨hi, hget⟩ := List.getElem?_eq_some_iff.1 hrel
  have hidx := hnodup.idxOf_getElem i (by simpa using hi)
  rwa [List.getElem_map, hget] at hidx

omit hnodup hrel in
lemma countP_collect (hQ : Q.Joins r) (hnodup : (r.autoRelations.map (·.table)).Nodup)
    (hrel : r.autoRelations[i]? = some rel) (row : Row) (p : JsonObject → Bool) :
    (rel.collect Q.tables (Q.joinedWith B db row)).countP p = copies B db r i row *
        (rel.children B db r row).countP fun child => rel.kept child && p (rel.object child) := by
  have hlists : (Q.select.joins.map fun j => padded ((db j.table).filter (B.joined j row))) =
      r.autoRelations.map fun rel => padded (rel.children B db r row) := by
    rw [hQ.joins, Service.joins, List.map_map]
    rfl
  have hget : (r.autoRelations.map fun rel => padded (rel.children B db r row))[i]? =
      some (padded (rel.children B db r row)) := by
    rw [getElem?_map, hrel]
    rfl
  have hcount := countP_choices _ hget fun y => y.any fun child => rel.kept child &&
    p (rel.object child)
  rw [countP_padded, List.eraseIdx_map, List.map_map] at hcount
  have hcopies : (List.map (List.length ∘ fun rel => padded (rel.children B db r row))
      (r.autoRelations.eraseIdx i)).prod = copies B db r i row := by
    simp only [copies, Function.comp_def, length_padded]
  rw [hcopies] at hcount
  rw [← hcount]
  unfold Relation.collect ReadQuery.joinedWith
  rw [hlists, countP_filterMap, countP_map]
  congr 1
  funext cs
  simp only [Function.comp_apply, Relation.partner, hQ.tables, idxOf_table hnodup hrel]
  rcases cs[i]? with _ | _ | child
  · rfl
  · rfl
  · cases hkept : rel.kept child <;> simp [Option.filter, hkept]

lemma mem_eraseIdx_iff (rel' : Relation) :
    rel' ∈ r.autoRelations.eraseIdx i ↔ rel' ∈ r.autoRelations ∧ rel' ≠ rel := by
  rw [mem_eraseIdx_iff_getElem?]
  constructor
  · rintro ⟨k, hk, hrel'⟩
    refine ⟨mem_of_getElem? hrel', ?_⟩
    rintro rfl
    exact hk ((idxOf_table hnodup hrel').symm.trans (idxOf_table hnodup hrel))
  · rintro ⟨hmem, hne⟩
    obtain ⟨k, hk⟩ := mem_iff_getElem?.1 hmem
    refine ⟨k, ?_, hk⟩
    rintro rfl
    exact hne (some.inj (hk.symm.trans hrel))

lemma copies_eq_one_iff (row : Row) : copies B db r i row = 1 ↔
      ∀ rel' ∈ r.autoRelations, rel' ≠ rel → (rel'.children B db r row).length ≤ 1 := by
  unfold copies
  constructor
  · intro h rel' hmem hne
    have hdivides := dvd_prod (mem_map_of_mem (f := fun rel : Relation =>
      max 1 (rel.children B db r row).length) ((mem_eraseIdx_iff hnodup hrel rel').2 ⟨hmem, hne⟩))
    rw [h, Nat.dvd_one] at hdivides
    omega
  · intro h
    refine prod_eq_one fun n hn => ?_
    obtain ⟨rel', hrel', rfl⟩ := mem_map.1 hn
    obtain ⟨hmem, hne⟩ := (mem_eraseIdx_iff hnodup hrel rel').1 hrel'
    have hle := h rel' hmem hne
    omega

end

lemma kept_eq_of_object_eq (hcolumns : rel.columns ≠ []) {child child' : Row}
    (h : rel.object child = rel.object child') : rel.kept child = rel.kept child' := by
  obtain ⟨c, cs, hc⟩ := exists_cons_of_ne_nil hcolumns
  have hval : child c = child' c := by
    unfold Relation.object at h
    rw [hc, map_cons, map_cons] at h
    exact (Prod.mk.inj (List.cons.inj h).1).2
  simp [Relation.kept, hc, hval]

lemma collect_perm_iff (hQ : Q.Joins r) (hnodup : (r.autoRelations.map (·.table)).Nodup)
    (hrel : r.autoRelations[i]? = some rel) (hcolumns : rel.columns ≠ []) (row : Row) :
    (rel.collect Q.tables (Q.joinedWith B db row)).Perm ((rel.children B db r row).map rel.object) ↔
      (rel.children B db r row ≠ [] → copies B db r i row = 1 ∧
        ∀ child ∈ rel.children B db r row, rel.kept child) := by
  constructor
  · intro hperm hne
    have hkept : ∀ child ∈ rel.children B db r row, rel.kept child := by
      intro child hchild
      by_contra hnot
      -- the array has no element that looks like this row
      have hcount := hperm.countP_eq fun o => o == rel.object child
      have hzero : ((rel.children B db r row).countP fun child' =>
          rel.kept child' && rel.object child' == rel.object child) = 0 := by
        rw [countP_eq_zero]
        intro child' _ h
        rw [Bool.and_eq_true, beq_iff_eq] at h
        exact hnot ((kept_eq_of_object_eq hcolumns h.2).symm.trans h.1)
      rw [countP_collect hQ hnodup hrel row, hzero, Nat.mul_zero, eq_comm, countP_eq_zero]
        at hcount
      exact hcount _ (mem_map_of_mem hchild) (by simp)
    refine ⟨?_, hkept⟩
    have hlen := hperm.countP_eq fun _ => true
    rw [countP_collect hQ hnodup hrel row, countP_true, length_map,
      countP_eq_length.2 fun child hchild => by simp [hkept child hchild]] at hlen
    have hpos := length_pos_of_ne_nil hne
    exact Nat.eq_of_mul_eq_mul_right hpos (by omega)
  · intro h
    rw [perm_iff_count]
    intro o
    rw [count_eq_countP, count_eq_countP, countP_collect hQ hnodup hrel row, countP_map]
    by_cases hne : rel.children B db r row = []
    · rw [hne]
      rfl
    obtain ⟨hone, hkept⟩ := h hne
    rw [hone, Nat.one_mul]
    refine countP_congr fun child hchild => ?_
    simp [hkept child hchild]

end

variable {auth : AuthConfig}

section

variable {B : Backend} {page : Paging} {db : Database} {cfg : Config} {r : Resource} {req : Request}
  {ep : Endpoint} {Q Q₀ : ReadQuery} {params : List PgParam}

lemma carries_resultOf_iff (hQ : Q.Joins r) {rel : Relation} (hrel : rel ∈ r.autoRelations) (n : ℕ)
    (row : Row) : (Q.resultOf B db n row).Carries B db r rel ↔
      (rel.collect Q.tables (Q.joinedWith B db row)).Perm
        ((rel.children B db r row).map rel.object) := by
  constructor
  · rintro ⟨xs, hxs, hperm⟩
    obtain ⟨item, -, hitem⟩ := mem_map.1 hxs
    obtain ⟨rfl, harr⟩ := Prod.mk.inj hitem
    cases harr
    exact hperm
  · intro hperm
    exact ⟨_, mem_map.2 ⟨_, hQ.items rel hrel, rfl⟩, hperm⟩

lemma untangled_iff (hr : r.Loaded) (hQ : Q.Joins r)
    (hnodup : (r.autoRelations.map (·.table)).Nodup) (n : ℕ) (row : Row) :
    (∀ rel ∈ r.autoRelations, (Q.resultOf B db n row).Carries B db r rel)
      ↔ Untangled B db r row := by
  refine forall₂_congr fun rel hrel => ?_
  obtain ⟨i, hi⟩ := mem_iff_getElem?.1 hrel
  have hcolumns : rel.columns ≠ [] := hr.relations rel (mem_filter.1 hrel).1
  rw [carries_resultOf_iff hQ hrel, collect_perm_iff hQ hnodup hi hcolumns,
    copies_eq_one_iff hnodup hi]

lemma grouped_of_joins (hQ : Q.Joins r) (hkey : ((db r.table).map (· r.primaryKey)).Nodup) :
    Q.Grouped db := by
  unfold ReadQuery.Grouped
  rw [hQ.groupKey, groupKey]
  by_cases hemp : r.relations.isEmpty
  · rw [if_pos hemp]
    simp [hQ.joins, joins, Resource.autoRelations, isEmpty_iff.1 hemp]
  · rw [if_neg hemp, hQ.table]
    exact hkey

lemma plainRows_eq (hread : readQuery auth r.plain req ep = some (Q₀, params))
    (hjoins : Q₀.select.joins = []) : plainRows B page db r auth req ep =
      some ((Q₀.paged page params (Q₀.resultRows B db params)).map (·.row)) := by
  have hrun : Q₀.run B page db params
    = some (Q₀.paged page params (Q₀.resultRows B db params)) := by
    unfold ReadQuery.run
    rw [if_pos (by simp [ReadQuery.tables, hjoins])]
  unfold plainRows
  rw [hread]
  simp only [Option.bind_eq_bind, bind_some, hrun]
  rfl

lemma embeds_iff_of_joins (hr : r.Loaded) (hQ : Q.Joins r)
    (hkey : ((db r.table).map (· r.primaryKey)).Nodup)
    (hread : readQuery auth r.plain req ep = some (Q₀, params)) (hQ₀ : Q₀.Without Q) :
    Embeds B page db r auth req ep Q params ↔ (r.table :: r.autoRelations.map (·.table)).Nodup ∧
        ∀ row ∈ (plainRows B page db r auth req ep).getD [], Untangled B db r row := by
  have hgrouped : Q.Grouped db := grouped_of_joins hQ hkey
  have hplain : plainRows B page db r auth req ep = _ := plainRows_eq hread hQ₀.joins
  rw [hQ₀.map_row_paged hgrouped] at hplain
  -- each returned row is the one made of its row of the table
  have hrow : ∀ x ∈ Q.paged page params (Q.resultRows B db params),
      x = Q.resultOf B db (B.selected db Q.select params).length x.row := by
    intro x hx
    have hmem := ReadQuery.mem_of_mem_paged hx
    rw [ReadQuery.resultRows_eq hgrouped] at hmem
    obtain ⟨row, -, rfl⟩ := mem_map.1 hmem
    rfl
  unfold Embeds ReadQuery.run
  rw [hQ.table, hQ.tables, hplain, getD_some]
  by_cases hnodup : (r.table :: r.autoRelations.map (·.table)).Nodup
  · rw [if_pos hnodup]
    have hcorrect : ∀ x ∈ Q.paged page params (Q.resultRows B db params),
        (∀ rel ∈ r.autoRelations, x.Carries B db r rel) ↔ Untangled B db r x.row := by
      intro x hx
      have hiff : (∀ rel ∈ r.autoRelations, (Q.resultOf B db (B.selected db Q.select params).length
          x.row).Carries B db r rel) ↔ Untangled B db r x.row :=
        untangled_iff hr hQ (nodup_cons.1 hnodup).2 _ _
      rwa [← hrow x hx] at hiff
    constructor
    · rintro ⟨rows, hrows, -, hall⟩
      cases hrows
      refine ⟨hnodup, fun row hmem => ?_⟩
      obtain ⟨x, hx, rfl⟩ := mem_map.1 hmem
      exact (hcorrect x hx).1 (hall x hx)
    · rintro ⟨-, hall⟩
      refine ⟨_, rfl, rfl, fun x hx => ?_⟩
      exact (hcorrect x hx).2 (hall x.row (mem_map_of_mem hx))
  · rw [if_neg hnodup]
    constructor
    · rintro ⟨rows, hrows, -⟩
      cases hrows
    · exact fun h => absurd h.1 hnodup

lemma embeds_iff_of_bare (hjoins : Q.select.joins = [])
    (hitm : ∀ rel, .relation rel ∉ Q.items) (hkey : Q.groupKey = none)
    (hread : readQuery auth r.plain req ep = some (Q, params)) :
    Embeds B page db r auth req ep Q params ↔
      r.autoRelations = [] ∨ plainRows B page db r auth req ep = some [] := by
  have hplain : plainRows B page db r auth req ep = _ := plainRows_eq hread hjoins
  have hrun : Q.run B page db params = some (Q.paged page params (Q.resultRows B db params)) := by
    unfold ReadQuery.run
    rw [if_pos (by simp [ReadQuery.tables, hjoins])]
  have hnone : ∀ x ∈ Q.resultRows B db params, ∀ rel, ¬ x.Carries B db r rel := by
    rintro x hx rel ⟨xs, hxs, -⟩
    rw [ReadQuery.resultRows_eq (by unfold ReadQuery.Grouped; rw [hkey]; exact hjoins)] at hx
    obtain ⟨row, -, rfl⟩ := mem_map.1 hx
    obtain ⟨item, hitem, heq⟩ := mem_map.1 hxs
    obtain ⟨rfl, -⟩ := Prod.mk.inj heq
    exact hitm rel hitem
  unfold Embeds
  rw [hrun, hplain]
  constructor
  · rintro ⟨rows, hrows, -, hall⟩
    cases hrows
    by_contra hnot
    rw [not_or, Option.some.injEq, map_eq_nil_iff] at hnot
    obtain ⟨rel, hrel⟩ := exists_mem_of_ne_nil _ hnot.1
    obtain ⟨x, hx⟩ := exists_mem_of_ne_nil _ hnot.2
    exact hnone x (ReadQuery.mem_of_mem_paged hx) rel (hall x hx rel hrel)
  · rintro (hemp | hemp)
    · exact ⟨_, rfl, rfl, by simp [hemp]⟩
    · rw [Option.some.injEq, map_eq_nil_iff] at hemp
      exact ⟨_, rfl, rfl, by simp [hemp]⟩

end

lemma embeds_iff_of_readQuery {B : Backend} {page : Paging} {db : Database}
    {r : Resource} {req : Request} {ep : Endpoint} {Q : ReadQuery} {params : List PgParam}
    (hr : r.Loaded) (hkey : ((db r.table).map (· r.primaryKey)).Nodup)
    (hep : ep = .list ∨ ep = .get) (hread : readQuery auth r req ep = some (Q, params)) :
    Embeds B page db r auth req ep Q params ↔ Embeddable B page db r auth req ep := by
  unfold Embeddable
  obtain rfl | rfl := hep
  · obtain ⟨hQ, Q₀, hread₀, hQ₀⟩ := listRead_spec hread
    rw [if_neg (by simp)]
    exact embeds_iff_of_joins hr hQ hkey hread₀ hQ₀
  · obtain ⟨hmode, hread₀, hjoins, hgrouped, hitem⟩ | ⟨hmode, hQ, Q₀, hread₀, hQ₀⟩ :=
      getRead_spec hread
    · rw [if_pos ⟨rfl, hmode⟩]
      exact embeds_iff_of_bare hjoins hitem hgrouped hread₀
    · rw [if_neg (by simp [hmode])]
      exact embeds_iff_of_joins hr hQ hkey hread₀ hQ₀

/-- **Embedded relations** are right if and only if no table occurs twice and the relations of no
row are tangled. -/
theorem embeds_iff (lib : Platform) {cfg : Config} (hcfg : cfg.Accepted) {r : Resource}
    (hr : r ∈ cfg.generated) (B : Backend) (page : Paging) (db : Database)
    (hkey : ((db r.table).map (· r.primaryKey)).Nodup) (req : Request) {ep : Endpoint}
    (hep : ep = .list ∨ ep = .get) {op : Op} (hop : (handler lib cfg r req ep).Emits op) :
    ∃ Q params, readQuery cfg.auth r req ep = some (Q, params) ∧
      op = readOp cfg r req ep Q params ∧ Q.Written ∧
      (Embeds B page db r cfg.auth req ep Q params ↔ Embeddable B page db r cfg.auth req ep) := by
  have hloaded := hcfg.loaded hr
  obtain ⟨Q, params, hread, hop⟩ := (emits_handler_iff hloaded hep op).1 hop
  exact ⟨Q, params, hread, hop, written_readQuery hloaded hread,
    embeds_iff_of_readQuery hloaded hkey hep hread⟩

def authors : Resource :=
  { path := str "/users", table := str "users", columns := [str "id", str "name"],
    relations := [
      { name := str "posts", table := str "posts", fk := str "user_id",
        columns := [str "id", str "title"] },
      { name := str "comments", table := str "comments", fk := str "user_id",
        columns := [str "id"] }] }

def authorsConfig : Config := { resources := [authors] }

def listAuthors : Request :=
  { method := .GET, path := str "/users", query := [], version := str "HTTP/1.1",
    headers := [], body := [], keepAlive := true, params := [] }

def rowWith (values : List (Bytes × Bytes)) : Row := fun col => values.lookup col

def textEquality : Backend where
  sqlEq _ _ value p := value == p.value
  compare _ _ _ value p := value == p.value
  joined j parent child := (parent j.pk).any fun key => child j.fk == some key
  finish _ _ _ := PgResult.error []
  duplicateTable _ := PgResult.error []

def onePage : Paging := fun _ _ _ rows => List.range rows.length

def blogWith (comments : List Row) : Database := fun table =>
  if table = str "users" then [rowWith [(str "id", str "1"), (str "name", str "Alice")]]
  else if table = str "posts" then
    [rowWith [(str "id", str "7"), (str "user_id", str "1"), (str "title", str "a")],
      rowWith [(str "id", str "8"), (str "user_id", str "1"), (str "title", str "b")]]
  else if table = str "comments" then comments
  else []

lemma authorsConfig_accepted : authorsConfig.Accepted := by
  unfold Config.Accepted
  decide +kernel

lemma mem_generated_authors : authors ∈ authorsConfig.generated :=
  Config.mem_generated_of_singleton authors {}

lemma exists_readQuery_listAuthors :
    ∃ Q params, readQuery authorsConfig.auth authors listAuthors .list = some (Q, params) := by
  have hsome : (readQuery authorsConfig.auth authors listAuthors .list).isSome := by
    decide +kernel
  obtain ⟨⟨Q, params⟩, hQ⟩ := isSome_iff_exists.1 hsome
  exact ⟨Q, params, hQ⟩

theorem embeds_postsAlone : authorsConfig.Accepted ∧
    ∃ Q params, readQuery authorsConfig.auth authors listAuthors .list = some (Q, params) ∧
      Embeds textEquality onePage (blogWith []) authors authorsConfig.auth listAuthors .list Q
        params := by
  refine ⟨authorsConfig_accepted, ?_⟩
  have hloaded := authorsConfig_accepted.loaded mem_generated_authors
  obtain ⟨Q, params, hQ⟩ := exists_readQuery_listAuthors
  have hop : (handler ⟨fun _ => []⟩ authorsConfig authors listAuthors .list).Emits
      (readOp authorsConfig authors listAuthors .list Q params) :=
    (emits_handler_iff hloaded (.inl rfl) _).2 ⟨Q, params, hQ, rfl⟩
  obtain ⟨Q', params', hQ', -, -, hiff⟩ := embeds_iff ⟨fun _ => []⟩ authorsConfig_accepted
    mem_generated_authors textEquality onePage (blogWith []) (by decide +kernel) listAuthors
    (.inl rfl) hop
  refine ⟨Q', params', hQ', hiff.2 ?_⟩
  exact ⟨by decide +kernel, by decide +kernel⟩

theorem not_embeds_postsAndComments : authorsConfig.Accepted ∧
    ∃ Q params, readQuery authorsConfig.auth authors listAuthors .list = some (Q, params) ∧
      ¬ Embeds textEquality onePage
        (blogWith [rowWith [(str "id", str "3"), (str "user_id", str "1")],
          rowWith [(str "id", str "4"), (str "user_id", str "1")]])
        authors authorsConfig.auth listAuthors .list Q params := by
  refine ⟨authorsConfig_accepted, ?_⟩
  have hloaded := authorsConfig_accepted.loaded mem_generated_authors
  obtain ⟨Q, params, hQ⟩ := exists_readQuery_listAuthors
  refine ⟨Q, params, hQ, ?_⟩
  rw [embeds_iff_of_readQuery hloaded (by decide +kernel) (.inl rfl) hQ]
  rintro ⟨-, hall⟩
  revert hall
  decide +kernel

end SpidoNG.Service
