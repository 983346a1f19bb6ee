import SpidoNG.Pg.Pool
import SpidoNG.Pg.Transaction
import SpidoNG.Service.Writes

/-!
# Insertions in a transaction

With transactional hooks a `POST` runs the hooks and the `INSERT` between `BEGIN` and `COMMIT`.
-/

namespace SpidoNG.Service

open Bytes Pg Prog List Option Resource

abbrev Trace := List (Prog.Event Op Op.Res)

def OnLink (kind : Bytes → TextKind) (l : Link) : (op : Op) → op.Res → Link → Prop
  | .exec sql, res, l' => l.Answers kind sql res l'
  | _, _, l' => l' = l

def Decisive (kind : Bytes → TextKind) (l : Link) (op : Op) (res : op.Res) (l' : Link) : Prop :=
  OnLink kind l op res l' ∧
    (op = .exec (str "COMMIT") ∨ op = .exec (str "ROLLBACK") → l'.session.status ≠ .failed)

def execs (t : Trace) : List (Bytes × PgResult) :=
  t.filterMap fun
    | ⟨.exec sql, res⟩ => some (sql, res)
    | _ => none

def answersTo (name : Bytes) (t : Trace) : List PgResult :=
  t.filterMap fun
    | ⟨.execPrepared n _ _ _, x⟩ => if n = name then some x else none
    | _ => none

def Replayed (r : Resource) (t : Trace) : Prop := answersTo (str "idem_fetch_" ++ r.table) t ≠ []

section

variable (auth : AuthConfig) (r : Resource) (req : Request)

def hookTexts (hook : Option Bytes) (pk user : Bytes) : List Bytes :=
  (truthy hook).toList.map fun sql => inlineParams sql [.text pk, .text user]

def insertText (row : List PgParam) : Bytes := inlineParams (insertSql r row.length) row

def innerTexts (row : List PgParam) (ins : PgResult) : List Bytes :=
  hookTexts r.hooks.beforeInsert [] (hookUser auth r req) ++
    insertText r row :: hookTexts r.hooks.afterInsert (insertedKey ins) (hookUser auth r req)

def Resource.innerCount : ℕ :=
  (truthy r.hooks.beforeInsert).toList.length + 1 +
    (truthy r.hooks.afterInsert).toList.length

structure DataOnly (kind : Bytes → TextKind) : Prop where
  before : ∀ sql ∈ hookTexts r.hooks.beforeInsert [] (hookUser auth r req), kind sql = .data
  insert : ∀ row, kind (insertText r row) = .data
  after : ∀ pk, ∀ sql ∈ hookTexts r.hooks.afterInsert pk (hookUser auth r req), kind sql = .data

structure AllOrNothing (t : Trace) (res : Response) (l : Link) : Prop where
  created : res.status = 201 → Replayed r t ∨ ∃ row ins,
    (execs t).map Prod.fst = str "BEGIN" :: innerTexts auth r req row ins ++ [str "COMMIT"] ∧
      (∀ x ∈ execs t, x.2.hadError = false) ∧ l.session.committed = innerTexts auth r req row ins
  nothing : ∀ i x, (execs t)[i]? = some x → 0 < i → i ≤ r.innerCount → x.2.hadError = true →
    l.session.committed = []
  returned : ∀ (p : Pool) i, (p.checkin i l.conn).idle = p.idle ∨ l.session.status = .idle

end

variable {kind : Bytes → TextKind} {lib : Platform} {auth : AuthConfig} {r : Resource}
  {req : Request}
  {t pre : Trace} {res : Response} {l l' : Link} {xs : List Bytes} {α : Type}
  {Q : Trace → α → Link → Prop}

@[simp] lemma execs_append (t t' : Trace) : execs (t ++ t') = execs t ++ execs t' :=
  filterMap_append

@[simp] lemma execs_exec (sql : Bytes) (x : PgResult) : execs [⟨.exec sql, x⟩] = [(sql, x)] := rfl

@[simp] lemma answersTo_append (name : Bytes) (t t' : Trace) :
    answersTo name (t ++ t') = answersTo name t ++ answersTo name t' := filterMap_append

@[simp] lemma answersTo_execPrepared (name n sql : Bytes) (types : List Oid) (params : List PgParam)
    (x : PgResult) :
    answersTo name [⟨.execPrepared n sql types params, x⟩] = if n = name then [x] else [] := by
  unfold answersTo
  split_ifs with h <;> simp [h]

variable {sql key : Bytes} {f : PgResult → Action α} {params : List PgParam}

lemma mem_answersTo {name : Bytes} {types : List Oid} (x : PgResult) :
    x ∈ answersTo name (pre ++ [⟨.execPrepared name sql types params, x⟩]) := by
  rw [answersTo_append, answersTo_execPrepared, if_pos rfl]
  exact mem_append_right _ (mem_singleton.2 rfl)

lemma execs_other {op : Op} (x : op.Res) (h : ∀ sql, op ≠ .exec sql) :
    execs (pre ++ [⟨op, x⟩]) = execs pre := by
  have hnone : execs [⟨op, x⟩] = [] := by
    cases op with
    | exec sql => exact absurd rfl (h sql)
    | _ => rfl
  rw [execs_append, hnone, append_nil]

lemma ensures_exec (h : ∀ (x : PgResult) l', Decisive kind l (.exec sql) x l' →
      Ensures (Decisive kind) Q (f x) (pre ++ [⟨.exec sql, x⟩]) l') :
    Ensures (Decisive kind) Q (exec sql >>= f) pre l := ensures_perform h

lemma ensures_other {op : Op} {f : op.Res → Action α} (hop : ∀ sql, op ≠ .exec sql)
    (h : ∀ x pre', execs pre' = execs pre → Ensures (Decisive kind) Q (f x) pre' l) :
    Ensures (Decisive kind) Q (Prog.perform op >>= f) pre l := by
  refine ensures_perform fun x l' hstep => ?_
  have hl : l' = l := by
    have hlink := hstep.1
    cases op with
    | exec sql => exact absurd rfl (hop sql)
    | _ => exact hlink
  rw [hl]
  exact h x _ (execs_other x hop)

lemma ensures_execPrepared {name : Bytes} {types : List Oid}
    (h : ∀ (x : PgResult) pre', execs pre' = execs pre → Ensures (Decisive kind) Q (f x) pre' l) :
    Ensures (Decisive kind) Q (execPrepared name sql types params >>= f) pre l :=
  ensures_other nofun h

lemma ensures_idemClear {f : Unit → Action α}
    (h : ∀ pre', execs pre' = execs pre → Ensures (Decisive kind) Q (f ()) pre' l) :
    Ensures (Decisive kind) Q (idemClear r key >>= f) pre l := by
  unfold idemClear
  split_ifs
  · exact h pre rfl
  · exact ensures_other nofun fun _ pre' hpre => h pre' hpre

lemma ensures_idemStore {status : ℤ} {body : Bytes} {f : Unit → Action α}
    (h : ∀ pre', execs pre' = execs pre → Ensures (Decisive kind) Q (f ()) pre' l) :
    Ensures (Decisive kind) Q (idemStore r key status body >>= f) pre l := by
  unfold idemStore
  split_ifs
  · exact h pre rfl
  · exact ensures_other nofun fun _ pre' hpre => h pre' hpre

lemma returned_of_safe (h : l.Safe) (p : Pool) (i : ℕ) :
    (p.checkin i l.conn).idle = p.idle ∨ l.session.status = .idle := by
  refine h.imp_left fun hready => ?_
  unfold Pool.checkin
  rw [if_neg (by simp [PgConnection.isReady, hready])]

lemma allOrNothing_of_empty (hsafe : l.Safe) (hcom : l.session.committed = [])
    (hstatus : res.status = 201 → Replayed r t) : AllOrNothing auth r req t res l where
  created h := .inl (hstatus h)
  nothing _ _ _ _ _ _ := hcom
  returned := returned_of_safe hsafe

lemma ensures_fail {err : PgResult} (hsafe : l.Safe) (hcom : l.session.committed = []) :
    Ensures (Decisive kind) (AllOrNothing auth r req) (fail lib r key err) pre l := by
  refine ensures_idemClear fun pre' _ => ensures_pure ?_
  exact allOrNothing_of_empty hsafe hcom (by simp)

lemma ensures_rollback {err : PgResult} (hkind : kind (str "ROLLBACK") = .rollback) (h : l.Undone) :
    Ensures (Decisive kind) (AllOrNothing auth r req) (rollback lib r key err) pre l := by
  refine ensures_exec fun x l' hstep => ?_
  have hund : l'.Undone := h.rollback hkind hstep.1
  exact ensures_fail (hund.safe (hstep.2 (.inr rfl))) hund.2.1

structure Progress (xs : List Bytes) (t : Trace) (l : Link) : Prop where
  link : l.Open xs
  texts : (execs t).map Prod.fst = str "BEGIN" :: xs
  ok : ∀ x ∈ execs t, x.2.hadError = false

lemma Progress.data (h : Progress xs pre l) (hkind : kind sql = .data) {x : PgResult}
    (hx : x.hadError = false) (hans : l.Answers kind sql x l') :
    Progress (xs ++ [sql]) (pre ++ [⟨.exec sql, x⟩]) l' where
  link := (h.link.data hkind hans).1 hx
  texts := by simp [h.texts]
  ok := by
    intro y hy
    rw [execs_append, execs_exec, mem_append, mem_singleton] at hy
    rcases hy with hy | rfl
    · exact h.ok y hy
    · exact hx

lemma ensures_data (hkind : kind sql = .data) (h : Progress xs pre l)
    (hok : ∀ x pre' l', x.hadError = false → Progress (xs ++ [sql]) pre' l' →
      Ensures (Decisive kind) Q (f x) pre' l')
    (herr : ∀ x pre' l', x.hadError → l'.Undone → Ensures (Decisive kind) Q (f x) pre' l') :
    Ensures (Decisive kind) Q (exec sql >>= f) pre l := by
  refine ensures_exec fun x l' hstep => ?_
  cases hx : x.hadError with
  | false => exact hok x _ l' hx (h.data hkind hx hstep.1)
  | true => exact herr x _ l' hx ((h.link.data hkind hstep.1).2 hx)

lemma ensures_hookIn {hook : Option Bytes} {pk user : Bytes}
    (hkind : ∀ sql ∈ hookTexts hook pk user, kind sql = .data) (h : Progress xs pre l)
    (hok : ∀ x pre' l', x.hadError = false → Progress (xs ++ hookTexts hook pk user) pre' l' →
      Ensures (Decisive kind) Q (f x) pre' l')
    (herr : ∀ x pre' l', x.hadError → l'.Undone → Ensures (Decisive kind) Q (f x) pre' l') :
    Ensures (Decisive kind) Q (runHookIn hook pk user >>= f) pre l := by
  unfold runHookIn
  unfold hookTexts at hkind hok
  cases htruthy : truthy hook with
  | none =>
    rw [htruthy] at hok
    exact hok {} pre l rfl (by simpa using h)
  | some =>
    rw [htruthy] at hkind hok
    exact ensures_data (hkind _ (by simp)) h hok herr

lemma length_hookTexts (hook : Option Bytes) (pk user : Bytes) :
    (hookTexts hook pk user).length = (truthy hook).toList.length := by
  simp [hookTexts]

lemma length_innerTexts (row : List PgParam) (ins : PgResult) :
    (innerTexts auth r req row ins).length = r.innerCount := by
  simp only [innerTexts, innerCount, length_append, length_cons, length_hookTexts]
  omega

lemma allOrNothing_of_commit {row : List PgParam} {ins c : PgResult}
    (h : Progress (innerTexts auth r req row ins) pre l) (hkind : kind (str "COMMIT") = .commit)
    (hstep : Decisive kind l (.exec (str "COMMIT")) c l')
    (htrace : execs t = execs pre ++ [(str "COMMIT", c)])
    (hstatus : res.status = 201 → c.hadError = false) :
    AllOrNothing auth r req t res l' where
  created h201 := by
    have hsession := (h.link.commit hkind hstep.1).1 (hstatus h201)
    refine .inr ⟨row, ins, ?_, ?_, by rw [hsession]⟩
    · rw [htrace, map_append, h.texts]
      rfl
    · rw [htrace]
      intro x hx
      rcases mem_append.1 hx with hx | hx
      · exact h.ok x hx
      · rw [mem_singleton.1 hx]
        exact hstatus h201
  nothing i x hx hpos hle herr := by
    have hlen : (execs pre).length = r.innerCount + 1 := by
      rw [← length_map (f := Prod.fst), h.texts, length_cons, length_innerTexts]
    rw [htrace, getElem?_append_left (by omega)] at hx
    exact absurd (h.ok x (mem_of_getElem? hx)) (by simp [herr])
  returned := returned_of_safe ((h.link.commit hkind hstep.1).2 (hstep.2 (.inl rfl)))

lemma status_overloaded : (overloaded lib r).status ≠ 201 := by
  unfold overloaded
  split <;> simp [Response.setStatus]

section

variable (hbegin : kind (str "BEGIN") = .begin) (hcommit : kind (str "COMMIT") = .commit)
  (hrollback : kind (str "ROLLBACK") = .rollback) (hdata : DataOnly auth r req kind)
    (hfresh : l.Fresh)
  (hpre : execs pre = [])

include hbegin hcommit hrollback hdata hfresh hpre

lemma ensures_insertTransactional (key : Bytes) (row : List PgParam) :
    Ensures (Decisive kind) (AllOrNothing auth r req) (insertTransactional lib auth r req key row)
      pre l := by
  refine ensures_other nofun fun conn pre hpre' => ?_
  rw [hpre] at hpre'
  split_ifs
  · exact ensures_pure (allOrNothing_of_empty hfresh.safe hfresh.committed (by simp))
  refine ensures_exec fun b l₁ hstep => ?_
  obtain ⟨hopen, hclosed⟩ := hfresh.begin hbegin hstep.1
  split_ifs with hb
  · obtain ⟨hsafe, hcom⟩ := hclosed hb
    exact ensures_pure (allOrNothing_of_empty hsafe hcom (by simp))
  have hb := eq_false_of_ne_true hb
  have hprogress : Progress [] (pre ++ [⟨.exec (str "BEGIN"), b⟩]) l₁ :=
    ⟨hopen hb, by simp [hpre'], by simpa [hpre'] using hb⟩
  refine ensures_hookIn hdata.before hprogress ?_ ?_
  · intro x pre₂ l₂ hx hprogress
    rw [if_neg (by simp [hx])]
    refine ensures_data (hdata.insert row) hprogress ?_ ?_
    · intro ins pre₃ l₃ hins hprogress
      rw [if_neg (by simp [hins])]
      refine ensures_hookIn (hdata.after (insertedKey ins)) hprogress ?_ ?_
      · intro y pre₄ l₄ hy hprogress
        rw [if_neg (by simp [hy])]
        have hinn : Progress (innerTexts auth r req row ins) pre₄ l₄ := by
          simpa [innerTexts, insertText] using hprogress
        refine ensures_exec fun c l₅ hstep => ?_
        split_ifs with hc
        · refine ensures_pure (allOrNothing_of_commit hinn hcommit hstep (by simp) (by simp))
        · refine ensures_other nofun fun _ pre₆ hpre₆ => ?_
          refine ensures_idemStore fun pre₇ hpre₇ => ensures_pure ?_
          refine allOrNothing_of_commit hinn hcommit hstep ?_ ?_
          · rw [hpre₇, hpre₆, execs_append, execs_exec]
          · exact fun _ => eq_false_of_ne_true hc
      · intro y pre₄ l₄ hy hund
        rw [if_pos hy]
        exact ensures_rollback hrollback hund
    · intro ins pre₃ l₃ hins hund
      rw [if_pos hins]
      exact ensures_rollback hrollback hund
  · intro x pre₂ l₂ hx hund
    rw [if_pos hx]
    exact ensures_rollback hrollback hund

lemma ensures_postBody (htx : r.transactional) (key : Bytes) :
    Ensures (Decisive kind) (AllOrNothing auth r req) (postBody lib auth r req key) pre l := by
  have hemp : ∀ {t res}, res.status ≠ 201 → AllOrNothing auth r req t res l := fun hstatus =>
    allOrNothing_of_empty hfresh.safe hfresh.committed fun h => absurd h hstatus
  unfold postBody
  split
  · exact ensures_pure (hemp (by simp))
  · dsimp only
    split_ifs
    · exact ensures_pure (hemp (by simp))
    split
    · exact ensures_pure (hemp (by simp [authRequired]))
    · unfold insertRow
      split_ifs
      · refine ensures_other nofun fun _ pre _ => ?_
        refine ensures_other nofun fun _ pre _ => ?_
        refine ensures_idemStore fun pre _ => ensures_pure (hemp ?_)
        decide
      · exact ensures_insertTransactional hbegin hcommit hrollback hdata hfresh hpre key _

end

/-- A `POST` of a resource with transactional hooks, where they leave the transaction alone and a
`COMMIT` or `ROLLBACK` that is refused has ended it. -/
theorem allOrNothing_of_decisive (kind : Bytes → TextKind) (hbegin : kind (str "BEGIN") = .begin)
    (hcommit : kind (str "COMMIT") = .commit) (hrollback : kind (str "ROLLBACK") = .rollback)
    (lib : Platform) (auth : AuthConfig) (r : Resource) (htx : r.transactional = true)
    (req : Request)
    (hdata : DataOnly auth r req kind) (l : Link) (hfresh : l.Fresh) (t : Trace) (res : Response)
    (l' : Link) (hrun : RunIn (Decisive kind) (postHandler lib auth r req) l t res l') :
    AllOrNothing auth r req t res l' := by
  have hempty : ∀ {t res}, (res.status = 201 → Replayed r t) → AllOrNothing auth r req t res l :=
    allOrNothing_of_empty hfresh.safe hfresh.committed
  suffices h : Ensures (Decisive kind) (AllOrNothing auth r req) (postHandler lib auth r req) [] l
    from h t res l' hrun
  unfold postHandler
  split_ifs
  · exact ensures_pure (hempty (by simp [forbidden]))
  refine ensures_other nofun fun acquired pre hpre => ?_
  split_ifs
  · exact ensures_pure (hempty fun h => absurd h status_overloaded)
  unfold idemClaim
  dsimp only
  split_ifs
  · exact ensures_postBody hbegin hcommit hrollback hdata hfresh hpre htx _
  refine ensures_execPrepared fun claim pre hpre' => ?_
  split_ifs
  · exact ensures_pure (hempty (by simp))
  · refine ensures_perform fun (fetch : PgResult) l₁ hstep => ?_
    obtain rfl : l₁ = l := hstep.1
    refine ensures_pure (hempty fun _ => ?_)
    exact ne_nil_of_mem (mem_answersTo fetch)
  · exact ensures_postBody hbegin hcommit hrollback hdata hfresh (hpre'.trans hpre) htx _

def plainKind (sql : Bytes) : TextKind :=
  if sql = str "BEGIN" then .begin
  else if sql = str "COMMIT" then .commit
  else if sql = str "ROLLBACK" then .rollback
  else .data

def refusing (kind : Bytes → TextKind) (refused : Bytes → Bool) (l : Link) :
    (op : Op) → Option (op.Res × Link)
  | .exec sql => l.exec kind sql (.ready { hadError := refused sql }) { stays := true }
  | .tryAcquire | .checkout => some (true, l)
  | .execPrepared _ _ _ _ | .queryCached _ _ _ _ => some (({} : PgResult), l)
  | .getEntity _ _ _ _ => some ((none : Option Bytes), l)
  | .walAppend _ => some ((0 : ℕ), l)
  | .markDirty _ | .enqueue _ _ _ | .invalidateTable _ | .log _ => some ((), l)

variable {refused : Bytes → Bool}

lemma onLink_refusing (op : Op) (x : op.Res)
    (h : refusing kind refused l op = some (x, l')) : OnLink kind l op x l' := by
  cases op with
  | exec => exact ⟨_, _, h⟩
  | _ =>
    cases h
    rfl

lemma runIn_refusing {p : Handler} (h : p.simulate (refusing kind refused) l = some (t, res, l')) :
    RunIn (OnLink kind) p l t res l' := .of_simulate (fun _ op x _ => onLink_refusing op x) h

lemma plainKind_of_head {c : UInt8} (h : sql.head? = some c)
    (hc : c ≠ 66 ∧ c ≠ 67 ∧ c ≠ 82) : plainKind sql = .data := by
  obtain ⟨hb, hc, hr⟩ := hc
  have hbegin : sql ≠ str "BEGIN" := by
    rintro rfl
    exact hb (some.inj (h.symm.trans rfl))
  have hcommit : sql ≠ str "COMMIT" := by
    rintro rfl
    exact hc (some.inj (h.symm.trans rfl))
  have hrollback : sql ≠ str "ROLLBACK" := by
    rintro rfl
    exact hr (some.inj (h.symm.trans rfl))
  rw [plainKind, if_neg hbegin, if_neg hcommit, if_neg hrollback]

lemma head_inlineParams {c : UInt8} (h : sql.head? = some c) (hc : c ≠ 36)
    (params : List PgParam) : (inlineParams sql params).head? = some c := by
  cases sql with
  | nil => cases h
  | cons =>
    cases h
    simp [inlineParams, inlineFrom, hc]

lemma head_insertSql (r : Resource) (n : ℕ) : (insertSql r n).head? = some 73 := by
  have hhead : (str "INSERT INTO ").head? = some 73 := by decide +kernel
  simp [insertSql, insertInto, head?_append, hhead]

def countedItems : Resource where
  path := str "/items"
  table := str "items"
  columns := [str "id", str "name"]
  hooks :=
    { transactional := true, afterInsert := some (str "UPDATE counts SET items = items + 1") }

def committedItems : Resource :=
  { countedItems with
    hooks := { countedItems.hooks with beforeInsert := some (str "COMMIT") } }

def newItem : Request where
  method := .POST
  path := str "/items"
  query := []
  version := str "HTTP/1.1"
  headers := []
  body := str "\x7b\"name\":\"a\"\x7d"
  keepAlive := true
  params := []

def freshLink : Link := ⟨{ fd := 5, state := .Ready, epoch := 2 }, {}⟩

lemma dataOnly_countedItems : DataOnly {} countedItems newItem plainKind where
  before := by simp [hookTexts, countedItems, truthy]
  insert row := plainKind_of_head (head_inlineParams (head_insertSql _ _) (by decide) row)
    (by decide)
  after pk sql hsql := by
    have hhead : (str "UPDATE counts SET items = items + 1").head? = some 85 := by decide +kernel
    have htruthy : truthy countedItems.hooks.afterInsert =
        some (str "UPDATE counts SET items = items + 1") := by decide +kernel
    rw [hookTexts, htruthy] at hsql
    rw [mem_singleton.1 hsql]
    exact plainKind_of_head (head_inlineParams hhead (by decide) _) (by decide)

theorem allOrNothing_newItem : ∃ t res l', RunIn (Decisive plainKind)
    (postHandler ⟨fun _ => []⟩ {} countedItems newItem) freshLink t res l' ∧ res.status = 201 ∧
      AllOrNothing {} countedItems newItem t res l' := by
  have heval : ((postHandler ⟨fun _ => []⟩ {} countedItems newItem).simulate
      (fun l op => (refusing plainKind (fun _ => false) l op).filter
        fun x => x.2.session.status != .failed) freshLink).map (fun x => x.2.1.status)
          = some 201 := by
    decide +kernel
  obtain ⟨⟨t, res, l'⟩, hsim, hstatus⟩ := map_eq_some_iff.1 heval
  have hrun : RunIn (Decisive plainKind) (postHandler ⟨fun _ => []⟩ {} countedItems newItem)
      freshLink t res l' := by
    refine .of_simulate (fun l op x l' h => ?_) hsim
    obtain ⟨hx, hstatus⟩ := filter_eq_some_iff.1 h
    exact ⟨onLink_refusing op x hx, fun _ => by simpa using hstatus⟩
  refine ⟨t, res, l', hrun, hstatus, ?_⟩
  have hkinds : plainKind (str "BEGIN") = .begin ∧ plainKind (str "COMMIT") = .commit ∧
      plainKind (str "ROLLBACK") = .rollback := by decide +kernel
  have htx : countedItems.transactional = true := by decide +kernel
  exact allOrNothing_of_decisive plainKind hkinds.1 hkinds.2.1 hkinds.2.2 _ {} countedItems
    htx newItem
    dataOnly_countedItems freshLink ⟨rfl, rfl⟩ t res l' hrun

theorem not_allOrNothing :
    (∃ t res l', RunIn (OnLink plainKind) (postHandler ⟨fun _ => []⟩ {} countedItems newItem)
      freshLink t res l' ∧ ¬ AllOrNothing {} countedItems newItem t res l') ∧
    ∃ t res l', RunIn (OnLink plainKind) (postHandler ⟨fun _ => []⟩ {} committedItems newItem)
      freshLink t res l' ∧ ¬ AllOrNothing {} committedItems newItem t res l' := by
  constructor
  · have heval : ((postHandler ⟨fun _ => []⟩ {} countedItems newItem).simulate
        (refusing plainKind fun sql => sql.head? == some 73 || sql == str "ROLLBACK") freshLink).map
          (fun x => x.2.2) = some ⟨freshLink.conn, ⟨.failed, [], []⟩⟩ := by
      decide +kernel
    obtain ⟨⟨t, res, l'⟩, hsim, hl⟩ := map_eq_some_iff.1 heval
    obtain rfl : l' = _ := hl
    have hrun := runIn_refusing hsim
    refine ⟨t, res, _, hrun, fun h => ?_⟩
    have hreturned := h.returned (Pool.init {} 1) 0
    have hkept : ((Pool.init {} 1).checkin 0 freshLink.conn).idle ≠ (Pool.init {} 1).idle := by
      decide +kernel
    exact hreturned.elim hkept nofun
  · have heval : ((postHandler ⟨fun _ => []⟩ {} committedItems newItem).simulate
        (refusing plainKind fun sql => sql.head? == some 85) freshLink).map
          (fun x => ((execs x.1)[3]?.map fun y => y.2.hadError, x.2.2.session.committed.length)) =
            some (some true, 1) := by
      decide +kernel
    obtain ⟨⟨t, res, l'⟩, hsim, hl⟩ := map_eq_some_iff.1 heval
    obtain ⟨hfailed, hcommitted⟩ := Prod.mk.inj hl
    obtain ⟨x, hx, herr⟩ := map_eq_some_iff.1 hfailed
    have hrun := runIn_refusing hsim
    refine ⟨t, res, l', hrun, fun h => ?_⟩
    have hcount : 3 ≤ committedItems.innerCount := by decide +kernel
    rw [h.nothing 3 x hx (by decide) hcount herr] at hcommitted
    cases hcommitted

end SpidoNG.Service
