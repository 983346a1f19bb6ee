import SpidoNG.Service.Ownership
import SpidoNG.Service.SqlValues
import SpidoNG.Service.StatementNames

/-!
# The key in the path

`GET`, `PUT` and `DELETE` on `<path>/:id` compare the primary key with the parameter that `pk_param`
makes of the id.
-/

namespace SpidoNG.Service

open Bytes Pg Prog List Option SqlType

namespace SqlType

def ofOid (o : Oid) : Option SqlType :=
  [int2, int4, int8, bool, text].find? fun t => t.oid == o

def comparable (t t' : SqlType) : Bool := (t.width.isSome && t'.width.isSome) || t == t'

def resolve (t : SqlType) (declared : Oid) : Option SqlType :=
  if declared = Oid.unknown then some t else (ofOid declared).filter t.comparable

end SqlType

def Finds (valid : Bytes → Bool) (t : SqlType) (v : SqlValue) (b : Oid × PgParam) : Prop :=
  b.2.isNull = false ∧ b.2.textFormat = false ∧
    ∃ t', t.resolve b.1 = some t' ∧ t'.receive valid b.2.value = some v

def Op.binding (k : ℕ) : Op → Option (Oid × PgParam)
  | .execPrepared _ _ types params => (types[k - 1]?).bind fun t =>
      (params[k - 1]?).map fun p => (t, p)
  | .queryCached _ params _ _ | .getEntity _ _ _ params => (params[k - 1]?).map fun p => (p.type, p)
  | _ => none

def Op.isRowStatement : Op → Bool
  | .execPrepared name _ _ _ =>
    Statement.update.tag.isPrefixOf name || Statement.delete.tag.isPrefixOf name
  | .queryCached _ _ _ _ | .getEntity _ _ _ _ => true
  | _ => false

def Incoming.keyPlace {cfg : Config} (x : Incoming cfg) : ℕ :=
  if x.endpoint = .update then x.setColumns.length + 1 else 1

def keyType (ep : Endpoint) (id : Bytes) : Oid :=
  if ep = .get then (pkParam id).type else Oid.unknown

/-- When the parameter finds the row: always for an int8, for other integers only in a `GET`, for a
text unless it looks like a number of 64 bits. -/
def Bindable (ep : Endpoint) (v : SqlValue) : SqlType → Prop
  | .int8 => True
  | .int2 | .int4 => ep = .get
  | .bool => ep ≠ .get ∧ v = .bool true
  | .text => ¬ (isNumeric v.out = true ∧ -2 ^ 63 ≤ signedNumber v.out ∧ signedNumber v.out < 2 ^ 63)

section

variable {cfg : Config} (lib : Platform) (x : Incoming cfg)

def KeyBound (k : ℕ) (b : Oid × PgParam) (op : Op) : Prop :=
  op.isRowStatement = true → op.binding k = some b

variable {b : Oid × PgParam} {k : ℕ} {r : Resource}

lemma keyBound_runHook {name : Bytes} (hook : Option Bytes)
    (pk user : Bytes) (hname : (Op.execPrepared name [] [] []).isRowStatement = false) :
    (runHook name hook pk user).Always (KeyBound k b) := by
  unfold runHook
  split
  · trivial
  · refine Always.perform fun h => ?_
    exact absurd (h.symm.trans hname) (by simp)

lemma keyBound_runAfterHook {name : Bytes} (table kind : Bytes)
    (hook : Option Bytes) (pk user : Bytes)
    (hname : (Op.execPrepared name [] [] []).isRowStatement = false) :
    (runAfterHook table name kind hook pk user).Always (KeyBound k b) := by
  refine (keyBound_runHook hook pk user hname).bind fun res => ?_
  split_ifs
  · exact Always.perform nofun
  · trivial

lemma not_isRowStatement {tag table : Bytes} (h : tag.head? = some 104) :
    (Op.execPrepared (tag ++ table) [] [] []).isRowStatement = false := by
  obtain ⟨tag, rfl⟩ : ∃ tag', tag = 104 :: tag' := by
    cases tag with
    | nil => cases h
    | cons c cs => exact ⟨cs, by rw [some.inj h]⟩
  have hupd : Statement.update.tag = 117 :: Statement.update.tag.tail := rfl
  have hdel : Statement.delete.tag = 100 :: Statement.delete.tag.tail := rfl
  unfold Op.isRowStatement
  rw [hupd, hdel]
  simp [isPrefixOf]

lemma keyBound_write {id owner : Bytes} {plan : UpdatePlan}
    (hplan : (Op.execPrepared [] plan.sql plan.types plan.params).binding k = some b) :
    (update lib r id owner plan).Always (KeyBound k b) ∧
      (delete lib r id owner plan).Always (KeyBound k b) := by
  constructor
  all_goals
    refine (keyBound_runHook _ _ _ (not_isRowStatement rfl)).bind fun before => ?_
    split_ifs
    · trivial
    refine Always.perform_bind (fun _ => hplan) fun res => ?_
    refine Always.perform_bind nofun fun _ => ?_
    split_ifs
    · trivial
    · trivial
    exact (keyBound_runAfterHook _ _ _ _ _ (not_isRowStatement rfl)).bind fun _ => trivial

lemma binding_updatePlan (r : Resource) (bypass : Bool) (owner : Bytes) (body : JsonBody)
    (id : Bytes) : (Op.execPrepared [] (updatePlan r bypass owner body id).sql
      (updatePlan r bypass owner body id).types (updatePlan r bypass owner body id).params).binding
        ((setColumns r.primaryKey r.columns body).length + 1) = some (Oid.unknown, pkParam id) := by
  have hplan : ∀ types params, (buildUpdate r.table r.primaryKey r.columns body id).types
    <+: types →
      (buildUpdate r.table r.primaryKey r.columns body id).params <+: params →
      (Op.execPrepared [] [] types params).binding
        ((setColumns r.primaryKey r.columns body).length + 1) = some (Oid.unknown, pkParam id) := by
    rintro types params ⟨types', rfl⟩ ⟨params', rfl⟩
    have htype : ∀ n, (replicate (n + 1) Oid.unknown ++ types')[n]? = some Oid.unknown := by
      intro n
      rw [getElem?_append_left (by simp)]
      simp
    simp [Op.binding, buildUpdate, unknownTypes, jsonToRow, htype]
  unfold updatePlan
  cases r.ownership with
  | none => exact hplan _ _ prefix_rfl prefix_rfl
  | some =>
    cases bypass with
    | true => exact hplan _ _ prefix_rfl prefix_rfl
    | false => exact hplan _ _ (prefix_append _ _) (prefix_append _ _)

lemma binding_deletePlan (r : Resource) (bypass : Bool) (owner id : Bytes) :
    (Op.execPrepared [] (deletePlan r bypass owner id).sql (deletePlan r bypass owner id).types
      (deletePlan r bypass owner id).params).binding 1 = some (Oid.unknown, pkParam id) := by
  unfold deletePlan
  cases r.ownership with
  | none => rfl
  | some => cases bypass <;> rfl

lemma keyBound_putHandler (hep : x.endpoint = .update) : (x.handler lib).Always
      (KeyBound x.keyPlace (Oid.unknown, pkParam (x.request.param (str "id")))) := by
  have hhandler : x.handler lib = putHandler lib cfg.auth x.resource x.request := by
    rw [Incoming.handler, hep]; rfl
  rw [hhandler]
  unfold putHandler
  dsimp only
  split
  · trivial
  split
  · trivial
  split
  · trivial
  split
  · trivial
  next body hbody =>
  split
  · trivial
  split
  · trivial
  refine (keyBound_write lib ?_).1
  have hplace : x.keyPlace = (setColumns x.resource.primaryKey x.resource.columns
    body).length + 1 := by
    rw [Incoming.keyPlace, if_pos hep, Incoming.setColumns, hbody]
    rfl
  rw [hplace]
  exact binding_updatePlan _ _ _ _ _

lemma keyBound_deleteHandler (hep : x.endpoint = .delete) : (x.handler lib).Always
      (KeyBound x.keyPlace (Oid.unknown, pkParam (x.request.param (str "id")))) := by
  have hhandler : x.handler lib = deleteHandler lib cfg.auth x.resource x.request := by
    rw [Incoming.handler, hep]; rfl
  have hplace : x.keyPlace = 1 := by rw [Incoming.keyPlace, if_neg (by simp [hep])]
  rw [hhandler, hplace]
  unfold deleteHandler
  dsimp only
  split
  · trivial
  split
  · trivial
  split
  · trivial
  exact (keyBound_write lib (binding_deletePlan _ _ _ _)).2

lemma extends_ownWhere {auth : AuthConfig} {req : Request} {bypass : Bool}
    {w w' : Where} (h : ownWhere auth r req bypass w = some w') : w'.Extends w := by
  unfold ownWhere at h
  split at h
  · obtain rfl := some.inj h
    exact .refl w
  dsimp only at h
  split_ifs at h
  · obtain rfl := some.inj h
    exact .refl w
  · obtain rfl := some.inj h
    exact Where.extends_push w _ _

lemma keyBound_getHandler (hep : x.endpoint = .get) : (x.handler lib).Always (KeyBound x.keyPlace
      ((pkParam (x.request.param (str "id"))).type, pkParam (x.request.param (str "id")))) := by
  have hhandler : x.handler lib =
      getHandler lib cfg.auth x.resource (x.resource.tableId cfg) x.request := by
    rw [Incoming.handler, hep]; rfl
  have hplace : x.keyPlace = 1 := by rw [Incoming.keyPlace, if_neg (by simp [hep])]
  rw [hhandler, hplace]
  unfold getHandler
  dsimp only
  split
  · trivial
  split
  · trivial
  split
  · trivial
  next w hw =>
  split
  · exact Always.perform_bind (fun _ => rfl) fun _ => trivial
  unfold getFromTable
  split
  · trivial
  refine Always.perform_bind (fun _ => ?_) fun _ => trivial
  obtain ⟨params, hparam⟩ :=
    ((extends_softDeleteWhere x.resource w).trans (extends_ownWhere hw)).params
  show ((softDeleteWhere x.resource w).params[0]?).map _ = _
  rw [← hparam]
  rfl

lemma keyBound_handler (hep : x.endpoint = .get ∨ x.endpoint = .update ∨ x.endpoint = .delete) :
    (x.handler lib).Always (KeyBound x.keyPlace
      (keyType x.endpoint (x.request.param (str "id")), pkParam (x.request.param (str "id")))) := by
  unfold keyType
  obtain hep | hep | hep := hep
  · rw [if_pos hep]
    exact keyBound_getHandler lib x hep
  · rw [if_neg (by simp [hep])]
    exact keyBound_putHandler lib x hep
  · rw [if_neg (by simp [hep])]
    exact keyBound_deleteHandler lib x hep

end

lemma pkParam_of_numeric {s : Bytes} (hnum : isNumeric s) (hlow : -2 ^ 63 ≤ signedNumber s)
    (hhigh : signedNumber s < 2 ^ 63) : pkParam s = .i8 (signedNumber s) := by
  have hne : s ≠ [] := by
    rintro rfl
    cases hnum
  rw [pkParam, if_neg hne, if_pos ⟨hnum, hlow, hhigh⟩]

lemma pkParam_of_not_numeric {s : Bytes} (hne : s ≠ []) (h : ¬ (isNumeric s ∧
    -2 ^ 63 ≤ signedNumber s ∧ signedNumber s < 2 ^ 63)) : pkParam s = .text s := by
  rw [pkParam, if_neg hne, if_neg h]

lemma finds_i8_iff (valid : Bytes → Bool) (t : SqlType) (v : SqlValue) (ep : Endpoint) (n : ℤ)
    (hlow : -2 ^ 63 ≤ n) (hhigh : n < 2 ^ 63) :
    Finds valid t v (if ep = .get then (PgParam.i8 n).type else Oid.unknown, PgParam.i8 n) ↔
      (ep = .get ∨ t = .int8) ∧ t.width.isSome ∧ .int n = v ∨
        ep ≠ .get ∧ t = .text ∧ valid (putInt 8 n) ∧ .text (putInt 8 n) = v := by
  have hval : (PgParam.i8 n).value = putInt 8 n := rfl
  have hint8 : int8.receive valid (putInt 8 n) = some (.int n) :=
    receive_send (t := .int8) (v := .int n) ⟨hlow, hhigh⟩
  unfold Finds
  rw [hval]
  by_cases hep : ep = .get
  · have hresolve : t.resolve 20 = if t.width.isSome then some .int8 else none := by
      cases t <;> rfl
    simp only [hep, if_true]
    rw [show (PgParam.i8 n).type = 20 from rfl, hresolve]
    cases t.width <;> simp [hint8, PgParam.i8]
  · have hresolve : t.resolve Oid.unknown = some t := by cases t <;> rfl
    simp only [hep, if_false]
    rw [hresolve]
    have hbytes : getBE (putInt 8 n) = n := getBE_putInt (by norm_num) hlow hhigh
    cases t <;> simp [hbytes, hep, receive, width, PgParam.i8]

lemma finds_text_iff (valid : Bytes → Bool) (t : SqlType) (v : SqlValue) (ep : Endpoint)
    (s : Bytes) :
    Finds valid t v (if ep = .get then (PgParam.text s).type else Oid.unknown, PgParam.text s) ↔
      if ep = .get then t = .text ∧ valid s ∧ .text s = v else t.receive valid s = some v := by
  unfold Finds
  by_cases hep : ep = .get
  · have hresolve : t.resolve Oid.text = if t = .text then some .text else none := by
      cases t <;> rfl
    simp only [hep, if_true]
    rw [show (PgParam.text s).type = Oid.text from rfl, hresolve]
    by_cases ht : t = .text
    · cases hvalid : valid s <;> simp [ht, hvalid, receive, width, PgParam.text]
    · simp [ht]
  · have hresolve : t.resolve Oid.unknown = some t := by cases t <;> rfl
    simp only [hep, if_false]
    rw [hresolve]
    simp [PgParam.text]

variable {valid : Bytes → Bool}

lemma has_int8_of_has_int {t : SqlType} {n : ℤ} (h : t.Has valid (.int n)) :
    t.width.isSome ∧ -2 ^ 63 ≤ n ∧ n < 2 ^ 63 := by
  cases t <;> simp only [SqlType.Has] at h <;> refine ⟨rfl, ?_, ?_⟩ <;> omega

lemma finds_pkParam_iff {t : SqlType} {v : SqlValue} (hv : t.Has valid v)
    (hne : v.out ≠ []) (ep : Endpoint) :
    Finds valid t v (keyType ep v.out, pkParam v.out) ↔ Bindable ep v t := by
  unfold keyType
  cases v with
  | int n =>
    obtain ⟨hwidth, hlow, hhigh⟩ := has_int8_of_has_int hv
    obtain ⟨hnum, hval⟩ := isNumeric_toString n
    have hparam : pkParam (SqlValue.int n).out = .i8 n := by
      have hpk := pkParam_of_numeric hnum (by rwa [hval]) (by rwa [hval])
      rwa [hval] at hpk
    rw [hparam, finds_i8_iff valid t _ ep n hlow hhigh]
    cases t <;> simp [Bindable, width, SqlType.Has] at hv ⊢
  | bool b =>
    have hparam : pkParam (SqlValue.bool b).out = .text (SqlValue.bool b).out := by
      cases b <;> decide +kernel
    rw [hparam, finds_text_iff]
    cases t <;> simp only [SqlType.Has] at hv
    by_cases hep : ep = .get
    · simp [Bindable, hep]
    · -- the bytes of both texts are not zero
      have hbytes : str "t" = [116] ∧ str "f" = [102] := by decide +kernel
      cases b <;>
        simp [Bindable, hep, SqlValue.out, hbytes, receive, width]
  | text s =>
    cases t <;> simp only [SqlType.Has] at hv
    by_cases hnum : isNumeric s ∧ -2 ^ 63 ≤ signedNumber s ∧ signedNumber s < 2 ^ 63
    · obtain ⟨hnumber, hlow, hhigh⟩ := hnum
      have hoth : ¬ SqlValue.text (putInt 8 (signedNumber s)) = .text s := fun h =>
        putInt_ne_of_isNumeric (by norm_num) (by norm_num) hnumber (SqlValue.text.inj h)
      have hnot : ¬ Bindable ep (.text s) .text := fun h => h ⟨hnumber, hlow, hhigh⟩
      rw [show (SqlValue.text s).out = s from rfl, pkParam_of_numeric hnumber hlow hhigh,
        finds_i8_iff valid _ _ ep _ hlow hhigh]
      simp [width, hoth, hnot]
    · have hyes : Bindable ep (.text s) .text := hnum
      have hparam : pkParam s = .text s := pkParam_of_not_numeric hne hnum
      rw [show (SqlValue.text s).out = s from rfl, hparam, finds_text_iff]
      simp [hyes, receive, width, hv]

/-- **The key in the path** finds its row if and only if it is an int8, or another integer in a
`GET`, or a text that does not look like a number of 64 bits. -/
theorem finds_iff {cfg : Config} (lib : Platform) (x : Incoming cfg)
    (hep : x.endpoint = .get ∨ x.endpoint = .update ∨ x.endpoint = .delete) {op : Op}
    (hop : (x.handler lib).Emits op) (hrow : op.isRowStatement = true) (valid : Bytes → Bool)
    (t : SqlType) (v : SqlValue) (hv : t.Has valid v) (hid : x.request.param (str "id") = v.out)
    (hne : v.out ≠ []) :
    (∃ b, op.binding x.keyPlace = some b ∧ Finds valid t v b) ↔ Bindable x.endpoint v t := by
  have hbound := (keyBound_handler lib x hep).of_emits hop hrow
  rw [hbound, hid]
  constructor
  · rintro ⟨b, hb, hfinds⟩
    obtain rfl := some.inj hb
    exact (finds_pkParam_iff hv hne _).1 hfinds
  · intro h
    exact ⟨_, rfl, (finds_pkParam_iff hv hne _).2 h⟩

def tickets : Resource :=
  { path := str "/tickets", table := str "tickets", methods := [.GET, .PUT, .DELETE],
    columns := [str "id", str "seat"] }

def ticketsConfig : Config := { resources := [tickets] }

def dropTicket : Incoming ticketsConfig where
  resource := tickets
  generated := Config.mem_generated_of_singleton tickets {}
  endpoint := .delete
  served := by decide +kernel
  request :=
    { method := .DELETE, path := str "/tickets/7", query := [], version := str "HTTP/1.1",
      headers := [], body := [], keepAlive := true, params := [(str "id", str "7")] }

lemma dropTicket_deletes : dropTicket.Deletes :=
  ⟨rfl, by decide +kernel, by decide +kernel, by decide +kernel⟩

lemma exists_dropTicket_statement :
    ∃ op, (dropTicket.handler ⟨fun _ => []⟩).Emits op ∧ op.isRowStatement := by
  obtain ⟨types, params, hop⟩ : dropTicket.Executes ⟨fun _ => []⟩ _ _ :=
    executes_of_deletes dropTicket_deletes
  refine ⟨_, hop, ?_⟩
  simp only [Op.isRowStatement]
  decide +kernel

lemma param_dropTicket : dropTicket.request.param (str "id") = (SqlValue.int 7).out := by
  decide +kernel

theorem finds_dropTicket_int8 : ∃ op, (dropTicket.handler ⟨fun _ => []⟩).Emits op ∧
    op.isRowStatement = true ∧
      ∃ b, op.binding dropTicket.keyPlace = some b ∧ Finds (fun _ => true) .int8 (.int 7) b := by
  obtain ⟨op, hop, hrow⟩ := exists_dropTicket_statement
  refine ⟨op, hop, hrow, ?_⟩
  exact (finds_iff ⟨fun _ => []⟩ dropTicket (.inr (.inr rfl)) hop hrow (fun _ => true)
    .int8 (.int 7)
    (by norm_num [SqlType.Has]) param_dropTicket (by decide +kernel)).2 trivial

theorem not_finds_dropTicket_int4 : ∃ op, (dropTicket.handler ⟨fun _ => []⟩).Emits op ∧
    op.isRowStatement = true ∧
      ¬ ∃ b, op.binding dropTicket.keyPlace = some b ∧ Finds (fun _ => true) .int4 (.int 7) b := by
  obtain ⟨op, hop, hrow⟩ := exists_dropTicket_statement
  refine ⟨op, hop, hrow, ?_⟩
  have hbound := (keyBound_handler ⟨fun _ => []⟩ dropTicket (.inr (.inr rfl))).of_emits hop hrow
  rw [hbound, param_dropTicket]
  rintro ⟨b, hb, hfinds⟩
  obtain rfl := some.inj hb
  have hget := (finds_pkParam_iff (t := .int4) (by norm_num [SqlType.Has]) (by decide +kernel) _).1
    hfinds
  cases hget

end SpidoNG.Service
