import SpidoNG.Lib.Wire
import SpidoNG.Pg.Connection

/-!
# Bind messages

The bytes that `PgConnection::exec_prepared` sends for Bind (`spido-pg/src/wire.h`).
-/

namespace SpidoNG.Pg

open Bytes Reader Option PgParam

def kBind : UInt8 := 66

def putI16 (v : ℕ) : Bytes := Wire.putBE 2 (v % 2 ^ 16)

def putI32 (v : ℤ) : Bytes := Wire.putBE 4 (v % 2 ^ 32).toNat

def putStr (s : Bytes) : Bytes := s ++ [0]

def PgParam.format (p : PgParam) : ℕ := if p.textFormat then 0 else 1

def PgParam.put (p : PgParam) : Bytes :=
  if p.isNull then putI32 (-1) else putI32 p.value.length ++ p.value

def bindBody (name : Bytes) (params : List PgParam) : Bytes :=
  putStr [] ++ (putStr name ++
    (putI16 params.length ++ (params.flatMap (fun p => putI16 p.format) ++
    (putI16 params.length ++ (params.flatMap put ++ (putI16 1 ++ putI16 1))))))

def frame (tag : UInt8) (body : Bytes) : Bytes := tag :: (putI32 (body.length + 4 : ℕ) ++ body)

def bindFrame (name : Bytes) (params : List PgParam) : Bytes := frame kBind (bindBody name params)

structure BindMessage where
  portal : Bytes
  statement : Bytes
  params : List (ℕ × Option Bytes)
  resultFormats : List ℕ

def counted {α : Type} (r : Reader α) : Reader (List α) := do times r (← word 2)

def paramValue : Reader (Option Bytes) := do
  let n ← int 4
  if n = -1 then return none
  else if n < 0 then fail
  else return some (← take n.toNat)

def formatsFor (n : ℕ) : List ℕ → Option (List ℕ)
  | [] => some (List.replicate n 0)
  | [c] => some (List.replicate n c)
  | cs => if cs.length = n then some cs else none

def assemble (portal statement : Bytes) (codes : List ℕ) (values : List (Option Bytes))
    (resultFormats : List ℕ) : Reader BindMessage :=
  match formatsFor values.length codes with
  | none => fail
  | some formats => pure ⟨portal, statement, formats.zip values, resultFormats⟩

def readBindBody : Reader BindMessage := do
  let portal ← cstring
  let statement ← cstring
  let codes ← counted (word 2)
  let values ← counted paramValue
  let resultFormats ← counted (word 2)
  assemble portal statement codes values resultFormats

def readBody : Reader Bytes := do
  let n ← int 4
  if n < 4 then fail else take (n - 4).toNat

def decodeBind (bs : Bytes) : Option BindMessage :=
  match bs with
  | [] => none
  | tag :: bs => if tag = kBind then (readBody.all bs).bind readBindBody.all else none

variable {n v : ℕ}

lemma formatsFor_length {cs fs : List ℕ} (h : formatsFor n cs = some fs) : fs.length = n := by
  unfold formatsFor at h
  split at h
  · cases h; simp
  · cases h; simp
  · split_ifs at h with hlen
    cases h
    exact hlen

lemma yields_counted {α : Type} (r : Reader α) :
    Yields (counted r) fun as => as.length < 2 ^ 16 := by
  refine (yields_word 2).bind fun n hn bs as rest has => ?_
  have hlen := yields_times r n bs as rest has
  omega

lemma yields_readBindBody : Yields readBindBody fun m => m.params.length < 2 ^ 16 := by
  refine (Yields.true _).bind fun portal _ => (Yields.true _).bind fun statement _ =>
    (Yields.true _).bind fun codes _ => (yields_counted _).bind fun values hvalues =>
    (Yields.true _).bind fun results _ => ?_
  unfold assemble
  split
  · exact .fail
  · rename_i formats hformats
    refine .pure ?_
    have := formatsFor_length hformats
    simp only [List.length_zip]
    omega

variable {bs rest : Bytes}

lemma length_params_of_decodeBind {m : BindMessage} (h : decodeBind bs = some m) :
    m.params.length < 2 ^ 16 := by
  unfold decodeBind at h
  split at h
  · cases h
  · split_ifs at h
    obtain ⟨body, -, hbody⟩ := bind_eq_some_iff.1 h
    exact yields_readBindBody.of_all hbody

lemma take_eq_some {u : Bytes} (h : take n bs = some (u, rest)) : bs.length = n + rest.length := by
  unfold take at h
  split_ifs at h with hlen
  cases h
  simp only [List.length_drop]
  omega

lemma int_eq_some {i : ℤ} (h : int n bs = some (i, rest)) :
    bs.length = n + rest.length ∧ ∃ v : ℕ, i = Int.bmod v (256 ^ n) := by
  obtain ⟨⟨v, rest'⟩, hv, hi⟩ := bind_eq_some_iff.1 h
  obtain ⟨⟨u, rest''⟩, hu, hw⟩ := bind_eq_some_iff.1 hv
  cases hw
  cases hi
  exact ⟨take_eq_some hu, _, rfl⟩

lemma length_of_readBody {body : Bytes} (h : readBody.all bs = some body) : bs.length < 2 ^ 31 := by
  obtain ⟨⟨body', rest⟩, hbody, hif⟩ := bind_eq_some_iff.1 h
  split_ifs at hif with hrest
  obtain ⟨⟨n, bs'⟩, hn, htake⟩ := bind_eq_some_iff.1 hbody
  obtain ⟨hlen, v, hv⟩ := int_eq_some hn
  dsimp only at htake hrest
  split_ifs at htake with hneg
  · cases htake
  · have hlt := Int.bmod_lt (x := v) (show 0 < 256 ^ 4 by norm_num)
    have hbs' := take_eq_some htake
    rw [hrest, List.length_nil] at hbs'
    rw [← hv] at hlt
    norm_num at hlt
    omega

def PgParam.sent (p : PgParam) : ℕ × Option Bytes :=
  (p.format, if p.isNull then none else some p.value)

def bindSize (name : Bytes) (params : List PgParam) : ℕ :=
  name.length + 14 + (params.map fun p => 6 + if p.isNull then 0 else p.value.length).sum

@[simp] lemma length_putI16 (v : ℕ) : (putI16 v).length = 2 := by simp [putI16]

@[simp] lemma length_putI32 (v : ℤ) : (putI32 v).length = 4 := by simp [putI32]

lemma length_params_put (params : List PgParam) :
    (params.flatMap (fun p => putI16 p.format)).length + (params.flatMap put).length =
      (params.map fun p => 6 + if p.isNull then 0 else p.value.length).sum := by
  induction params with
  | nil => rfl
  | cons p _ ih =>
    have hp : p.put.length = 4 + if p.isNull then 0 else p.value.length := by
      unfold put
      split_ifs <;> simp
    simp only [List.flatMap_cons, List.length_append, length_putI16, hp, List.map_cons,
      List.sum_cons,
      ← ih]
    omega

lemma length_bindBody (name : Bytes) (params : List PgParam) :
    (bindBody name params).length + 4 = bindSize name params := by
  have := length_params_put params
  simp only [bindBody, putStr, bindSize, List.length_append, length_putI16, List.length_cons,
    List.length_nil]
  omega

lemma reads_i16 (h : v < 2 ^ 16) : Reads (word 2) (putI16 v) v := by
  rw [putI16, Nat.mod_eq_of_lt h]
  exact reads_word (by norm_num; omega)

lemma reads_i32 (h : v < 2 ^ 31) : Reads (int 4) (putI32 v) v := by
  have hv : ((v : ℤ) % 2 ^ 32).toNat = v := by omega
  have hb : Int.bmod v (256 ^ 4) = v := by
    rw [Int.bmod_def]
    norm_num
    omega
  have hr := @reads_int 4 v (by norm_num; omega)
  rw [hb] at hr
  rwa [putI32, hv]

lemma reads_i32_neg_one : Reads (int 4) (putI32 (-1)) (-1) := by
  have hr := @reads_int 4 (2 ^ 32 - 1) (by norm_num)
  exact hr

lemma reads_paramValue {p : PgParam} (h : ¬ p.isNull → p.value.length < 2 ^ 31) :
    Reads paramValue p.put p.sent.2 := by
  unfold paramValue put sent
  by_cases hnull : p.isNull
  · rw [if_pos hnull, if_pos hnull, ← List.append_nil (putI32 (-1))]
    refine reads_i32_neg_one.bind ?_
    rw [if_pos rfl]
    exact .pure none
  · rw [if_neg hnull, if_neg hnull]
    refine (reads_i32 (h hnull)).bind ?_
    rw [if_neg (by omega), if_neg (by omega), Int.toNat_natCast]
    exact (reads_take p.value).map some

lemma reads_counted {α β : Type} {r : Reader β} {put : α → Bytes} {view : α → β} {as : List α}
    (hlen : as.length < 2 ^ 16) (h : ∀ a ∈ as, Reads r (put a) (view a)) :
    Reads (counted r) (putI16 as.length ++ as.flatMap put) (as.map view) :=
  (reads_i16 hlen).bind (reads_times h)

lemma formatsFor_map (params : List PgParam) :
    formatsFor params.length (params.map PgParam.format) = some (params.map PgParam.format) := by
  cases params with
  | nil => rfl
  | cons p params =>
    cases params with
    | nil => rfl
    | cons => simp [formatsFor]

variable {name : Bytes} {params : List PgParam}

lemma value_le_bindSize {p : PgParam} (hp : p ∈ params)
    (hnull : ¬ p.isNull) : p.value.length < bindSize name params := by
  have hle := List.le_sum_of_mem
    (List.mem_map_of_mem hp (f := fun p : PgParam => 6 + if p.isNull then 0 else p.value.length))
  simp only [if_neg hnull] at hle
  unfold bindSize
  omega

lemma reads_readBindBody (hname : (0 : UInt8) ∉ name) (hlen : params.length < 2 ^ 16)
    (hval : ∀ p ∈ params, ¬ p.isNull → p.value.length < 2 ^ 31) :
    Reads readBindBody (bindBody name params) ⟨[], name, params.map sent, [1]⟩ := by
  have hcode : ∀ p ∈ params, Reads (word 2) (putI16 p.format) p.format := by
    intro p _
    apply reads_i16
    unfold PgParam.format
    split_ifs <;> norm_num
  have hcodes := reads_counted hlen hcode
  have hvalues := reads_counted hlen fun p hp => reads_paramValue (hval p hp)
  have hresult : Reads (counted (word 2)) (putI16 1 ++ putI16 1) [1] :=
    @reads_counted ℕ ℕ (word 2) putI16 id [1] (by norm_num)
      (by simpa using reads_i16 (show 1 < 2 ^ 16 by norm_num))
  have hass : Reads (assemble [] name (params.map PgParam.format)
      (params.map fun p => p.sent.2) [1]) [] ⟨[], name, params.map sent, [1]⟩ := by
    unfold assemble
    rw [List.length_map, formatsFor_map]
    simp only [List.zip_map']
    exact .pure _
  have hbody : bindBody name params = ([] ++ [0]) ++ ((name ++ [0]) ++
      ((putI16 params.length ++ params.flatMap fun p => putI16 p.format) ++
        ((putI16 params.length ++ params.flatMap put) ++ ((putI16 1 ++ putI16 1) ++ [])))) := by
    simp [bindBody, putStr]
  rw [hbody]
  refine Reads.bind (reads_cstring (by simp)) ?_
  refine Reads.bind (reads_cstring hname) ?_
  exact hcodes.bind (hvalues.bind (hresult.bind hass))

def BindFits (name : Bytes) (params : List PgParam) : Prop :=
  params.length < 2 ^ 16 ∧ bindSize name params < 2 ^ 31

lemma decodeBind_bindFrame (hname : (0 : UInt8) ∉ name) (h : BindFits name params) :
    decodeBind (bindFrame name params) = some ⟨[], name, params.map sent, [1]⟩ := by
  have hsize := length_bindBody name params
  have hlen : Reads (int 4) (putI32 ((bindBody name params).length + 4 : ℕ))
      ((bindBody name params).length + 4 : ℕ) := reads_i32 (by have := h.2; omega)
  have hread : Reads readBody
      (putI32 ((bindBody name params).length + 4 : ℕ) ++ bindBody name params)
      (bindBody name params) := by
    refine hlen.bind ?_
    rw [if_neg (by omega)]
    have htake := reads_take (bindBody name params)
    convert htake using 2
    omega
  have hbody := reads_readBindBody hname h.1 fun p hp hnull =>
    (value_le_bindSize hp hnull).trans h.2
  unfold decodeBind bindFrame frame
  simp only [if_true, hread.all, bind_some, hbody.all]

lemma length_of_decodes (h : (decodeBind bs).map (fun m => (m.statement, m.params)) =
      some (name, params.map sent)) : params.length < 2 ^ 16 := by
  obtain ⟨m, hm, heq⟩ := map_eq_some_iff.1 h
  have hcount := length_params_of_decodeBind hm
  rwa [(Prod.mk.inj heq).2, List.length_map] at hcount

end SpidoNG.Pg
