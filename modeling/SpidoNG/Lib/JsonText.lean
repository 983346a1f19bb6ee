import SpidoNG.Lib.Bytes

/-!
# JSON texts

The grammar of JSON (RFC 8259): which values a text denotes. Each `\u` escape stands for one code
point of its own: the two halves of a surrogate pair are not combined.
-/

namespace JsonText

open Bytes List

inductive Value
  | null
  | bool (b : Bool)
  | number (text : Bytes)
  | string (s : Bytes)
  | array (elems : List Value)
  | object (members : List (Bytes × Value))

def isWs (c : UInt8) : Bool := c == 32 || c == 9 || c == 10 || c == 13

def Ws (w : Bytes) : Prop := ∀ c ∈ w, isWs c = true

lemma ws_nil : Ws [] := List.forall_mem_nil _

/-- The UTF-8 bytes of a code point. -/
def encode (cp : ℕ) : Bytes :=
  if cp < 0x80 then [UInt8.ofNat cp]
  else if cp < 0x800 then [UInt8.ofNat (0xC0 + cp / 0x40), UInt8.ofNat (0x80 + cp % 0x40)]
  else
    [UInt8.ofNat (0xE0 + cp / 0x1000), UInt8.ofNat (0x80 + cp / 0x40 % 0x40),
      UInt8.ofNat (0x80 + cp % 0x40)]

def shortEscape (e : UInt8) : Option UInt8 :=
  if e == 34 || e == 92 || e == 47 then some e
  else if e == 98 then some 8
  else if e == 102 then some 12
  else if e == 110 then some 10
  else if e == 114 then some 13
  else if e == 116 then some 9
  else none

inductive Chars : Bytes → Bytes → Prop
  | nil : Chars [] []
  | plain {c : UInt8} {x raw : Bytes} (hc : 32 ≤ c) (hquote : c ≠ 34) (hback : c ≠ 92)
      (h : Chars x raw) : Chars (c :: x) (c :: raw)
  | short {e c : UInt8} {x raw : Bytes} (he : shortEscape e = some c) (h : Chars x raw) :
      Chars (c :: x) (92 :: e :: raw)
  | unicode {a b c d : UInt8} {k l m n : ℕ} {x raw : Bytes} (ha : hexDigit a = some k)
      (hb : hexDigit b = some l) (hc : hexDigit c = some m) (hd : hexDigit d = some n)
        (h : Chars x raw) :
      Chars (encode (((k * 16 + l) * 16 + m) * 16 + n) ++ x) (92 :: 117 :: a :: b :: c :: d :: raw)

def Digits (ds : Bytes) : Prop := ds ≠ [] ∧ ∀ c ∈ ds, isDigit c = true

def Number (t : Bytes) : Prop := ∃ sign int frac exp : Bytes, t = sign ++ (int ++ (frac ++ exp)) ∧
  (sign = [] ∨ sign = [45]) ∧ (int = [48] ∨ Digits int ∧ int.head? ≠ some 48) ∧
    (frac = [] ∨ ∃ ds, Digits ds ∧ frac = 46 :: ds) ∧
      (exp = [] ∨ ∃ e g ds, (e = 101 ∨ e = 69) ∧ (g = [] ∨ g = [43] ∨ g = [45]) ∧ Digits ds ∧
        exp = e :: (g ++ ds))

structure Written where
  name : Bytes
  value : Value
  text : Bytes

inductive Phrase
  | value (v : Value)
  | elements (vs : List Value)
  | members (ms : List Written)

inductive Text : Phrase → Bytes → Prop
  | null : Text (.value .null) (str "null")
  | true : Text (.value (.bool true)) (str "true")
  | false : Text (.value (.bool false)) (str "false")
  | number {t : Bytes} (h : Number t) : Text (.value (.number t)) t
  | string {x raw : Bytes} (h : Chars x raw) : Text (.value (.string x)) (34 :: (raw ++ [34]))
  | emptyArray {w : Bytes} (hw : Ws w) : Text (.value (.array [])) (91 :: (w ++ [93]))
  | array {vs : List Value} {t : Bytes} (h : Text (.elements vs) t) :
      Text (.value (.array vs)) (91 :: (t ++ [93]))
  | emptyObject {w : Bytes} (hw : Ws w) : Text (.value (.object [])) (123 :: (w ++ [125]))
  | object {ms : List Written} {t : Bytes} (h : Text (.members ms) t) :
      Text (.value (.object (ms.map fun m => (m.name, m.value)))) (123 :: (t ++ [125]))
  | lastElement {v : Value} {w t w' : Bytes} (hw : Ws w) (h : Text (.value v) t) (hw' : Ws w') :
      Text (.elements [v]) (w ++ (t ++ w'))
  | element {v : Value} {vs : List Value} {w t w' u : Bytes} (hw : Ws w) (h : Text (.value v) t)
      (hw' : Ws w') (hvs : Text (.elements vs) u) :
      Text (.elements (v :: vs)) (w ++ (t ++ (w' ++ 44 :: u)))
  | lastMember {name raw : Bytes} {v : Value} {w₁ w₂ w₃ t w₄ : Bytes} (hw₁ : Ws w₁)
      (hname : Chars name raw) (hw₂ : Ws w₂) (hw₃ : Ws w₃) (h : Text (.value v) t) (hw₄ : Ws w₄) :
      Text (.members [⟨name, v, t⟩])
        (w₁ ++ 34 :: (raw ++ 34 :: (w₂ ++ 58 :: (w₃ ++ (t ++ w₄)))))
  | member {name raw : Bytes} {v : Value} {ms : List Written} {w₁ w₂ w₃ t w₄ u : Bytes}
      (hw₁ : Ws w₁) (hname : Chars name raw) (hw₂ : Ws w₂) (hw₃ : Ws w₃) (h : Text (.value v) t)
      (hw₄ : Ws w₄) (hms : Text (.members ms) u) : Text (.members (⟨name, v, t⟩ :: ms))
        (w₁ ++ 34 :: (raw ++ 34 :: (w₂ ++ 58 :: (w₃ ++ (t ++ (w₄ ++ 44 :: u))))))

def Members (s : Bytes) (ms : List Written) : Prop :=
  ∃ w t w', Ws w ∧ (Text (.members ms) t ∨ Ws t ∧ ms = []) ∧ Ws w' ∧
    s = w ++ 123 :: (t ++ 125 :: w')

def Member (s name : Bytes) (v : Value) : Prop := ∃ ms t, Members s ms ∧ ⟨name, v, t⟩ ∈ ms

def Value.int : Value → Option ℤ
  | .number t =>
    let ds := if t.head? = some 45 then t.tail else t
    let n : ℕ := ds.foldl (fun n c => n * 10 + (c.toNat - 48)) 0
    if ds.all isDigit then some (if t.head? = some 45 then -n else n) else none
  | _ => none

lemma Text.of_mem {ms : List Written} {t : Bytes} (h : Text (.members ms) t) :
    ∀ m ∈ ms, Text (.value m.value) m.text := by
  generalize hp : Phrase.members ms = p at h
  induction h generalizing ms with
  | lastMember _ _ _ _ h =>
    cases hp
    intro m hm
    rw [mem_singleton] at hm
    rw [hm]
    exact h
  | member _ _ _ _ h _ _ _ ih =>
    cases hp
    intro m hm
    rcases mem_cons.1 hm with rfl | hm
    · exact h
    · exact ih rfl m hm
  | _ => cases hp

lemma Members.text {s : Bytes} {ms : List Written} (h : Members s ms) :
    ∀ m ∈ ms, Text (.value m.value) m.text := by
  obtain ⟨w, t, w', -, ht | ⟨-, rfl⟩, -, -⟩ := h
  · exact ht.of_mem
  · intro m hm
    cases hm

/-- The member is written somewhere in the text. -/
def Written.In (m : Written) (s : Bytes) : Prop :=
  ∃ a raw w₁ w₂ w₃ e b, s = a ++ 34 ::
    (raw ++ 34 :: (w₁ ++ 58 :: (w₂ ++ (m.text ++ (w₃ ++ e :: b))))) ∧
    Chars m.name raw ∧ Ws w₁ ∧ Ws w₂ ∧ Ws w₃ ∧ (e = 44 ∨ e = 125)

lemma Written.In.append {m : Written} {s : Bytes} (h : m.In s) (a : Bytes) : m.In (a ++ s) := by
  obtain ⟨a', raw, w₁, w₂, w₃, e, b, rfl, h⟩ := h
  exact ⟨a ++ a', raw, w₁, w₂, w₃, e, b, by simp, h⟩

lemma Text.written {ms : List Written} {t : Bytes} (h : Text (.members ms) t) (b : Bytes) :
    ∀ m ∈ ms, m.In (t ++ 125 :: b) := by
  generalize hp : Phrase.members ms = p at h
  induction h generalizing ms with
  | @lastMember name raw v w₁ w₂ w₃ t w₄ _ hname hw₂ hw₃ _ hw₄ =>
    cases hp
    intro m hm
    rw [mem_singleton.1 hm]
    exact ⟨w₁, raw, w₂, w₃, w₄, 125, b, by simp, hname, hw₂, hw₃, hw₄, .inr rfl⟩
  | @member name raw v ms w₁ w₂ w₃ t w₄ u _ hname hw₂ hw₃ _ hw₄ _ _ ih =>
    cases hp
    intro m hm
    rcases mem_cons.1 hm with rfl | hm
    · exact ⟨w₁, raw, w₂, w₃, w₄, 44, u ++ 125 :: b, by simp, hname, hw₂, hw₃, hw₄, .inl rfl⟩
    · have h := (ih rfl m hm).append (w₁ ++ 34 ::
        (raw ++ 34 :: (w₂ ++ 58 :: (w₃ ++ (t ++ (w₄ ++ [44]))))))
      simpa using h
  | _ => cases hp

lemma Members.written {s : Bytes} {ms : List Written} (h : Members s ms) : ∀ m ∈ ms, m.In s := by
  obtain ⟨w, t, w', -, ht | ⟨-, rfl⟩, -, rfl⟩ := h
  · intro m hm
    have h := (ht.written w' m hm).append (w ++ [123])
    rw [append_assoc] at h
    exact h
  · intro m hm
    cases hm

lemma le_of_hexDigit {c : UInt8} {n : ℕ} (h : hexDigit c = some n) : 32 ≤ c := by
  unfold hexDigit at h
  split_ifs at h with h₁ h₂ h₃
  all_goals
    simp only [Bool.and_eq_true, decide_eq_true_eq] at *
    grind

lemma le_of_shortEscape {e c : UInt8} (h : shortEscape e = some c) : 32 ≤ e := by
  by_contra hlt
  unfold shortEscape at h
  simp only [Bool.or_eq_true, beq_iff_eq] at h
  grind

namespace Chars

variable {x raw : Bytes}

lemma self (h : ∀ c ∈ x, 32 ≤ c ∧ c ≠ 34 ∧ c ≠ 92) : Chars x x := by
  induction x with
  | nil => exact .nil
  | cons c x ih =>
    rw [forall_mem_cons] at h
    exact .plain h.1.1 h.1.2.1 h.1.2.2 (ih h.2)

lemma le_of_mem_raw (h : Chars x raw) : ∀ c ∈ raw, 32 ≤ c := by
  induction h with
  | nil => simp
  | plain hc _ _ _ ih => exact forall_mem_cons.2 ⟨hc, ih⟩
  | short he _ ih =>
    exact forall_mem_cons.2 ⟨by decide, forall_mem_cons.2 ⟨le_of_shortEscape he, ih⟩⟩
  | unicode ha hb hc hd _ ih =>
    simp only [forall_mem_cons]
    exact ⟨by decide, by decide, le_of_hexDigit ha, le_of_hexDigit hb, le_of_hexDigit hc,
      le_of_hexDigit hd, ih⟩

lemma eq_raw (h : Chars x raw) (hback : 92 ∉ raw) : x = raw ∧ 34 ∉ x := by
  induction h with
  | nil => simp
  | plain _ hquo _ _ ih =>
    obtain ⟨rfl, hnot⟩ := ih fun hmem => hback (mem_cons_of_mem _ hmem)
    exact ⟨rfl, by simp [hquo.symm, hnot]⟩
  | short | unicode => exact absurd mem_cons_self hback

lemma mem_of_mem_raw (h : Chars x raw) {c : UInt8} (hback : c ≠ 92) (hu : c ≠ 117)
    (hshort : shortEscape c = none) (hhex : hexDigit c = none) (hc : c ∈ raw) : c ∈ x := by
  induction h with
  | nil => exact hc
  | plain _ _ _ _ ih =>
    rcases mem_cons.1 hc with rfl | hc
    · exact mem_cons_self
    · exact mem_cons_of_mem _ (ih hc)
  | short he _ ih =>
    rcases mem_cons.1 hc with rfl | hc
    · exact absurd rfl hback
    rcases mem_cons.1 hc with rfl | hc
    · rw [hshort] at he
      cases he
    · exact mem_cons_of_mem _ (ih hc)
  | unicode ha hb hc' hd _ ih =>
    simp only [mem_cons] at hc
    have hne {d : UInt8} {n : ℕ} (h : hexDigit d = some n) : c ≠ d := by
      rintro rfl
      rw [hhex] at h
      cases h
    refine mem_append_right _ (ih ?_)
    simpa [hback, hu, hne ha, hne hb, hne hc', hne hd] using hc

end Chars

end JsonText
