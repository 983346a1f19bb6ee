import SpidoNG.Service.JsonReading

/-!
# What the writers write, `JsonBody` reads back

`emit_json_str` and `write_json_string` escape a string, and an object is put together from their
texts with any whitespace between its tokens.
-/

namespace SpidoNG.Service

open Bytes JsonText List

def Escaping (c : UInt8) : Prop :=
  (c = 34 ∨ c = 92 ∨ c = 10 ∨ c = 13 ∨ c = 9 ∨ c = 8 ∨ c = 12) ∨
  (escapeChar c = str "\\u00" ++ [hexChar (c.toNat / 16), hexChar (c.toNat % 16)] ∧
    hexDigit (hexChar (c.toNat / 16)) = some (c.toNat / 16) ∧
    hexDigit (hexChar (c.toNat % 16)) = some (c.toNat % 16) ∧ JsonText.encode c.toNat = [c]) ∨
  (32 ≤ c ∧ c ≠ 34 ∧ c ≠ 92 ∧ escapeChar c = [c])

instance (c : UInt8) : Decidable (Escaping c) := inferInstanceAs (Decidable (_ ∨ _ ∨ _))

lemma chars_escapeChar (c : UInt8) {x raw : Bytes} (h : Chars x raw) :
    Chars (c :: x) (escapeChar c ++ raw) := by
  have hcases : Escaping c := by
    have hall : ∀ n < 256, Escaping (UInt8.ofNat n) := by decide +kernel
    have hc := hall c.toNat c.toNat_lt
    rwa [UInt8.ofNat_toNat] at hc
  rcases hcases with hshort | ⟨hesc, hhigh, hlow, hutf8⟩ | ⟨hle, hquo, hback, hesc⟩
  · rcases hshort with rfl | rfl | rfl | rfl | rfl | rfl | rfl <;> exact .short rfl h
  · have hzero : hexDigit 48 = some 0 := rfl
    have hunc := Chars.unicode hzero hzero hhigh hlow h
    rw [show ((0 * 16 + 0) * 16 + c.toNat / 16) * 16 + c.toNat % 16 = c.toNat by omega,
      hutf8] at hunc
    rw [hesc]
    exact hunc
  · rw [hesc]
    exact .plain hle hquo hback h

lemma chars_escape (x : Bytes) : Chars x (x.flatMap escapeChar) := by
  induction x with
  | nil => exact .nil
  | cons c x ih => exact chars_escapeChar c ih

/-- `write_json_string` escapes as `emit_json_str` does. -/
def writeJsonString : Bytes → Bytes := emitJsonStr

lemma parseString_emitJsonStr (x s : Bytes) : parseString (emitJsonStr x ++ s) = some (x, s) := by
  rw [emitJsonStr, cons_append, append_assoc]
  exact parseString_chars (chars_escape x) s

/-- A member of an object with the whitespace around its tokens. -/
structure Padded where
  name : Bytes
  value : Option Bytes
  space : Fin 4 → Bytes
  blank : ∀ i, Ws (space i)

namespace Padded

def valueText : Option Bytes → Bytes
  | some x => emitJsonStr x
  | none => str "null"

def text (m : Padded) : Bytes :=
  m.space 0 ++ (writeJsonString m.name ++
    (m.space 1 ++ 58 :: (m.space 2 ++ (valueText m.value ++ m.space 3))))

def written (m : Padded) : Written :=
  ⟨m.name, m.value.elim .null .string, valueText m.value⟩

lemma text_value (m : Padded) : Text (.value m.written.value) (valueText m.value) := by
  unfold written
  cases m.value with
  | none => exact .null
  | some x => exact .string (chars_escape x)

lemma text_members {m : Padded} {ms : List Padded} :
    Text (.members ((m :: ms).map written)) (commaSeparated ((m :: ms).map text)) := by
  have htext (m : Padded) (s : Bytes) : m.text ++ s = m.space 0 ++ 34 ::
    (m.name.flatMap escapeChar ++
      34 :: (m.space 1 ++ 58 :: (m.space 2 ++ (valueText m.value ++ (m.space 3 ++ s))))) := by
    simp [text, writeJsonString, emitJsonStr, quote]
  induction ms generalizing m with
  | nil =>
    have hlast := Text.lastMember (m.blank 0) (chars_escape m.name) (m.blank 1) (m.blank 2)
      m.text_value
      (m.blank 3)
    have hone : commaSeparated [m.text] = m.text ++ [] := by simp [commaSeparated]
    rw [← append_nil (m.space 3), ← htext, ← hone] at hlast
    exact hlast
  | cons m' ms ih =>
    have hmore := Text.member (m.blank 0) (chars_escape m.name) (m.blank 1) (m.blank 2) m.text_value
      (m.blank 3) (ih (m := m'))
    rw [← htext] at hmore
    exact hmore

lemma field_written (m : Padded) : JsonBody.field m.written = m.value.map (m.name, ·) := by
  unfold written
  cases m.value <;> rfl

end Padded

/-- The object of some members, between `w` and `w'`; `inner` stands in an object without
members. -/
def renderObject (w inner w' : Bytes) (ms : List Padded) : Bytes :=
  w ++ openBrace ::
    ((if ms = [] then inner else commaSeparated (ms.map Padded.text)) ++ closeBrace :: w')

lemma members_renderObject {w inner w' : Bytes} (hw : Ws w) (hinner : Ws inner) (hw' : Ws w')
    (ms : List Padded) : Members (renderObject w inner w' ms) (ms.map Padded.written) := by
  refine ⟨w, _, w', hw, ?_, hw', rfl⟩
  cases ms with
  | nil => exact .inr ⟨hinner, rfl⟩
  | cons => exact .inl Padded.text_members

lemma get_eq_some_iff {ms : List Padded} (hnodup : (ms.map (·.name)).Nodup) (k x : Bytes) :
    ((ms.map Padded.written).foldl JsonBody.add {}).get k = some x ↔
      ∃ m ∈ ms, m.name = k ∧ m.value = some x := by
  have hfields (p : Bytes × Bytes) : p ∈ ((ms.map Padded.written).foldl JsonBody.add {}).fields ↔
      ∃ m ∈ ms, m.name = p.1 ∧ m.value = some p.2 := by
    rw [JsonBody.fields_foldl_add, nil_append, filterMap_map, mem_filterMap]
    simp only [Function.comp, Padded.field_written, Option.map_eq_some_iff, Prod.ext_iff]
    grind
  unfold JsonBody.get
  rw [Option.map_eq_some_iff]
  constructor
  · rintro ⟨p, hp, rfl⟩
    obtain ⟨m, hm, hname, hvalue⟩ := (hfields p).1 (mem_of_find?_eq_some hp)
    exact ⟨m, hm, hname.trans (by simpa using find?_some hp), hvalue⟩
  · rintro ⟨m, hm, rfl, hvalue⟩
    have hin := (hfields (m.name, x)).2 ⟨m, hm, rfl, hvalue⟩
    obtain ⟨p, hp⟩ := Option.isSome_iff_exists.1
      (find?_isSome (p := fun q => q.1 == m.name) |>.2 ⟨_, hin, beq_self_eq_true m.name⟩)
    -- the first field with the name is the member's, for no other member has it
    obtain ⟨m', hm', hname, hvalue'⟩ := (hfields p).1 (mem_of_find?_eq_some hp)
    have hsame := inj_on_of_nodup_map hnodup hm' hm (hname.trans (by simpa using find?_some hp))
    rw [hsame, hvalue] at hvalue'
    exact ⟨p, hp, (Option.some.inj hvalue').symm⟩

theorem json_round_trip : (∀ x s : Bytes, parseString (emitJsonStr x ++ s) = some (x, s) ∧
      parseString (writeJsonString x ++ s) = some (x, s)) ∧
    ∀ (w inner w' : Bytes) (ms : List Padded), Ws w → Ws inner → Ws w' → (ms.map (·.name)).Nodup →
      ∃ b, JsonBody.parse (renderObject w inner w' ms) = some b ∧
        (∀ k x, b.get k = some x ↔ ∃ m ∈ ms, m.name = k ∧ m.value = some x) ∧
        ∀ k, b.isNull k = true ↔ ∃ m ∈ ms, m.name = k ∧ m.value = none := by
  refine ⟨fun x s => ⟨parseString_emitJsonStr x s, parseString_emitJsonStr x s⟩, ?_⟩
  intro w inner w' ms hw hinner hw' hnodup
  refine ⟨_, JsonBody.parse_members (members_renderObject hw hinner hw' ms),
    get_eq_some_iff hnodup, fun k => ?_⟩
  rw [JsonBody.isNull, JsonBody.nulls_foldl_add, nil_append, contains_iff_mem]
  rw [filter_map, map_map, mem_map]
  simp only [mem_filter, Function.comp, Padded.field_written, Option.isNone_map,
    Option.isNone_iff_eq_none]
  exact ⟨fun ⟨m, ⟨hm, hvalue⟩, hname⟩ => ⟨m, hm, hname, hvalue⟩,
    fun ⟨m, hm, hname, hvalue⟩ => ⟨m, ⟨hm, hvalue⟩, hname⟩⟩

def note : Padded :=
  ⟨str "note", some [34, 0, 92, 255], fun _ => [10], fun _ => by simp [Ws, JsonText.isWs]⟩

def missing : Padded := ⟨str "missing", none, fun _ => [], fun _ => nofun⟩

theorem json_round_trip_note : ∃ b, JsonBody.parse (renderObject [] [] [] [note, missing])
    = some b ∧
    b.get (str "note") = some [34, 0, 92, 255] ∧ b.isNull (str "missing") = true := by
  obtain ⟨b, hparse, hget, hnull⟩ := json_round_trip.2 [] [] [] [note, missing] nofun nofun nofun
    (by decide +kernel)
  exact ⟨b, hparse, (hget _ _).2 ⟨note, mem_cons_self, rfl, rfl⟩,
    (hnull _).2 ⟨missing, mem_cons_of_mem _ mem_cons_self, rfl, rfl⟩⟩

end SpidoNG.Service
