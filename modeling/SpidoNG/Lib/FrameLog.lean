import SpidoNG.Lib.Bytes

/-!
# Framed logs

A log is a concatenation of frames, read back from the front by a decoder that says how long the
frame is.
-/

namespace FrameLog

open List

structure Codec (α β : Type) where
  enc : α → Bytes
  dec : Bytes → Option (β × ℕ)
  view : α → β
  Valid : α → Prop
  enc_ne_nil : ∀ a, enc a ≠ []
  dec_enc : ∀ {a}, Valid a → ∀ rest, dec (enc a ++ rest) = some (view a, (enc a).length)
  dec_nil : dec [] = none
  dec_torn : ∀ {a}, Valid a → ∀ {xs ys}, enc a = xs ++ ys → ys ≠ [] → dec xs = none

variable {α β : Type} (c : Codec α β)

def frames (as : List α) : Bytes := as.flatMap c.enc

def Torn (xs : Bytes) : Prop := xs = [] ∨ ∃ a ys, c.Valid a ∧ c.enc a = xs ++ ys ∧ ys ≠ []

def scanFor : ℕ → ℕ → Bytes → List (ℕ × β) × ℕ
  | 0, off, _ => ([], off)
  | n + 1, off, xs =>
    match c.dec xs with
    | none => ([], off)
    | some (b, k) =>
      let r := scanFor n (off + k) (xs.drop k)
      ((off, b) :: r.1, r.2)

def positions : ℕ → List α → List (ℕ × α)
  | _, [] => []
  | off, a :: as => (off, a) :: positions (off + (c.enc a).length) as

variable {c}

@[simp] lemma frames_nil : frames c [] = [] := rfl

@[simp] lemma frames_cons (a : α) (as : List α) : frames c (a :: as) = c.enc a ++ frames c as := rfl

@[simp] lemma frames_append (as bs : List α) : frames c (as ++ bs) = frames c as ++
    frames c bs := by
  simp [frames]

lemma Torn.nil : Torn c [] := .inl rfl

variable {xs torn : Bytes}

lemma Torn.of_append {ys : Bytes} (h : Torn c (xs ++ ys)) : Torn c xs := by
  rcases h with hnil | ⟨a, zs, hv, ha, hzs⟩
  · exact .inl (append_eq_nil_iff.1 hnil).1
  · exact .inr ⟨a, ys ++ zs, hv, by rw [ha, append_assoc], by simp [hzs]⟩

lemma Torn.take (h : Torn c xs) (n : ℕ) : Torn c (xs.take n) :=
  @Torn.of_append _ _ c _ (xs.drop n) (by rwa [take_append_drop])

lemma Torn.dec_eq_none (h : Torn c xs) : c.dec xs = none := by
  rcases h with rfl | ⟨a, ys, hv, ha, hys⟩
  · exact c.dec_nil
  · exact c.dec_torn hv ha hys

lemma map_snd_positions (off : ℕ) (as : List α) : (positions c off as).map (·.2) = as := by
  induction as generalizing off with
  | nil => rfl
  | cons _ _ ih => simp [positions, ih]

lemma length_le_frames (as : List α) : as.length ≤ (frames c as).length := by
  induction as with
  | nil => simp
  | cons a =>
    have := length_pos_iff.2 (c.enc_ne_nil a)
    simp
    omega

lemma scan_frames {as : List α} (hv : ∀ a ∈ as, c.Valid a) (ht : Torn c torn)
    {n off : ℕ} (hn : as.length < n) : scanFor c n off (frames c as ++ torn) =
      ((positions c off as).map fun p => (p.1, c.view p.2), off + (frames c as).length) := by
  induction as generalizing n off with
  | nil =>
    obtain ⟨n, rfl⟩ : ∃ k, n = k + 1 := ⟨n - 1, by simp at hn; omega⟩
    simp [scanFor, ht.dec_eq_none, positions]
  | cons a as ih =>
    obtain ⟨n, rfl⟩ : ∃ k, n = k + 1 := ⟨n - 1, by simp at hn; omega⟩
    have hdec := c.dec_enc (hv a (by simp)) (frames c as ++ torn)
    rw [frames_cons, append_assoc, scanFor, hdec]
    simp only [drop_left]
    rw [ih (fun b hb => hv b (by simp [hb])) (by simpa using hn)]
    simp [positions, Nat.add_assoc]

lemma cut_frames {as : List α} (hv : ∀ a ∈ as, c.Valid a) (ht : Torn c torn)
    (k : ℕ) : ∃ as1 as2 torn', as = as1 ++ as2 ∧ Torn c torn' ∧
      (frames c as ++ torn).take k = frames c as1 ++ torn' ∧ (frames c as1).length ≤ k ∧
      ∀ a as3, as2 = a :: as3 → k < (frames c (as1 ++ [a])).length := by
  induction as generalizing k with
  | nil => exact ⟨[], [], torn.take k, rfl, ht.take k, by simp, by simp, by simp⟩
  | cons a as ih =>
    by_cases hk : k < (c.enc a).length
    · refine ⟨[], a :: as, (c.enc a).take k, rfl, ?_, ?_, by simp, ?_⟩
      · exact .inr ⟨a, (c.enc a).drop k, hv a (by simp), (take_append_drop _ _).symm,
          length_pos_iff.1 (by simp; omega)⟩
      · rw [frames_cons, append_assoc, take_append_of_le_length hk.le]
        rfl
      · rintro b as3 hb
        cases hb
        simpa using hk
    · obtain ⟨as1, as2, torn', rfl, ht', htake, hle, hnext⟩ :=
        ih (fun b hb => hv b (by simp [hb])) (k - (c.enc a).length)
      refine ⟨a :: as1, as2, torn', rfl, ht', ?_, ?_, ?_⟩
      · rw [frames_cons, append_assoc, take_append, take_of_length_le (by omega),
          htake, frames_cons, append_assoc]
      · simp
        omega
      · intro b as3 hb
        have := hnext b as3 hb
        simp at this ⊢
        omega

lemma prefix_of_cut {as1 as2 bs cs : List α} {k : ℕ} (heq : bs ++ cs = as1 ++ as2)
    (hk : (frames c bs).length ≤ k)
    (hnext : ∀ a as3, as2 = a :: as3 → k < (frames c (as1 ++ [a])).length) : bs <+: as1 := by
  obtain ⟨ds, hds, -⟩ | ⟨ds, hds, has⟩ := append_eq_append_iff.1 heq
  · exact ⟨ds, hds.symm⟩
  · cases ds with
    | nil => exact ⟨[], by rw [hds, append_nil, append_nil]⟩
    | cons a ds =>
      have := hnext a (ds ++ cs) has
      rw [hds] at hk
      simp at hk this
      omega

end FrameLog
