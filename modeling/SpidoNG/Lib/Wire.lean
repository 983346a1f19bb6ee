import SpidoNG.Lib.LittleEndian

/-!
# Wire formats

Readers take a value off the front of a byte string, or refuse.
-/

def Reader (α : Type) := Bytes → Option (α × Bytes)

namespace Wire

def putBE (n v : ℕ) : Bytes := (LittleEndian.putLE n v).reverse

@[simp] lemma length_putBE (n v : ℕ) : (putBE n v).length = n := by simp [putBE]

end Wire

namespace Reader

variable {α β : Type}

instance : Monad Reader where
  pure a := fun bs => some (a, bs)
  bind r f := fun bs => (r bs).bind fun p => f p.1 p.2

def fail : Reader α := fun _ => none

def take (n : ℕ) : Reader Bytes := fun bs =>
  if bs.length < n then none else some (bs.take n, bs.drop n)

def word (n : ℕ) : Reader ℕ := do return LittleEndian.getLE (← take n).reverse

def int (n : ℕ) : Reader ℤ := do return Int.bmod (← word n) (256 ^ n)

def cstring : Reader Bytes
  | [] => none
  | b :: bs => if b = 0 then some ([], bs) else (cstring bs).map fun p => (b :: p.1, p.2)

def times (r : Reader α) : ℕ → Reader (List α)
  | 0 => pure []
  | n + 1 => do return (← r) :: (← times r n)

def all (r : Reader α) (bs : Bytes) : Option α :=
  (r bs).bind fun p => if p.2 = [] then some p.1 else none

def Reads (r : Reader α) (u : Bytes) (a : α) : Prop := ∀ rest, r (u ++ rest) = some (a, rest)

lemma Reads.pure (a : α) : Reads (pure a) [] a := fun _ => rfl

variable {a : α} {r : Reader α} {P : α → Prop} {f : α → Reader β} {u : Bytes}

lemma Reads.bind {v : Bytes} {b : β}
    (h : Reads r u a) (hf : Reads (f a) v b) : Reads (r >>= f) (u ++ v) b := by
  intro rest
  show (r (u ++ v ++ rest)).bind (fun p => f p.1 p.2) = some (b, rest)
  rw [List.append_assoc, h]
  exact hf rest

lemma Reads.map (h : Reads r u a) (f : α → β) : Reads (r >>= fun x => Pure.pure (f x)) u (f a) := by
  rw [← List.append_nil u]
  exact h.bind (.pure _)

lemma Reads.all (h : Reads r u a) : r.all u = some a := by
  have hu := h []
  rw [List.append_nil] at hu
  simp [Reader.all, hu]

lemma reads_take (u : Bytes) : Reads (take u.length) u u := by
  intro rest
  simp [take]

lemma reads_word {n v : ℕ} (h : v < 256 ^ n) : Reads (word n) (Wire.putBE n v) v := by
  have htake := reads_take (Wire.putBE n v)
  rw [Wire.length_putBE] at htake
  have hv : LittleEndian.getLE (Wire.putBE n v).reverse = v := by
    rw [Wire.putBE, List.reverse_reverse, LittleEndian.getLE_putLE_of_lt h]
  have hw := htake.map fun u => LittleEndian.getLE u.reverse
  rw [hv] at hw
  exact hw

lemma reads_int {n v : ℕ} (h : v < 256 ^ n) :
    Reads (int n) (Wire.putBE n v) (Int.bmod v (256 ^ n)) :=
  (reads_word h).map fun w => Int.bmod w (256 ^ n)

lemma reads_cstring (h : (0 : UInt8) ∉ u) : Reads cstring (u ++ [0]) u := by
  induction u with
  | nil => intro rest; simp [cstring]
  | cons b u ih =>
    intro rest
    have hb : b ≠ 0 := by rintro rfl; simp at h
    have hu : (0 : UInt8) ∉ u := fun hm => h (by simp [hm])
    simp only [List.cons_append, cstring, if_neg hb, ih hu rest, Option.map_some]

lemma reads_times {r : Reader β} {put : α → Bytes} {view : α → β} {as : List α}
    (h : ∀ a ∈ as, Reads r (put a) (view a)) :
    Reads (times r as.length) (as.flatMap put) (as.map view) := by
  induction as with
  | nil => exact .pure []
  | cons a _ ih =>
    refine (h a (by simp)).bind ?_
    exact (ih fun b hb => h b (by simp [hb])).map fun bs => view a :: bs

def Yields (r : Reader α) (P : α → Prop) : Prop := ∀ bs a rest, r bs = some (a, rest) → P a

lemma Yields.pure (h : P a) : Yields (pure a : Reader α) P := by
  intro bs b rest hb
  cases hb
  exact h

lemma Yields.bind {Q : β → Prop}
    (h : Yields r P) (hf : ∀ a, P a → Yields (f a) Q) : Yields (r >>= f) Q := by
  intro bs b rest hb
  obtain ⟨⟨a, bs'⟩, ha, hb⟩ := Option.bind_eq_some_iff.1 hb
  exact hf a (h _ _ _ ha) _ _ _ hb

lemma Yields.true (r : Reader α) : Yields r fun _ => True := fun _ _ _ _ => trivial

lemma Yields.fail : Yields (fail : Reader α) P := by
  intro bs a rest h
  cases h

lemma Yields.of_all (h : Yields r P) {bs : Bytes} (ha : r.all bs = some a) : P a := by
  obtain ⟨⟨b, rest⟩, hb, hif⟩ := Option.bind_eq_some_iff.1 ha
  split_ifs at hif
  cases hif
  exact h _ _ _ hb

lemma yields_take (n : ℕ) : Yields (take n) fun u => u.length = n := by
  intro bs u rest h
  unfold take at h
  split_ifs at h with hlen
  cases h
  simpa using hlen

lemma yields_word (n : ℕ) : Yields (word n) (· < 256 ^ n) := by
  refine (yields_take n).bind ?_
  intro u hu
  refine .pure ?_
  have := LittleEndian.getLE_lt u.reverse
  rwa [List.length_reverse, hu] at this

lemma yields_times (r : Reader α) (n : ℕ) : Yields (times r n) fun as => as.length = n := by
  induction n with
  | zero => exact .pure rfl
  | succ n ih =>
    refine (Yields.true r).bind fun a _ => ih.bind fun as has => .pure ?_
    rw [List.length_cons, has]

end Reader
