import SpidoNG.Cache.L1
import SpidoNG.Lib.Probing
import SpidoNG.Lib.Runs

/-!
# The latest value in a thread's own table

A slot has room for 80 bytes of a key, and what it stores of a longer one is a key of its own.
-/

namespace SpidoNG.Cache

open Bytes List Option Function Probing

variable {V : Type}

namespace L1

inductive Call (V : Type)
  | put (key : Bytes) (v : ValuePtr V) (expires : ℕ)
  | findRaw (key : Bytes)
  | clear

/-- A table, and what was put last under each key since it was cleared. -/
structure Noted (V : Type) where
  table : L1 V
  last : Bytes → Option (ValuePtr V) := fun _ => none

namespace Noted

def start (cap : ℕ) : Noted V := { table := L1.empty.init cap }

def call (x : Noted V) : Call V → Noted V
  | .put key v expires => ⟨x.table.put key v expires, update x.last key (some v)⟩
  | .findRaw key => ⟨(x.table.findRaw key).2, x.last⟩
  | .clear => ⟨x.table.clear, fun _ => none⟩

def run (x : Noted V) (calls : List (Call V)) : Noted V := calls.foldl call x

def Latest (x : Noted V) : Prop := ∀ key v, (x.table.findRaw key).1 = some v → x.last key = some v

def Fits : Call V → Prop
  | .put key _ _ => key.length ≤ kKeyMax
  | _ => True

end Noted

def marks (l : L1 V) (i : ℕ) : Option (L1Entry V) :=
  (l.slots i).map fun e => { e with lastUsed := 0 }

/-- Every key is in one slot, where a search finds it, with the value put last. -/
structure Kept (last : Bytes → Option (ValuePtr V)) (probes : Bytes → List ℕ)
    (t : ℕ → Option (L1Entry V)) : Prop where
  placed : Placed L1Entry.key probes t
  reached : Reached L1Entry.key probes t
  hash : ∀ {i e}, t i = some e → e.hash = l1Hash e.key
  value : ∀ {i e}, t i = some e → last e.key = some e.value

variable {l : L1 V} {key : Bytes} {v : ValuePtr V} {last : Bytes → Option (ValuePtr V)}
  {probes : Bytes → List ℕ} {t : ℕ → Option (L1Entry V)} {i j expires : ℕ} {e : L1Entry V}

lemma kept_empty : Kept last probes (fun _ => none : ℕ → Option (L1Entry V)) where
  placed := ⟨fun he => (by cases he), fun he => (by cases he)⟩
  reached _ _ he := by cases he
  hash he := by cases he
  value he := by cases he

lemma Kept.latest (h : Kept last l.probes l.marks) (hfind : (l.findRaw key).1 = some v) :
    last key = some v := by
  obtain ⟨i, e, he, rfl, rfl⟩ := holds_of_findRaw hfind
  exact h.value (i := i) (e := { e with lastUsed := 0 }) (by rw [marks, he]; rfl)

lemma probes_findRaw (l : L1 V) (key : Bytes) : (l.findRaw key).2.probes = l.probes := by
  unfold findRaw
  split_ifs
  · rfl
  · split <;> rfl

lemma marks_findRaw (l : L1 V) (key : Bytes) : (l.findRaw key).2.marks = l.marks := by
  funext i
  unfold findRaw
  split_ifs
  · rfl
  · split
    · rfl
    case h_2 j _ =>
      dsimp only [marks]
      by_cases hij : i = j
      · rw [hij, update_self, Option.map_map]
        rfl
      · rw [update_of_ne hij]

def takes (l : L1 V) (key : Bytes) (i : ℕ) : Bool := (l.marks i).all fun e => L1Entry.matches e key

lemma free_eq_find? (l : L1 V) (key : Bytes) (js : List ℕ) :
    l.free key js = js.find? (l.takes key) := by
  induction js with
  | nil => rfl
  | cons a js ih =>
    rw [free, find?_cons, ih, takes, marks]
    cases l.slots a with
    | none => rfl
    | some e =>
      show (if L1Entry.matches e key then _ else _) = match L1Entry.matches e key with
        | true => _
        | false => _
      cases L1Entry.matches e key <;> rfl

lemma oldest_mem (l : L1 V) (i : ℕ) (js : List ℕ) : l.oldest i js ∈ i :: js := by
  induction js generalizing i with
  | nil => exact mem_cons_self
  | cons a js ih =>
    have hstep := ih (if ((l.slots a).map L1Entry.lastUsed).getD 0 <
      ((l.slots i).map L1Entry.lastUsed).getD 0 then a else i)
    rcases mem_cons.1 hstep with heq | hmem
    · rw [oldest, foldl_cons, ← oldest, heq]
      split_ifs <;> simp
    · exact mem_cons_of_mem _ (mem_cons_of_mem _ hmem)

lemma Kept.overwrite (h : Kept last probes t) (hhash : e.hash = l1Hash e.key)
    (hmem : j ∈ probes e.key) (hreach : Reaches t j (probes e.key))
    (honly : ∀ i, Probing.Holds L1Entry.key t e.key i → i = j) :
    Kept (update last e.key (some e.value)) probes (update t j (some e)) := by
  have hcases {i : ℕ} {x : L1Entry V} (hx : update t j (some e) i = some x) :
      x = e ∨ x.key ≠ e.key ∧ t i = some x := by
    by_cases hi : i = j
    · rw [hi, update_self] at hx
      exact .inl (some.inj hx).symm
    · rw [update_of_ne hi] at hx
      exact .inr ⟨fun hk => hi (honly i ⟨x, hx, hk⟩), hx⟩
  refine ⟨h.placed.fill hmem honly, h.reached.update hreach, fun {i x} hx => ?_, fun {i x} hx => ?_⟩
  · rcases hcases hx with rfl | ⟨-, hx⟩
    · exact hhash
    · exact h.hash hx
  · rcases hcases hx with rfl | ⟨hne, hx⟩
    · exact update_self ..
    · rw [update_of_ne hne]
      exact h.value hx

def victim (l : L1 V) (key : Bytes) : ℕ :=
  (l.free key (l.probes key)).getD (l.oldest ((l1Hash key).toNat % l.size) (l.probes key).tail)

/-- The slot that `put` takes is reached, and no other slot has the key. -/
lemma Kept.victim (h : Kept last l.probes l.marks) (key : Bytes) :
    l.victim key ∈ l.probes key ∧ Reaches l.marks (l.victim key) (l.probes key) ∧
      ∀ i, Probing.Holds L1Entry.key l.marks key i → i = l.victim key := by
  have htakes {i : ℕ} (hi : Probing.Holds L1Entry.key l.marks key i) : l.takes key i := by
    obtain ⟨e, he, rfl⟩ := hi
    simp [takes, he, L1Entry.matches, h.hash he]
  have hsome (i : ℕ) (hi : l.takes key i = false) : (l.marks i).isSome := by
    unfold takes at hi
    cases hm : l.marks i with
    | none =>
      rw [hm] at hi
      cases hi
    | some => rfl
  rw [L1.victim, free_eq_find?]
  cases hfree : (l.probes key).find? (l.takes key) with
  | some j =>
    refine ⟨mem_of_find?_eq_some hfree, reaches_of_find? hsome hfree, fun i hi => ?_⟩
    have hreach : Reaches l.marks i (l.probes key) := by
      obtain ⟨e, he, rfl⟩ := hi
      exact h.reached i e he
    rcases hreach.find? (htakes hi) hfree with hij | hj
    · exact hij
    · obtain ⟨e, he⟩ := isSome_iff_exists.1 hj
      have hmatch := find?_some hfree
      simp only [takes, he, all_some, L1Entry.matches, Bool.and_eq_true,
        decide_eq_true_eq] at hmatch
      exact h.placed.eq_of_holds hi ⟨e, he, hmatch.2⟩
  | none =>
    have hmem := l.oldest_mem ((l1Hash key).toNat % l.size) (l.probes key).tail
    have hfull := find?_eq_none.1 hfree
    refine ⟨hmem, reaches_of_forall hmem fun i hi => hsome i (Bool.eq_false_iff.2 (hfull i hi)), ?_⟩
    exact fun i hi => absurd (htakes hi) (hfull i (h.placed.mem_window_of_holds hi))

lemma marks_update (l : L1 V) (j n : ℕ) (e : L1Entry V) :
    ({ l with slots := update l.slots j (some e), counter := n } : L1 V).marks
      = update l.marks j (some { e with lastUsed := 0 }) := by
  funext i
  dsimp only [marks]
  by_cases hij : i = j
  · rw [hij, update_self, update_self]
    rfl
  · rw [update_of_ne hij, update_of_ne hij]
    rfl

lemma Kept.put (h : Kept last l.probes l.marks) (hsize : l.size ≠ 0) (hkey : key.length ≤ kKeyMax) :
    Kept (update last key (some v)) (l.put key v expires).probes (l.put key v expires).marks := by
  obtain ⟨hmem, hreach, honly⟩ := h.victim key
  rw [L1.put, if_neg hsize, marks_update, take_of_length_le hkey]
  exact h.overwrite (e := ⟨key, v, expires, 0, l1Hash key⟩) rfl hmem hreach honly

namespace Noted

structure Inv (x : Noted V) : Prop where
  size : x.table.size ≠ 0
  kept : Kept x.last x.table.probes x.table.marks

lemma inv_start (cap : ℕ) : (start cap : Noted V).Inv where
  size := (Nat.pos_of_isPowerOfTwo (Nat.isPowerOfTwo_nextPowerOfTwo cap)).ne'
  kept := kept_empty

lemma Inv.call {x : Noted V} (h : x.Inv) {c : Call V} (hc : Fits c) : (x.call c).Inv := by
  cases c with
  | put key v expires =>
    refine ⟨?_, h.kept.put h.size hc⟩
    show (x.table.put key v expires).size ≠ 0
    rw [L1.put, if_neg h.size]
    exact h.size
  | findRaw key =>
    constructor
    · show (x.table.findRaw key).2.size ≠ 0
      rw [L1.findRaw, if_neg h.size]
      split <;> exact h.size
    · show Kept x.last (x.table.findRaw key).2.probes (x.table.findRaw key).2.marks
      rw [probes_findRaw, marks_findRaw]
      exact h.kept
  | clear => exact ⟨h.size, kept_empty⟩

lemma Inv.run {x : Noted V} (h : x.Inv) {calls : List (Call V)} (hc : ∀ c ∈ calls, Fits c) :
    (x.run calls).Inv := by
  induction calls generalizing x with
  | nil => exact h
  | cons c calls ih =>
    exact ih (h.call (hc c mem_cons_self)) fun c' hc' => hc c' (mem_cons_of_mem _ hc')

/-- **A table answers with what was put last**, if the keys that are put fit into its slots. -/
theorem latest_of_fits (cap : ℕ) (calls : List (Call V)) (hc : ∀ c ∈ calls, Fits c) :
    ((start cap).run calls).Latest := fun _ _ hfind => ((inv_start cap).run hc).kept.latest hfind

theorem latest_again :
    ((start 1).run [.put (str "k") ⟨0, 7⟩ 0, .findRaw (str "k"), .put (str "k") ⟨1, 8⟩ 0]).Latest ∧
      (((start 1).run [.put (str "k") ⟨0, 7⟩ 0, .findRaw (str "k"),
        .put (str "k") ⟨1, 8⟩ 0]).table.findRaw
        (str "k")).1 = some ⟨1, 8⟩ := by
  refine ⟨latest_of_fits 1 _ ?_, by decide +kernel⟩
  simp [Fits, kKeyMax, str]

/-- A key of 81 bytes is put, and its first 80 bytes are found. -/
theorem not_latest_long :
    ¬ ((start 1).run [.put (replicate 81 97) (⟨0, 7⟩ : ValuePtr ℕ) 0]).Latest := by
  intro h
  have hlast := h (replicate 80 97) ⟨0, 7⟩ (by decide +kernel)
  revert hlast
  decide +kernel

end Noted

end L1

end SpidoNG.Cache
