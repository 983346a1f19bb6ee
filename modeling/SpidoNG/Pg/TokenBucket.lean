import Mathlib.Tactic

/-!
# The token bucket

`TokenBucket` of `spido-pg/src/token_bucket.cpp`, with exact amounts and one call at a time.
-/

namespace SpidoNG.Pg

open List

structure TokenBucket where
  tokens : ℚ
  lastRefillUs : ℤ
  rate : ℚ
  capacity : ℚ
  tokens_le : tokens ≤ capacity

namespace TokenBucket

def reset (b : TokenBucket) (ratePerSec capacity : ℚ) (now : ℤ) : TokenBucket where
  tokens := if b.capacity = 0 then max capacity 0 else min b.tokens (max capacity 0)
  lastRefillUs := now
  rate := max ratePerSec 0
  capacity := max capacity 0
  tokens_le := by
    split_ifs
    · exact le_rfl
    · exact min_le_right _ _

/-- The bucket that the constructor makes at `now`. -/
def create (ratePerSec capacity : ℚ) (now : ℤ) : TokenBucket :=
  reset ⟨0, 0, 0, 0, le_rfl⟩ ratePerSec capacity now

def refillInplace (b : TokenBucket) (tokens : ℚ) (now : ℤ) : ℚ :=
  if now ≤ b.lastRefillUs then tokens
  else if b.rate ≤ 0 then tokens
  else min (tokens + (now - b.lastRefillUs) * b.rate / 1000000) b.capacity

def currentTokens (b : TokenBucket) (now : ℤ) : ℚ := b.refillInplace b.tokens now

variable {b : TokenBucket} {now : ℤ}

lemma currentTokens_mem (b : TokenBucket) (now : ℤ) :
    b.tokens ≤ b.currentTokens now ∧ b.currentTokens now ≤ b.capacity := by
  have h := b.tokens_le
  unfold currentTokens refillInplace
  split_ifs with hnow hrate
  · exact ⟨le_rfl, h⟩
  · exact ⟨le_rfl, h⟩
  · have hadd : 0 ≤ ((now : ℚ) - b.lastRefillUs) * b.rate / 1000000 :=
      div_nonneg (mul_nonneg (sub_nonneg.2 (Int.cast_le.2 (not_le.1 hnow).le)) (not_le.1 hrate).le)
        (by norm_num)
    exact ⟨le_min (by linarith) h, min_le_right _ _⟩

-- no other call comes in between, so the first exchange succeeds
def tryAcquire (b : TokenBucket) (cost : ℚ) (now : ℤ) : Bool × TokenBucket :=
  if hfree : cost ≤ 0 then (true, b)
  else if b.capacity ≤ 0 then (false, b)
  else
    have hcur := (b.currentTokens_mem now).2
    let cur := b.refillInplace b.tokens now
    if cur < cost then (false, ⟨cur, now, b.rate, b.capacity, hcur⟩)
    else (true, ⟨cur - cost, now, b.rate, b.capacity,
      (sub_le_self _ (not_le.1 hfree).le).trans hcur⟩)

inductive Call
  | tryAcquire (cost : ℚ)
  | reset (ratePerSec capacity : ℚ)

def Call.acquires : Call → Bool
  | .tryAcquire _ => true
  | .reset _ _ => false

def answers (b : TokenBucket) : List (ℤ × Call) → List Bool
  | [] => []
  | (now, .tryAcquire cost) :: es => (b.tryAcquire cost now).1 ::
    (b.tryAcquire cost now).2.answers es
  | (now, .reset ratePerSec capacity) :: es => (b.reset ratePerSec capacity now).answers es

/-- At every reset the level is what a refill would make it. -/
def Settled (b : TokenBucket) : List (ℤ × Call) → Prop
  | [] => True
  | (now, .tryAcquire cost) :: es => (b.tryAcquire cost now).2.Settled es
  | (now, .reset ratePerSec capacity) :: es =>
    b.currentTokens now = b.tokens ∧ (b.reset ratePerSec capacity now).Settled es

/-- The calls cannot tell when a full bucket was last refilled. -/
lemma answers_full (h : b.tokens = b.capacity) (last : ℤ) (es : List (ℤ × Call)) :
    answers { b with lastRefillUs := last } (es.filter (·.2.acquires)) =
      b.answers (es.filter (·.2.acquires)) := by
  have hfull (b : TokenBucket) (h : b.tokens = b.capacity) (now : ℤ) :
      b.refillInplace b.tokens now = b.tokens :=
    le_antisymm ((b.currentTokens_mem now).2.trans h.ge) (b.currentTokens_mem now).1
  induction es with
  | nil => rfl
  | cons e es ih =>
    obtain ⟨now, _ | _⟩ := e
    · have hcur : refillInplace { b with lastRefillUs := last } b.tokens now =
          b.refillInplace b.tokens now :=
        (hfull { b with lastRefillUs := last } h now).trans (hfull b h now).symm
      rw [filter_cons_of_pos rfl]
      simp only [answers, tryAcquire, hcur]
      split_ifs
      · rw [ih]
      · rw [ih]
      · rfl
      · rfl
    · exact ih

lemma tryAcquire_keeps (b : TokenBucket) (cost : ℚ) (now : ℤ) :
    (b.tryAcquire cost now).2.rate = b.rate ∧ (b.tryAcquire cost now).2.capacity = b.capacity ∧
      ((b.tryAcquire cost now).2.lastRefillUs = b.lastRefillUs ∨
        (b.tryAcquire cost now).2.lastRefillUs = now) := by
  simp only [tryAcquire]
  split_ifs <;> simp

lemma reset_same (hrate : 0 < b.rate) (hcap : 0 < b.capacity) (now : ℤ) :
    b.reset b.rate b.capacity now = { b with lastRefillUs := now } := by
  simp only [reset, max_eq_left hcap.le, max_eq_left hrate.le, if_neg hcap.ne',
    min_eq_left b.tokens_le]

/-- Below capacity a refill adds something unless no time has passed. -/
lemma full_of_currentTokens (hrate : 0 < b.rate) (hnow : b.lastRefillUs < now)
    (hset : b.currentTokens now = b.tokens) : b.tokens = b.capacity := by
  have hadd : 0 < ((now : ℚ) - b.lastRefillUs) * b.rate / 1000000 :=
    div_pos (mul_pos (sub_pos.2 (Int.cast_lt.2 hnow)) hrate) (by norm_num)
  rw [currentTokens, refillInplace, if_neg hnow.not_ge, if_neg hrate.not_ge] at hset
  rcases min_choice (b.tokens + _) b.capacity with hm | hm
  · linarith [hm.symm.trans hset]
  · exact hset.symm.trans hm

lemma answers_eq_filter {es : List (ℤ × Call)} (hrate : 0 < b.rate) (hcap : 0 < b.capacity)
    (hclock : (b.lastRefillUs :: es.map Prod.fst).Pairwise (· ≤ ·))
    (hsame : ∀ e ∈ es, e.2.acquires = false → e.2 = .reset b.rate b.capacity)
    (hset : b.Settled es) : b.answers es = b.answers (es.filter (·.2.acquires)) := by
  induction es generalizing b with
  | nil => rfl
  | cons e es ih =>
    obtain ⟨now, c⟩ := e
    obtain ⟨hlast, hclock⟩ := pairwise_cons.1 hclock
    have hrest := fun e he => hsame e (mem_cons_of_mem _ he)
    cases c with
    | tryAcquire cost =>
      obtain ⟨hrate', hcap', hlast'⟩ := tryAcquire_keeps b cost now
      refine congrArg (List.cons _) (ih (hrate' ▸ hrate) (hcap' ▸ hcap) ?_ ?_ hset)
      · refine pairwise_cons.2 ⟨fun t ht => ?_, (pairwise_cons.1 hclock).2⟩
        rcases hlast' with hl | hl <;> rw [hl]
        · exact hlast t (mem_cons_of_mem _ ht)
        · exact (pairwise_cons.1 hclock).1 t ht
      · rwa [hrate', hcap']
    | reset r c =>
      obtain ⟨rfl, rfl⟩ : r = b.rate ∧ c = b.capacity := by simpa using hsame _ mem_cons_self rfl
      have hreset := reset_same hrate hcap now
      have htail := hset.2
      rw [hreset] at htail
      have hrun := ih (b := { b with lastRefillUs := now }) hrate hcap hclock hrest htail
      rw [answers, hreset, hrun, filter_cons_of_neg (by simp [Call.acquires])]
      rcases (hlast now mem_cons_self).eq_or_lt with rfl | hnow
      · rfl
      · exact answers_full (full_of_currentTokens hrate hnow hset.1) now es

theorem answers_of_settled {t₀ : ℤ} {ratePerSec capacity : ℚ} {es : List (ℤ × Call)}
    (hrate : 0 < ratePerSec) (hcap : 0 < capacity)
    (hclock : (t₀ :: es.map Prod.fst).Pairwise (· ≤ ·))
    (hsame : ∀ e ∈ es, e.2.acquires = false → e.2 = .reset ratePerSec capacity)
    (hset : (create ratePerSec capacity t₀).Settled es) :
    (create ratePerSec capacity t₀).answers es =
        (create ratePerSec capacity t₀).answers (es.filter (·.2.acquires)) ∧
      ∀ b : TokenBucket, b.capacity ≠ 0 → ∀ (ratePerSec capacity : ℚ) (now : ℤ),
        (b.reset ratePerSec capacity now).tokens ≤ b.currentTokens now := by
  constructor
  · have hr : (create ratePerSec capacity t₀).rate = ratePerSec := max_eq_left hrate.le
    have hc : (create ratePerSec capacity t₀).capacity = capacity := max_eq_left hcap.le
    refine answers_eq_filter (by rwa [hr]) (by rwa [hc]) hclock ?_ hset
    rwa [hr, hc]
  · intro b hne ratePerSec capacity now
    have htokens : (b.reset ratePerSec capacity now).tokens = _ := if_neg hne
    exact htokens.trans_le ((min_le_left _ _).trans (b.currentTokens_mem now).1)

def retuned : List (ℤ × Call) :=
  [(0, .reset 1 1), (0, .tryAcquire 1), (0, .reset 1 1), (1000000, .tryAcquire 1)]

theorem answers_retuned : (create 1 1 0).answers retuned = [true, true] ∧
    (create 1 1 0).answers (retuned.filter (·.2.acquires)) = [true, true] := by
  have hset : (create 1 1 0).Settled retuned := ⟨by decide +kernel, by decide +kernel, trivial⟩
  have hsame := (answers_of_settled (by norm_num) (by norm_num) (by decide)
    (by simp [retuned, Call.acquires]) hset).1
  exact ⟨by decide +kernel, hsame ▸ by decide +kernel⟩

/-- A reset half way to the next token takes that half away, and a capacity that was 0 for a moment
fills an empty bucket. -/
theorem not_answers_confiscated :
    (create 1 1 0).answers [(0, .tryAcquire 1), (500000, .reset 1 1), (1000000, .tryAcquire 1)] =
        [true, false] ∧
      (create 1 1 0).answers [(0, .tryAcquire 1), (1000000, .tryAcquire 1)] = [true, true] ∧
      (((create 1 1 0).tryAcquire 1 0).2.reset 1 0 0).currentTokens 0 <
        ((((create 1 1 0).tryAcquire 1 0).2.reset 1 0 0).reset 1 1 0).tokens := by
  decide +kernel

end TokenBucket

end SpidoNG.Pg
