import SpidoNG.Jwt.Claims

/-!
# Verdicts from the cache

A stored rejection is told again after the first two letters of its reason.
-/

namespace SpidoNG.Jwt

open Bytes List Option JwtVerifier JwtCache

variable {K : Type} {X : Crypto K} {cfg : JwtConfig}

inductive Served (X : Crypto K) (cfg : JwtConfig)
    (ok : List (ℕ × Bytes) → JwtVerifier K → ℕ → Bytes → Prop) : List (ℕ × Bytes) →
      JwtVerifier K → Prop
  | init : Served X cfg ok [] (init X cfg).2
  | call {calls : List (ℕ × Bytes)} {v : JwtVerifier K} {now : ℕ} {token : Bytes}
      (h : Served X cfg ok calls v) (hok : ok calls v now token) :
      Served X cfg ok ((now, token) :: calls) (v.verify X now token).2

def Distinct (X : Crypto K) (calls : List (ℕ × Bytes)) (token : Bytes) : Prop :=
  ∀ c ∈ calls, X.sha256 c.2 = X.sha256 token → c.2 = token

def Later (calls : List (ℕ × Bytes)) (now : ℕ) : Prop := ∀ c ∈ calls, c.1 ≤ now

def Retold (X : Crypto K) (v : JwtVerifier K) (token : Bytes) : Prop :=
  ∀ e, v.cache.find (X.sha256 token) = some e → e.valid = false →
    e.reason = str "expired" ∨ e.reason = str "bad_signature"

/-- A call at a time that is not earlier than the others, of a token that is told apart from them
and is not stored with a reason that is not told. -/
structure Orderly (X : Crypto K) (calls : List (ℕ × Bytes)) (v : JwtVerifier K) (now : ℕ)
    (token : Bytes) : Prop where
  later : Later calls now
  distinct : Distinct X calls token
  retold : Retold X v token

namespace JwtCache

variable {c : JwtCache} {key key' : Bytes} {e e' : JwtCacheEntry}

lemma find_cons (l : List (Bytes × JwtCacheEntry)) (n : ℕ) :
    find ⟨n, (key, e) :: l⟩ key' = if key = key' then some e else find ⟨n, l⟩ key' := by
  unfold find
  by_cases hk : key = key'
  · simp [hk]
  · rw [if_neg hk, find?_cons_of_neg (by simpa using hk)]

lemma find_others (h : key' ≠ key) (n : ℕ) : find ⟨n, c.others key⟩ key' = c.find key' := by
  unfold find others
  rw [find?_filter]
  congr 2
  funext p
  by_cases hp : p.1 = key'
  · simp [hp, h]
  · simp [hp]

lemma find_dropLast (h : find ⟨c.capacity, c.lru.dropLast⟩ key = some e) : c.find key = some e := by
  unfold find at *
  obtain ⟨p, hp, rfl⟩ := map_eq_some_iff.1 h
  have hsplit := dropLast_append_getLast? (l := c.lru)
  cases hlast : c.lru.getLast? with
  | none =>
    rw [getLast?_eq_none_iff] at hlast
    rw [hlast] at hp
    cases hp
  | some q =>
    rw [← hsplit q hlast, find?_append, hp]
    rfl

lemma find_lookup (c : JwtCache) (key : Bytes) : (c.lookup key).1 = c.find key := by
  unfold lookup
  split
  · rename_i h
    exact h.symm
  · rename_i h
    exact h.symm

lemma find_lookup_snd (c : JwtCache) (key key' : Bytes) :
    (c.lookup key).2.find key' = c.find key' := by
  unfold lookup
  split
  · rfl
  · rename_i e he
    rw [find_cons]
    split_ifs with hk
    · rw [← hk, he]
    · exact find_others (Ne.symm hk) _

lemma find_insert (h : (c.insert key e).find key' = some e') :
    key' = key ∧ e' = e ∨ key' ≠ key ∧ c.find key' = some e' := by
  by_cases hk : key = key'
  · left
    subst hk
    refine ⟨rfl, ?_⟩
    unfold insert at h
    split at h
    · rw [find_cons, if_pos rfl] at h
      exact (some.inj h).symm
    · rw [find_cons, if_pos rfl] at h
      exact (some.inj h).symm
  · right
    refine ⟨Ne.symm hk, ?_⟩
    unfold insert at h
    split at h
    · rw [find_cons, if_neg hk, find_others (Ne.symm hk)] at h
      exact h
    · rw [find_cons, if_neg hk] at h
      split_ifs at h
      · exact find_dropLast h
      · exact h

end JwtCache

variable {key json : Bytes} {e : JwtCacheEntry}

lemma find_verify {v : JwtVerifier K} {now : ℕ} {token : Bytes}
    (h : (v.verify X now token).2.cache.find key = some e) :
    (key = X.sha256 token ∧ ∃ cached, v.cache.find key = some cached ∧ cached.stale now ∧
        e = setReason { cached with valid := false } (str "expired")) ∨
      (key = X.sha256 token ∧ e = (v.verifyFresh X now token).2) ∨ v.cache.find key = some e := by
  have hlook := find_lookup v.cache (X.sha256 token)
  unfold verify at h
  dsimp only at h
  split at h
  · rename_i cached cache hlookup
    obtain rfl : cache = (v.cache.lookup (X.sha256 token)).2 := by rw [hlookup]
    rw [hlookup] at hlook
    split_ifs at h with hstale
    · rcases find_insert h with ⟨rfl, rfl⟩ | ⟨-, h⟩
      · exact .inl ⟨rfl, cached, hlook.symm, hstale, rfl⟩
      · rw [find_lookup_snd] at h
        exact .inr (.inr h)
    · rw [find_lookup_snd] at h
      exact .inr (.inr h)
  · rename_i cache hlookup
    obtain rfl : cache = (v.cache.lookup (X.sha256 token)).2 := by rw [hlookup]
    rcases find_insert h with ⟨rfl, rfl⟩ | ⟨-, h⟩
    · exact .inr (.inl ⟨rfl, rfl⟩)
    · rw [find_lookup_snd] at h
      exact .inr (.inr h)

lemma verify_same (v : JwtVerifier K) (now : ℕ) (token : Bytes) :
    (v.verify X now token).2 = { v with cache := (v.verify X now token).2.cache } := by
  unfold verify
  dsimp only
  split
  · split_ifs
    · rfl
    · rfl
  · rfl

lemma verify_fst (v : JwtVerifier K) (now : ℕ) (token : Bytes) : (v.verify X now token).1.1 =
      (v.cache.find (X.sha256 token)).elim (v.verifyFresh X now token).1
        fun e => if e.stale now then .expired else e.status := by
  rw [← find_lookup]
  unfold verify
  dsimp only
  split
  · rename_i hlookup
    rw [hlookup]
    dsimp only [Option.elim]
    split_ifs
    · rfl
    · rfl
  · rename_i hlookup
    rw [hlookup]
    rfl

variable {ok : List (ℕ × Bytes) → JwtVerifier K → ℕ → Bytes → Prop}

lemma same_of_served {calls : List (ℕ × Bytes)} {v : JwtVerifier K} (h : Served X cfg ok calls v) :
    v = { (init X cfg).2 with cache := v.cache } := by
  induction h with
  | init => rfl
  | call _ _ ih =>
    have hcfg := congrArg JwtVerifier.cfg ih
    have hpkey := congrArg pkey ih
    rw [verify_same]
    simp only [JwtVerifier.mk.injEq, true_and]
    exact ⟨hcfg, hpkey⟩

def retold (e : JwtCacheEntry) (now : ℕ) : JwtStatus := if e.stale now then .expired else e.status

def Tells (X : Crypto K) (v : JwtVerifier K) (token : Bytes) (since : ℕ)
    (e : JwtCacheEntry) : Prop :=
  ∀ now, since ≤ now →
    (e.valid = false → e.reason = str "expired" ∨ e.reason = str "bad_signature") →
      retold e now = (v.verifyFresh X now token).1

lemma verifyFresh_cases (X : Crypto K) (v : JwtVerifier K) (token : Bytes) :
    (∃ status, status ≠ .valid ∧ ∀ now, v.verifyFresh X now token = verdict 0 status) ∨
      ∃ json, ∀ now, v.verifyFresh X now token = checkClaims v.cfg now json := by
  unfold verifyFresh
  split
  · exact .inl ⟨.malformed, by simp, fun _ => rfl⟩
  · split
    · exact .inl ⟨.malformed, by simp, fun _ => rfl⟩
    · split
      · exact .inl ⟨.internal, by simp, fun _ => rfl⟩
      · exact .inl ⟨.badSignature, by simp, fun _ => rfl⟩
      · split
        · exact .inl ⟨.malformed, by simp, fun _ => rfl⟩
        · exact .inr ⟨_, fun _ => rfl⟩

lemma status_of_reason {status : JwtStatus} (h : (jwtStatusStr status).take 23 = str "expired" ∨
    (jwtStatusStr status).take 23 = str "bad_signature") : status = .expired ∨
      status = .badSignature := by
  revert h
  cases status <;> decide

lemma retold_verdict {exp : ℤ} {status : JwtStatus} (now : ℕ) (hne : status ≠ .valid)
    (h : (verdict exp status).2.valid = false → (verdict exp status).2.reason = str "expired" ∨
      (verdict exp status).2.reason = str "bad_signature") :
    (status = .expired ∨ status = .badSignature) ∧ retold (verdict exp status).2 now = status := by
  have hvalid : (verdict exp status).2.valid = false := by simpa [verdict, setReason] using hne
  have hstatus := status_of_reason (h hvalid)
  refine ⟨hstatus, ?_⟩
  rcases hstatus with rfl | rfl
  · rfl
  · rfl

lemma claimsStatus_of_expired {now : ℕ} (h : claimSeconds json (str "exp") ≠ 0 ∧
    claimSeconds json (str "exp") ≤ now) : claimsStatus cfg now json = .expired := if_pos h

lemma expired_of_claimsStatus {now : ℕ}
    (h : claimsStatus cfg now json = .expired ∨ claimsStatus cfg now json = .badSignature) :
    claimSeconds json (str "exp") ≠ 0 ∧ claimSeconds json (str "exp") ≤ now := by
  unfold claimsStatus at h
  split_ifs at h with hexp
  · exact hexp
  all_goals simp at h

lemma tells_verifyFresh (X : Crypto K) (v : JwtVerifier K) (now : ℕ) (token : Bytes) :
    Tells X v token now (v.verifyFresh X now token).2 := by
  intro later hle hreason
  rcases verifyFresh_cases X v token with ⟨status, hne, h⟩ | ⟨json, h⟩
  · rw [h] at hreason ⊢
    rw [h]
    exact (retold_verdict _ hne hreason).2
  · rw [h] at hreason ⊢
    rw [h]
    by_cases hst : claimsStatus v.cfg now json = .valid
    · -- Accepted then, the token can only have expired since.
      rw [checkClaims, checkClaims, hst]
      obtain ⟨hfound, htime⟩ := claimsStatus_eq_valid_iff.1 hst
      by_cases hexp : claimSeconds json (str "exp") ≠ 0 ∧ claimSeconds json (str "exp") ≤ later
      · rw [claimsStatus_of_expired hexp, retold, if_pos]
        · rfl
        · simpa [JwtCacheEntry.stale, verdict, setReason] using hexp
      · have hvalid : claimsStatus v.cfg later json = .valid := by
          refine claimsStatus_eq_valid_iff.2 ⟨hfound, ?_, ?_⟩
          · rw [not_and_or, not_not, not_le] at hexp
            exact hexp
          · have hnbf := htime.2
            omega
        rw [hvalid, retold, if_neg]
        · rfl
        · simpa [JwtCacheEntry.stale, verdict, setReason] using hexp
    · -- Among the rejections that are told, it had expired then.
      obtain ⟨hstatus, htold⟩ := retold_verdict later hst hreason
      obtain ⟨hne, hexp⟩ := expired_of_claimsStatus hstatus
      have hthen : claimsStatus v.cfg now json = .expired := claimsStatus_of_expired ⟨hne, hexp⟩
      have hlat : claimsStatus v.cfg later json = .expired :=
        claimsStatus_of_expired ⟨hne, hexp.trans (by exact_mod_cast hle)⟩
      rw [checkClaims, htold, checkClaims, verdict_fst, hthen, hlat]

lemma Tells.stale {v : JwtVerifier K} {token : Bytes} {since now : ℕ}
    (h : Tells X v token since e) (hle : since ≤ now) (hstale : e.stale now) :
    Tells X v token now (setReason { e with valid := false } (str "expired")) := by
  intro later hlat _
  simp only [JwtCacheEntry.stale, Bool.and_eq_true, decide_eq_true_eq] at hstale
  have hlate : e.stale later := by
    simp only [JwtCacheEntry.stale, Bool.and_eq_true, decide_eq_true_eq]
    exact ⟨hstale.1, hstale.2.1, by omega⟩
  have hretold : retold e later = .expired := if_pos hlate
  rw [← h later (hle.trans hlat) fun hfalse => absurd hstale.1 (by simp [hfalse]), hretold]
  rfl

def Told (X : Crypto K) (cfg : JwtConfig) (calls : List (ℕ × Bytes)) (key : Bytes)
    (e : JwtCacheEntry) : Prop :=
  ∃ c ∈ calls, X.sha256 c.2 = key ∧
    ∃ c' ∈ calls, Tells X (init X cfg).2 c.2 c'.1 e

lemma Told.cons {calls : List (ℕ × Bytes)}
    (h : Told X cfg calls key e) (call : ℕ × Bytes) : Told X cfg (call :: calls) key e := by
  obtain ⟨c, hc, hkey, c', hc', htold⟩ := h
  exact ⟨c, mem_cons_of_mem _ hc, hkey, c', mem_cons_of_mem _ hc', htold⟩

structure Stored (X : Crypto K) (cfg : JwtConfig) (calls : List (ℕ × Bytes)) (v : JwtVerifier K) :
    Prop where
  same : v = { (init X cfg).2 with cache := v.cache }
  told : ∀ {key e}, v.cache.find key = some e → Told X cfg calls key e

lemma verifyFresh_of_same {v v' : JwtVerifier K} (h : v = { v' with cache := v.cache }) (now : ℕ)
    (token : Bytes) : v.verifyFresh X now token = v'.verifyFresh X now token := by
  rw [h]
  rfl

section Call

variable {calls : List (ℕ × Bytes)} {v : JwtVerifier K} {now : ℕ} {token : Bytes}

section

variable (h : Stored X cfg calls v) (htime : Later calls now) (hdigest : Distinct X calls token)
include h htime hdigest

lemma Stored.tells (he : v.cache.find (X.sha256 token) = some e) :
    ∃ since ≤ now, Tells X (init X cfg).2 token since e := by
  obtain ⟨c, hc, hkey, c', hc', htold⟩ := h.told he
  rw [hdigest c hc hkey] at htold
  exact ⟨c'.1, htime c' hc', htold⟩

lemma Stored.verify_eq (hok : Retold X v token) :
    (v.verify X now token).1.1 = ((init X cfg).2.verify X now token).1.1 := by
  rw [verify_of_empty (init_lru X cfg), verify_fst]
  cases he : v.cache.find (X.sha256 token) with
  | none => rw [elim_none, verifyFresh_of_same h.same]
  | some e =>
    obtain ⟨since, hle, htold⟩ := h.tells htime hdigest he
    rw [elim_some, ← htold now hle (hok e he), retold]

lemma Stored.step : Stored X cfg ((now, token) :: calls) (v.verify X now token).2 := by
  have hcfg := congrArg JwtVerifier.cfg h.same
  have hpkey := congrArg pkey h.same
  constructor
  · rw [verify_same]
    simp only [JwtVerifier.mk.injEq, true_and]
    exact ⟨hcfg, hpkey⟩
  · intro key e he
    rcases find_verify he with ⟨rfl, cached, hcached, hstale, rfl⟩ | ⟨rfl, rfl⟩ | he
    · obtain ⟨since, hle, htold⟩ := h.tells htime hdigest hcached
      exact ⟨_, mem_cons_self, rfl, _, mem_cons_self, htold.stale hle hstale⟩
    · refine ⟨_, mem_cons_self, rfl, _, mem_cons_self, ?_⟩
      rw [verifyFresh_of_same h.same]
      exact tells_verifyFresh X _ now token
    · exact (h.told he).cons _

end

/-- As long as no token is presented that is stored as rejected for a reason that is not told, every
status is the one that a verifier with an empty cache would return. -/
theorem verify_eq_fresh (h : Served X cfg (Orderly X) calls v)
    (hcall : Orderly X calls v now token) :
    (v.verify X now token).1.1 = ((init X cfg).2.verify X now token).1.1 := by
  suffices hstored : Stored X cfg calls v from
    hstored.verify_eq hcall.later hcall.distinct hcall.retold
  clear hcall
  induction h with
  | init =>
    refine ⟨rfl, fun he => ?_⟩
    rw [find, init_lru] at he
    cases he
  | call _ hok ih => exact ih.step hok.later hok.distinct

end Call

def Vouched (X : Crypto K) (cfg : JwtConfig) (calls : List (ℕ × Bytes)) (key : Bytes) : Prop :=
  ∃ c ∈ calls, X.sha256 c.2 = key ∧ ((init X cfg).2.verifyFresh X c.1 c.2).1 = .valid

lemma verifyFresh_valid {v : JwtVerifier K} {now : ℕ} {token : Bytes}
    (h : (v.verifyFresh X now token).2.valid) : (v.verifyFresh X now token).1 = .valid := by
  rcases verifyFresh_cases X v token with ⟨status, -, heq⟩ | ⟨json, heq⟩
  · rw [heq] at h ⊢
    simpa [verdict, setReason] using h
  · rw [heq] at h ⊢
    simpa [checkClaims, verdict, setReason] using h

lemma JwtCacheEntry.status_eq_valid (h : e.status = .valid) : e.valid := by
  unfold JwtCacheEntry.status at h
  split_ifs at h with hvalid
  exact hvalid

lemma vouched_of_served
    {calls : List (ℕ × Bytes)} {v : JwtVerifier K} (h : Served X cfg ok calls v) :
    ∀ {key e}, v.cache.find key = some e → e.valid → Vouched X cfg calls key := by
  induction h with
  | init =>
    intro key e he
    rw [find, init_lru] at he
    cases he
  | call hserved _ ih =>
    intro key e he hvalid
    rcases find_verify he with ⟨-, _, -, -, rfl⟩ | ⟨rfl, rfl⟩ | he
    · cases hvalid
    · rw [verifyFresh_of_same (same_of_served hserved)] at hvalid
      exact ⟨_, mem_cons_self, rfl, verifyFresh_valid hvalid⟩
    · obtain ⟨c, hc, hkey, hfresh⟩ := ih he hvalid
      exact ⟨c, mem_cons_of_mem _ hc, hkey, hfresh⟩

lemma vouched_of_valid {calls : List (ℕ × Bytes)} {v : JwtVerifier K} {now : ℕ} {token : Bytes}
    (h : Served X cfg ok calls v) (hvalid : (v.verify X now token).1.1 = .valid) :
    Vouched X cfg ((now, token) :: calls) (X.sha256 token) := by
  rw [verify_fst] at hvalid
  cases he : v.cache.find (X.sha256 token) with
  | none =>
    rw [he, elim_none, verifyFresh_of_same (same_of_served h)] at hvalid
    exact ⟨_, mem_cons_self, rfl, hvalid⟩
  | some =>
    rw [he, elim_some] at hvalid
    split_ifs at hvalid
    obtain ⟨c, hc, hkey, hfresh⟩ := vouched_of_served h he (JwtCacheEntry.status_eq_valid hvalid)
    exact ⟨c, mem_cons_of_mem _ hc, hkey, hfresh⟩

section Always

variable {bound exp : ℤ} {token : Bytes}

lemma stale_verdict {now : ℕ} : (verdict exp .valid).2.stale now ↔ exp ≠ 0 ∧ exp ≤ now := by
  simp [JwtCacheEntry.stale, verdict, setReason]

variable {calls : List (ℕ × Bytes)} {v : JwtVerifier K} (hfresh : ∀ now : ℕ, (now : ℤ) < bound →
    (init X cfg).2.verifyFresh X now token = verdict exp .valid) (hexp : exp = 0 ∨ bound ≤ exp)
  (h : Served X cfg ok calls v) (hdigest : Distinct X calls token)

include hfresh hexp h hdigest

lemma entry_of_always (htime : ∀ c ∈ calls, (c.1 : ℤ) < bound) :
    ∀ e, v.cache.find (X.sha256 token) = some e → e = (verdict exp .valid).2 := by
  induction h with
  | init =>
    intro e he
    rw [find, init_lru] at he
    cases he
  | @call _ _ now token' hserved _ ih =>
    have ih := ih (fun c hc => hdigest c (mem_cons_of_mem _ hc))
      fun c hc => htime c (mem_cons_of_mem _ hc)
    have hnow : (now : ℤ) < bound := htime _ mem_cons_self
    intro e he
    rcases find_verify he with ⟨-, cached, hcached, hstale, -⟩ | ⟨hkey, rfl⟩ | he
    · rw [ih cached hcached, stale_verdict] at hstale
      omega
    · have htoken : token' = token := hdigest _ mem_cons_self hkey.symm
      rw [htoken, verifyFresh_of_same (same_of_served hserved), hfresh now hnow]
    · exact ih e he

lemma verify_of_always {now : ℕ} (hlat : Later calls now) (hnow : (now : ℤ) < bound) :
    (v.verify X now token).1.1 = .valid := by
  have htime : ∀ c ∈ calls, (c.1 : ℤ) < bound := by
    intro c hc
    have := hlat c hc
    omega
  rw [verify_fst]
  cases he : v.cache.find (X.sha256 token) with
  | none =>
    rw [elim_none, verifyFresh_of_same (same_of_served h), hfresh now hnow]
    rfl
  | some e =>
    obtain rfl := entry_of_always hfresh hexp h hdigest htime e he
    rw [elim_some, if_neg]
    · rfl
    · rw [stale_verdict]
      omega

end Always

lemma retold_init (X : Crypto K) (cfg : JwtConfig) (token : Bytes) :
    Retold X (init X cfg).2 token := by
  intro e he
  rw [find, init_lru] at he
  cases he

theorem verify_eq_fresh_endless :
    (((init toyCrypto plainConfig).2.verify toyCrypto 0 endlessToken).2.verify toyCrypto 5
      endlessToken).1.1 = ((init toyCrypto plainConfig).2.verify toyCrypto 5 endlessToken).1.1 := by
  refine verify_eq_fresh (.call .init ⟨by simp [Later], by simp [Distinct], retold_init _ _ _⟩)
    ⟨by simp [Later], by simp [Distinct], ?_⟩
  intro e he hfalse
  have hfind : ((init toyCrypto plainConfig).2.verify toyCrypto 0
      endlessToken).2.cache.find (toyCrypto.sha256 endlessToken) = some ⟨0, true, str "valid"⟩ := by
    decide +kernel
  rw [hfind] at he
  cases he
  cases hfalse

def earlyToken : Bytes :=
  str "e30.eyJuYmYiOjEwMH0.AAAAAAAAAAAAAAAAAAAAAAAAAAAAAAAAAAAAAAAAAAA"

theorem not_verify_eq_fresh : ∃ calls v,
    Served toyCrypto plainConfig (fun calls _ now token => Later calls now ∧
      Distinct toyCrypto calls token) calls v ∧ Later calls 100 ∧
        Distinct toyCrypto calls earlyToken ∧
      (v.verify toyCrypto 100 earlyToken).1.1 = .badSignature ∧
        ((init toyCrypto plainConfig).2.verify toyCrypto 100 earlyToken).1.1 = .valid := by
  have hpair : (((init toyCrypto plainConfig).2.verify toyCrypto 0 earlyToken).2.verify
      toyCrypto 100 earlyToken).1.1 = .badSignature ∧
        ((init toyCrypto plainConfig).2.verify toyCrypto 100 earlyToken).1.1 = .valid := by
    decide +kernel
  exact ⟨[(0, earlyToken)], _, .call .init ⟨by simp [Later], by simp [Distinct]⟩, by simp [Later],
    by simp [Distinct], hpair⟩

end SpidoNG.Jwt
