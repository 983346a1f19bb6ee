import SpidoNG.Lib.Base64
import SpidoNG.Lib.Separated

/-!
# SCRAM-SHA-256

The client of `spido-pg/src/scram.h`.
-/

namespace SpidoNG.Pg

open Bytes List Base64

structure Hashes where
  hmacSha256 : Bytes → Bytes → Bytes
  sha256 : Bytes → Bytes
  pbkdf2 : Bytes → Bytes → ℤ → Bytes
  md5Hex : Bytes → Bytes

namespace Scram

def b64Char (v : ℕ) : UInt8 :=
  UInt8.ofNat (if v < 26 then 65 + v else if v < 52 then 71 + v else if v < 62 then v - 4
    else if v = 62 then 43 else 47)

def b64Encode : Bytes → Bytes
  | a :: b :: c :: s =>
    let n := a.toNat * 2 ^ 16 + b.toNat * 2 ^ 8 + c.toNat
    [b64Char (n / 2 ^ 18 % 64), b64Char (n / 2 ^ 12 % 64), b64Char (n / 2 ^ 6 % 64),
      b64Char (n % 64)] ++ b64Encode s
  | [a, b] =>
    let n := a.toNat * 2 ^ 16 + b.toNat * 2 ^ 8
    [b64Char (n / 2 ^ 18 % 64), b64Char (n / 2 ^ 12 % 64), b64Char (n / 2 ^ 6 % 64), 61]
  | [a] =>
    let n := a.toNat * 2 ^ 16
    [b64Char (n / 2 ^ 18 % 64), b64Char (n / 2 ^ 12 % 64), 61, 61]
  | [] => []

def b64Val (c : UInt8) : Option ℕ :=
  if 65 ≤ c ∧ c ≤ 90 then some (c.toNat - 65)
  else if 97 ≤ c ∧ c ≤ 122 then some (c.toNat - 97 + 26)
  else if 48 ≤ c ∧ c ≤ 57 then some (c.toNat - 48 + 52)
  else if c = 43 then some 62
  else if c = 47 then some 63
  else none

def b64Decode (s : Bytes) : Bytes := Base64.regroup 0 0 (s.filterMap b64Val)

structure ClientFirst where
  gs2Header : Bytes := []
  bare : Bytes := []
  clientNonce : Bytes := []
  full : Bytes := []
  deriving DecidableEq

def buildClientFirst (random : Bytes) : ClientFirst :=
  let nonce := b64Encode random
  { gs2Header := str "n,,"
    bare := str "n=,r=" ++ nonce
    clientNonce := nonce
    full := str "n,," ++ (str "n=,r=" ++ nonce) }

structure ServerFirst where
  rNonce : Bytes := []
  salt : Bytes := []
  iters : ℤ := 0

def isSpace (c : UInt8) : Bool := c == 32 || (9 ≤ c && c ≤ 13)

def leadingNumber (s : Bytes) : Option ℕ :=
  match s.takeWhile fun c => 48 ≤ c && c ≤ 57 with
  | [] => none
  | ds => some (ds.foldl (fun n c => 10 * n + (c.toNat - 48)) 0)

def stoi (s : Bytes) : Option ℤ :=
  let value : Option ℤ :=
    match s.dropWhile isSpace with
    | 45 :: t => (leadingNumber t).map fun n => -(n : ℤ)
    | 43 :: t => (leadingNumber t).map fun n => (n : ℤ)
    | t => (leadingNumber t).map fun n => (n : ℤ)
  value.filter fun n => -2 ^ 31 ≤ n ∧ n < 2 ^ 31

def readField (out : ServerFirst) : Bytes → Option ServerFirst
  | tag :: 61 :: val =>
    if tag = 114 then some { out with rNonce := val }
    else if tag = 115 then some { out with salt := b64Decode val }
    else if tag = 105 then (stoi val).map fun n => { out with iters := n }
    else some out
  | _ => some out

def parseServerFirst (msg : Bytes) : Option ServerFirst :=
  ((msg.splitOn 44).foldlM readField {}).filter fun out =>
    out.rNonce ≠ [] ∧ out.salt ≠ [] ∧ 0 < out.iters

def ServerFirst.text (sf : ServerFirst) : Bytes :=
  str "r=" ++ sf.rNonce ++ str ",s=" ++ b64Encode sf.salt ++ str ",i=" ++ decimal sf.iters.toNat

structure FinalArtifacts where
  clientFinal : Bytes
  expectedServerSigB64 : Bytes

def buildClientFinal (H : Hashes) (password : Bytes) (cf : ClientFirst) (sf : ServerFirst) :
    FinalArtifacts :=
  let salted := H.pbkdf2 password sf.salt sf.iters
  let clientKey := H.hmacSha256 salted (str "Client Key")
  let storedKey := H.sha256 clientKey
  let clientFinalNoProof := str "c=biws,r=" ++ sf.rNonce
  let authMsg := cf.bare ++ str "," ++ sf.text ++ str "," ++ clientFinalNoProof
  let clientSig := H.hmacSha256 storedKey authMsg
  let proof := List.zipWith (· ^^^ ·) clientKey clientSig
  let serverKey := H.hmacSha256 salted (str "Server Key")
  let serverSig := H.hmacSha256 serverKey authMsg
  { clientFinal := clientFinalNoProof ++ str ",p=" ++ b64Encode proof
    expectedServerSigB64 := b64Encode serverSig }

def verifyServerFinal (serverFinal expected : Bytes) : Bool :=
  serverFinal.take 2 == str "v=" && serverFinal.drop 2 == expected

/-- The answer by RFC 5802 to the server-first message `msg`. -/
def signed (H : Hashes) (password : Bytes) (cf : ClientFirst) (msg : Bytes) (sf : ServerFirst) :
    FinalArtifacts :=
  let authMsg := cf.bare ++ str "," ++ msg ++ str "," ++ (str "c=biws,r=" ++ sf.rNonce)
  let salted := H.pbkdf2 password sf.salt sf.iters
  let clientKey := H.hmacSha256 salted (str "Client Key")
  let clientSig := H.hmacSha256 (H.sha256 clientKey) authMsg
  { clientFinal := str "c=biws,r=" ++ sf.rNonce ++ str ",p=" ++
      b64Encode (List.zipWith (· ^^^ ·) clientKey clientSig)
    expectedServerSigB64 :=
      b64Encode (H.hmacSha256 (H.hmacSha256 salted (str "Server Key")) authMsg) }

lemma b64Encode_eq (s : Bytes) :
    ∃ k, b64Encode s = (sextets s).map b64Char ++ replicate k 61 := by
  fun_induction b64Encode s with
  | case1 a b c s n ih =>
    obtain ⟨k, hk⟩ := ih
    obtain ⟨h1, h2, h3, h4⟩ := word a b c (n := n) rfl
    rw [h1, h2, h3, h4, hk]
    exact ⟨k, rfl⟩
  | case2 a b n =>
    obtain ⟨h1, h2, h3, -⟩ := word a b 0 (Nat.add_zero n).symm
    rw [h1, h2, h3]
    exact ⟨1, rfl⟩
  | case3 a n =>
    obtain ⟨h1, h2, -⟩ := word a 0 0 (n := n) (by simp [n])
    rw [h1, h2]
    exact ⟨2, rfl⟩
  | case4 => exact ⟨0, rfl⟩

lemma b64Char_spec : ∀ v < 64, b64Val (b64Char v) = some v ∧ b64Char v ≠ 44 := by decide +kernel

lemma b64Decode_b64Encode (s : Bytes) : b64Decode (b64Encode s) = s := by
  obtain ⟨k, hk⟩ := b64Encode_eq s
  have hvalues : (sextets s).filterMap (b64Val ∘ b64Char) = sextets s := by
    refine (filterMap_congr fun v hv => ?_).trans filterMap_some
    exact (b64Char_spec v (lt_of_mem_sextets hv)).1
  have hpad : (replicate k (61 : UInt8)).filterMap b64Val = [] :=
    filterMap_eq_nil_iff.2 fun c hc => by rw [eq_of_mem_replicate hc]; rfl
  rw [b64Decode, hk, filterMap_append, filterMap_map, hvalues, hpad, append_nil, regroup_sextets]

lemma comma_notMem_b64Encode (s : Bytes) : 44 ∉ b64Encode s := by
  obtain ⟨k, hk⟩ := b64Encode_eq s
  rw [hk, mem_append, mem_map, mem_replicate]
  rintro (⟨v, hv, heq⟩ | ⟨-, h⟩)
  · exact (b64Char_spec v (lt_of_mem_sextets hv)).2 heq
  · cases h

lemma stoi_decimal (n : ℕ) :
    stoi (decimal n) = (some (n : ℤ)).filter fun n => -2 ^ 31 ≤ n ∧ n < 2 ^ 31 := by
  have hdigit : ∀ c ∈ decimal n, (48 ≤ c && c ≤ 57) := fun c hc => by
    simp [digit_of_mem_decimal hc]
  obtain ⟨c, ds, hd⟩ : ∃ c ds, decimal n = c :: ds :=
    exists_cons_of_ne_nil (by simp [decimal, Nat.toDigits_ne_nil])
  have hnumber : leadingNumber (c :: ds) = some n := by
    rw [← hd, leadingNumber, takeWhile_eq_self_iff.2 hdigit, hd]
    exact congrArg some (hd ▸ foldl_decimal n)
  have hc := digit_of_mem_decimal (hd ▸ mem_cons_self : c ∈ decimal n)
  have hspace : isSpace c = false := by
    unfold isSpace
    grind
  rw [hd, stoi, dropWhile_cons_of_neg (by simp [hspace])]
  split
  next heq =>
    cases heq
    exact absurd hc.1 (by decide)
  next heq =>
    cases heq
    exact absurd hc.1 (by decide)
  next =>
    rw [hnumber]
    rfl

lemma parseServerFirst_text (sf : ServerFirst) (hnonce : 44 ∉ sf.rNonce) (hiters : 0 ≤ sf.iters)
    {sf' : ServerFirst} (h : parseServerFirst sf.text = some sf') : sf' = sf := by
  have hsplit : sf.text.splitOn 44 = [114 :: 61 :: sf.rNonce, 115 :: 61 :: b64Encode sf.salt,
      105 :: 61 :: decimal sf.iters.toNat] := by
    have hdigit : 44 ∉ decimal sf.iters.toNat :=
      fun h => absurd (digit_of_mem_decimal h).1 (by decide)
    have htext : sf.text = [44].intercalate [114 :: 61 :: sf.rNonce, 115 :: 61 :: b64Encode sf.salt,
        105 :: 61 :: decimal sf.iters.toNat] := by
      simp [ServerFirst.text, intercalate, str]
    rw [htext]
    refine splitOn_intercalate 44 ?_ (cons_ne_nil _ _)
    simp [hnonce, hdigit, comma_notMem_b64Encode]
  have hread := (Option.filter_eq_some_iff.1 h).1
  rw [hsplit] at hread
  have hlast : ((stoi (decimal sf.iters.toNat)).map fun n =>
      ServerFirst.mk sf.rNonce (b64Decode (b64Encode sf.salt)) n).bind some = some sf' := hread
  rw [Option.bind_fun_some, stoi_decimal, b64Decode_b64Encode, Int.toNat_of_nonneg hiters] at hlast
  obtain ⟨n, hn, rfl⟩ := Option.map_eq_some_iff.1 hlast
  rw [← Option.some.inj (Option.filter_eq_some_iff.1 hn).1]

lemma comma_notMem_readField {out out' : ServerFirst} {field : Bytes} (hfield : 44 ∉ field)
    (hout : 44 ∉ out.rNonce) (h : readField out field = some out') : 44 ∉ out'.rNonce := by
  unfold readField at h
  split at h
  · split_ifs at h
    · cases h
      exact fun hval => hfield (mem_cons_of_mem _ (mem_cons_of_mem _ hval))
    · cases h
      exact hout
    · obtain ⟨n, -, rfl⟩ := Option.map_eq_some_iff.1 h
      exact hout
    · cases h
      exact hout
  · cases h
    exact hout

lemma comma_notMem_fields {fields : List Bytes} (hfields : ∀ f ∈ fields, 44 ∉ f)
    {out sf : ServerFirst} (hout : 44 ∉ out.rNonce) (h : fields.foldlM readField out = some sf) :
    44 ∉ sf.rNonce := by
  induction fields generalizing out with
  | nil =>
    cases h
    exact hout
  | cons f fields ih =>
    obtain ⟨out', hread, hrest⟩ := Option.bind_eq_some_iff.1 h
    have hout' := comma_notMem_readField (hfields f mem_cons_self) hout hread
    exact ih (fun g hg => hfields g (mem_cons_of_mem _ hg)) hout' hrest

/-- The attributes `r`, `s` and `i` in this order and nothing behind them, with the canonical base64
of a salt and a decimal number without sign or leading zeros. -/
def Canonical (msg : Bytes) : Prop :=
  ∃ (nonce salt : Bytes) (n : ℕ), 44 ∉ nonce ∧
    msg = str "r=" ++ nonce ++ str ",s=" ++ b64Encode salt ++ str ",i=" ++ decimal n

/-- Hashes that show what they are given: under them the answer contains the AuthMessage. -/
def plainHashes : Hashes := ⟨fun _ m => m, id, fun p _ _ => p, id⟩

lemma text_eq_of_signed {cf : ClientFirst} {msg : Bytes} {sf : ServerFirst}
    (h : buildClientFinal plainHashes [] cf sf = signed plainHashes [] cf msg sf) :
    sf.text = msg := by
  have hsig := congrArg (b64Decode ∘ FinalArtifacts.expectedServerSigB64) h
  have hauth : cf.bare ++ str "," ++ sf.text ++ str "," ++ (str "c=biws,r=" ++ sf.rNonce) =
      cf.bare ++ str "," ++ msg ++ str "," ++ (str "c=biws,r=" ++ sf.rNonce) := by
    simpa only [Function.comp, buildClientFinal, signed, plainHashes, b64Decode_b64Encode]
      using hsig
  simpa only [append_cancel_right_eq, append_cancel_left_eq] using hauth

/-- **What is signed is what was received**, whatever the hashes, exactly if the message is
canonical. -/
theorem buildClientFinal_eq_signed_iff (cf : ClientFirst) {msg : Bytes} {sf : ServerFirst}
    (h : parseServerFirst msg = some sf) :
    (∀ H password, buildClientFinal H password cf sf = signed H password cf msg sf) ↔
      Canonical msg := by
  constructor
  · intro hsigned
    have htext := text_eq_of_signed (hsigned plainHashes [])
    have hnonce := comma_notMem_fields (fun f => Separated.not_mem_of_mem_splitOn)
      (by simp) (Option.filter_eq_some_iff.1 h).1
    exact ⟨sf.rNonce, sf.salt, sf.iters.toNat, hnonce, htext.symm⟩
  · rintro ⟨nonce, salt, n, hnonce, rfl⟩ H password
    rw [parseServerFirst_text ⟨nonce, salt, n⟩ hnonce (by simp) h]
    rfl

theorem buildClientFinal_plain : ∃ sf, parseServerFirst (str "r=x,s=AAAA,i=1") = some sf ∧
    ∀ H password, buildClientFinal H password {} sf =
      signed H password {} (str "r=x,s=AAAA,i=1") sf := by
  have hparse : ∃ sf, parseServerFirst (str "r=x,s=AAAA,i=1") = some sf :=
    Option.isSome_iff_exists.1 (by decide +kernel)
  obtain ⟨sf, hparse⟩ := hparse
  have hcanonical : Canonical (str "r=x,s=AAAA,i=1") :=
    ⟨str "x", [0, 0, 0], 1, by decide +kernel, by decide +kernel⟩
  exact ⟨sf, hparse, (buildClientFinal_eq_signed_iff {} hparse).2 hcanonical⟩

theorem not_buildClientFinal_reordered : ∃ sf, parseServerFirst (str "s=AAAA,r=x,i=1") = some sf ∧
    buildClientFinal plainHashes [] {} sf ≠ signed plainHashes [] {} (str "s=AAAA,r=x,i=1") sf := by
  have heval : (parseServerFirst (str "s=AAAA,r=x,i=1")).map (fun sf => decide
      ((buildClientFinal plainHashes [] {} sf).expectedServerSigB64 =
        (signed plainHashes [] {} (str "s=AAAA,r=x,i=1") sf).expectedServerSigB64))
          = some false := by
    decide +kernel
  obtain ⟨sf, hparse, hsig⟩ := Option.map_eq_some_iff.1 heval
  exact ⟨sf, hparse, fun h => of_decide_eq_false hsig (by rw [h])⟩

end Scram

end SpidoNG.Pg
