import SpidoNG.Pg.Bind
import SpidoNG.Pg.Connection
import SpidoNG.Pg.Scram

/-!
# The handshake with PostgreSQL

`PgConnection::connect` and `authenticate` (`spido-pg/src/connection.cpp`).
-/

namespace SpidoNG.Pg

open Bytes Scram List

inductive Kind
  | lost
  | short
  | authOk
  | cleartext
  | md5
  | sasl
  | saslContinue
  | saslFinal
  | unsupported
  | parameterStatus
  | backendKeyData
  | readyForQuery
  | errorResponse
  | other
  deriving DecidableEq

structure Arrival where
  recvError : Option Bytes := none
  type : UInt8
  payload : Bytes := []
  random : Bytes := []
  sendError : Option Bytes := none
  overread : Bool := false
  deriving DecidableEq

namespace Arrival

def sub (a : Arrival) : ℕ := LittleEndian.getLE (a.payload.take 4).reverse

def text (a : Arrival) : Bytes := a.payload.drop 4

def kind (a : Arrival) : Kind :=
  if a.recvError.isSome then .lost
  else if a.type = 82 then
    if a.payload.length < 4 then .short
    else if a.sub = 0 then .authOk
    else if a.sub = 3 then .cleartext
    else if a.sub = 5 then .md5
    else if a.sub = 10 then .sasl
    else if a.sub = 11 then .saslContinue
    else if a.sub = 12 then .saslFinal
    else .unsupported
  else if a.type = 83 then .parameterStatus
  else if a.type = 75 then .backendKeyData
  else if a.type = 90 then .readyForQuery
  else if a.type = 69 then .errorResponse
  else .other

def texts (s : Bytes) : List Bytes := (s.splitOn 0).takeWhile (· ≠ [])

def hasSha256 (a : Arrival) : Bool :=
  (texts a.text).contains (str "SCRAM-SHA-256") || (!(a.text.splitOn 0).contains [] && a.overread)

end Arrival

structure Handshake where
  lastError : Bytes := []
  serverParams : List (Bytes × Bytes) := []
  backendPid : ℤ := 0
  secretKey : ℤ := 0
  clientFirst : ClientFirst := {}
  serverSig : Bytes := []
  sent : List Bytes := []

structure Credentials where
  socketPath : Bytes
  user : Bytes
  password : Bytes
  dbname : Bytes

inductive Progress
  | more
  | ready
  | failed

def kPassword : UInt8 := 112

def pgPassword (H : Hashes) (password user salt : Bytes) : Bytes :=
  str "md5" ++ H.md5Hex (H.md5Hex (password ++ user) ++ salt)

def startupMessage (cfg : Credentials) : Bytes :=
  let body := putI32 196608 ++
    (putStr (str "user") ++ (putStr cfg.user ++ (putStr (str "database") ++
    (putStr cfg.dbname ++ (putStr (str "client_encoding") ++ (putStr (str "UTF8") ++
      (putStr (str "application_name") ++ (putStr (str "spido_pg") ++ [0]))))))))
  putI32 (body.length + 4 : ℕ) ++ body

namespace Handshake

def fail (h : Handshake) (e : Bytes) : Progress × Handshake := (.failed, { h with lastError := e })

def send (h : Handshake) (a : Arrival) (body : Bytes) : Progress × Handshake :=
  match a.sendError with
  | some e => h.fail e
  | none => (.more, { h with sent := h.sent ++ [frame kPassword body] })

def startSasl (h : Handshake) (a : Arrival) : Progress × Handshake :=
  if a.hasSha256 = false then h.fail (str "server didn't offer SCRAM-SHA-256")
  else
    let cf := buildClientFirst a.random
    match h.send a (putStr (str "SCRAM-SHA-256") ++ (putI32 cf.full.length ++ cf.full)) with
    | (.more, h') => (.more, { h' with clientFirst := cf })
    | r => r

def continueSasl (H : Hashes) (cfg : Credentials) (h : Handshake) (a : Arrival) :
    Progress × Handshake :=
  match parseServerFirst a.text with
  | none => h.fail (str "scram: bad server-first")
  | some sf =>
    if sf.rNonce.take h.clientFirst.clientNonce.length ≠ h.clientFirst.clientNonce then
      h.fail (str "scram: server nonce doesn't extend client")
    else
      let art := buildClientFinal H cfg.password h.clientFirst sf
      { h with serverSig := art.expectedServerSigB64 }.send a art.clientFinal

def finishSasl (h : Handshake) (a : Arrival) : Progress × Handshake :=
  if verifyServerFinal a.text h.serverSig then (.more, h)
  else h.fail (str "scram: server signature mismatch " ++
    ([0xE2, 0x80, 0x94] ++ str " auth failed"))

def addParameter (h : Handshake) (a : Arrival) : Handshake :=
  match a.payload.splitOn 0 with
  | name :: value :: _ =>
    if h.serverParams.any fun p => p.1 == name then h
    else { h with serverParams := h.serverParams ++ [(name, value)] }
  | _ => h

def setKey (h : Handshake) (a : Arrival) : Handshake :=
  if a.payload.length < 8 then h
  else { h with
    backendPid := getBE (a.payload.take 4)
    secretKey := getBE ((a.payload.drop 4).take 4) }

def errorText (h : Handshake) (a : Arrival) : Bytes :=
  let e := (Arrival.texts a.payload).foldl
    (fun e f => if f.head? = some 77 then str "PG error: " ++ f.tail else e) h.lastError
  if e = [] then str "PG error (no message)" else e

def handle (H : Hashes) (cfg : Credentials) (h : Handshake) (a : Arrival) : Progress × Handshake :=
  match a.kind with
  | .lost => h.fail (a.recvError.getD [])
  | .short => h.fail (str "short auth msg")
  | .authOk => (.more, h)
  | .cleartext => h.send a (putStr cfg.password)
  | .md5 =>
    if a.payload.length < 8 then h.fail (str "short md5 salt")
    else h.send a (putStr (pgPassword H cfg.password cfg.user (a.text.take 4)))
  | .sasl => h.startSasl a
  | .saslContinue => h.continueSasl H cfg a
  | .saslFinal => h.finishSasl a
  | .unsupported => h.fail (str "unsupported auth method (sub=" ++ decimal a.sub ++ str ")")
  | .parameterStatus => (.more, h.addParameter a)
  | .backendKeyData => (.more, h.setKey a)
  | .readyForQuery => (.ready, h)
  | .errorResponse => h.fail (h.errorText a)
  | .other => (.more, h)

def loop (H : Hashes) (cfg : Credentials) : Handshake → List Arrival → Option (Bool × Handshake)
  | _, [] => none
  | h, a :: as =>
    match h.handle H cfg a with
    | (.more, h') => loop H cfg h' as
    | (.ready, h') => some (true, h')
    | (.failed, h') => some (false, h')

def authenticate (H : Hashes) (cfg : Credentials) (startupError : Option Bytes) (h : Handshake)
    (as : List Arrival) : Option (Bool × Handshake) :=
  match startupError with
  | some e => some (false, { h with lastError := e })
  | none => loop H cfg { h with sent := h.sent ++ [startupMessage cfg] } as

end Handshake

structure PgClient extends PgConnection, Handshake

structure Dial where
  ringOk : Bool := true
  fd : ℤ
  connectError : Option Bytes := none
  startupError : Option Bytes := none
  session : ℕ

namespace PgClient

def close (c : PgClient) : PgClient :=
  { c with toPgConnection := c.toPgConnection.close, serverParams := [] }

def giveUp (c : PgClient) (e : Bytes) : Option (Bool × PgClient) :=
  some (false, { c with lastError := e }.close)

def connect (H : Hashes) (cfg : Credentials) (d : Dial) (as : List Arrival) (c : PgClient) :
    Option (Bool × PgClient) :=
  let c := { c.close with sent := [] }
  if d.ringOk = false then some (false, { c with lastError := str "io_uring init failed" })
  else if d.fd < 0 then some (false, { c with fd := d.fd, lastError := str "socket() failed" })
  else
    let c := { c with fd := d.fd }
    if 108 ≤ cfg.socketPath.length then c.giveUp (str "socket path too long")
    else
      match d.connectError with
      | some e => c.giveUp (str "connect(\"" ++ (cfg.socketPath ++ (str "\"): " ++ e)))
      | none =>
        match c.toHandshake.authenticate H cfg d.startupError as with
        | none => none
        | some (true, h) => some (true,
          { c with toHandshake := h, state := .Ready, session := d.session })
        | some (false, h) => some (false, { c with toHandshake := h }.close)

end PgClient

variable {H : Hashes} {cfg : Credentials} {d : Dial} {as : List Arrival} {c c' : PgClient}
  {ok : Bool}

lemma loop_of_connect (h : c.connect H cfg d as = some (ok, c')) (hready : c'.state = .Ready) :
    c'.toPgConnection = c.toPgConnection.connect d.fd d.session ∧
      ∃ h₀, Handshake.loop H cfg h₀ as = some (true, c'.toHandshake) := by
  simp only [PgClient.connect] at h
  split_ifs at h with hring hfd hpath
  · cases h
    cases hready
  · cases h
    cases hready
  · cases h
    cases hready
  · split at h
    · cases h
      cases hready
    · split at h
      · cases h
      · rename_i h' hauth
        cases h
        refine ⟨rfl, ?_⟩
        unfold Handshake.authenticate at hauth
        split at hauth
        · cases hauth
        · exact ⟨_, hauth⟩
      · cases h
        cases hready

def heard (as : List Arrival) : List Arrival := as.takeWhile (·.kind ≠ .readyForQuery)

section Property

variable (H cfg)

def Answered (m : Arrival) (sig : Bytes) (rest : List Arrival) : Prop :=
  ∃ b m₁ c sf, rest = b ++ m₁ :: c ∧ (∀ x ∈ b, x.kind ≠ .sasl) ∧ m₁.kind = .saslContinue ∧
    parseServerFirst m₁.text = some sf ∧
    sf.rNonce.take (buildClientFirst m.random).clientNonce.length =
      (buildClientFirst m.random).clientNonce ∧
    sig = (buildClientFinal H cfg.password (buildClientFirst m.random) sf).expectedServerSigB64

def Exchanged (m : Arrival) (rest : List Arrival) : Prop :=
  ∃ b m₂ c sig, rest = b ++ m₂ :: c ∧ Answered H cfg m sig b ∧ m₂.kind = .saslFinal ∧
    verifyServerFinal m₂.text sig = true

structure Authenticated (ms : List Arrival) : Prop where
  ok : ∃ m ∈ ms, m.kind = .authOk
  sasl : ∀ a m rest, ms = a ++ m :: rest → m.kind = .sasl → Exchanged H cfg m rest

end Property

inductive Stage
  | start
  | asked
  | answered
  | finished
  | done
  deriving DecidableEq

def Stage.next : Stage → Kind → Option Stage
  | .start, .cleartext => some .start
  | .start, .md5 => some .start
  | .start, .authOk => some .done
  | .start, .sasl => some .asked
  | .asked, .saslContinue => some .answered
  | .answered, .saslFinal => some .finished
  | .finished, .authOk => some .done
  | .done, .readyForQuery => some .done
  | s, .parameterStatus => some s
  | s, .backendKeyData => some s
  | s, .other => some s
  | s, .lost => some s
  | s, .short => some s
  | s, .unsupported => some s
  | s, .errorResponse => some s
  | _, _ => none

def InOrder : Stage → List Arrival → Prop
  | _, [] => True
  | s, a :: as => match s.next a.kind with
    | none => False
    | some s' => a.kind = .readyForQuery ∨ InOrder s' as

instance InOrder.decidable : (s : Stage) → (as : List Arrival) → Decidable (InOrder s as)
  | _, [] => .isTrue trivial
  | s, a :: as =>
    match hnext : s.next a.kind with
    | none => .isFalse (by rw [InOrder, hnext]; exact id)
    | some s' =>
      have := InOrder.decidable s' as
      decidable_of_iff (a.kind = .readyForQuery ∨ InOrder s' as) (by rw [InOrder, hnext])

def Each (P : Arrival → List Arrival → Prop) (ms : List Arrival) : Prop :=
  ∀ a m rest, ms = a ++ m :: rest → m.kind = .sasl → P m rest

variable {P Q : Arrival → List Arrival → Prop}

lemma Each.add {ms : List Arrival} {x : Arrival}
    (h : Each P ms) (hx : x.kind = .sasl → Q x []) (hPQ : ∀ m rest, P m rest → Q m (rest ++ [x])) :
    Each Q (ms ++ [x]) := by
  intro a m rest heq hm
  rcases eq_nil_or_concat rest with rfl | ⟨rest', y, rfl⟩
  · obtain ⟨-, hlast⟩ := append_inj' heq rfl
    cases hlast
    exact hx hm
  · rw [concat_eq_append, ← cons_append, ← append_assoc] at heq
    obtain ⟨hms, hlast⟩ := append_inj' heq rfl
    cases hlast
    rw [concat_eq_append]
    exact hPQ m rest' (h a m rest' hms hm)

lemma Each.concat {ms : List Arrival} {x : Arrival}
    (h : Each P ms) (hx : x.kind ≠ .sasl) (hPQ : ∀ m rest, P m rest → Q m (rest ++ [x])) :
    Each Q (ms ++ [x]) := h.add (fun hsasl => absurd hsasl hx) hPQ

def Knows (H : Hashes) (cfg : Credentials) (h : Handshake) (ms : List Arrival) : Stage → Prop
  | .start => Each (fun _ _ => False) ms
  | .asked => Each (fun m rest => (∀ x ∈ rest, x.kind ≠ .sasl) ∧
      h.clientFirst = buildClientFirst m.random) ms
  | .answered => Each (fun m rest => Answered H cfg m h.serverSig rest) ms
  | .finished => Each (Exchanged H cfg) ms
  | .done => (∃ m ∈ ms, m.kind = .authOk) ∧ Each (Exchanged H cfg) ms

inductive Handled (H : Hashes) (cfg : Credentials) (h : Handshake) (x : Arrival)
    (h' : Handshake) : Prop
  | quiet (hkind : x.kind ≠ .sasl ∧ x.kind ≠ .saslContinue ∧ x.kind ≠ .saslFinal)
      (hfirst : h'.clientFirst = h.clientFirst) (hsig : h'.serverSig = h.serverSig)
  | sasl (hkind : x.kind = .sasl) (hfirst : h'.clientFirst = buildClientFirst x.random)
  | continue (hkind : x.kind = .saslContinue) (sf : ServerFirst)
      (hparse : parseServerFirst x.text = some sf)
      (hnonce : sf.rNonce.take h.clientFirst.clientNonce.length = h.clientFirst.clientNonce)
      (hsig : h'.serverSig =
        (buildClientFinal H cfg.password h.clientFirst sf).expectedServerSigB64)
  | final (hkind : x.kind = .saslFinal) (hverify : verifyServerFinal x.text h.serverSig = true)

lemma send_more {h h' : Handshake} {x : Arrival} {body : Bytes}
    (hmore : h.send x body = (.more, h')) :
    h'.clientFirst = h.clientFirst ∧ h'.serverSig = h.serverSig := by
  unfold Handshake.send at hmore
  split at hmore
  · cases hmore
  · cases hmore
    exact ⟨rfl, rfl⟩

lemma addParameter_spec (h : Handshake) (x : Arrival) :
    (h.addParameter x).clientFirst = h.clientFirst ∧ (h.addParameter x).serverSig
      = h.serverSig := by
  unfold Handshake.addParameter
  split
  · split_ifs <;> exact ⟨rfl, rfl⟩
  · exact ⟨rfl, rfl⟩

lemma setKey_spec (h : Handshake) (x : Arrival) :
    (h.setKey x).clientFirst = h.clientFirst ∧ (h.setKey x).serverSig = h.serverSig := by
  unfold Handshake.setKey
  split_ifs <;> exact ⟨rfl, rfl⟩

lemma handled_of_more {h h' : Handshake} {x : Arrival} (hmore : h.handle H cfg x = (.more, h')) :
    Handled H cfg h x h' := by
  unfold Handshake.handle at hmore
  cases hkind : x.kind with
  | lost | short | unsupported | errorResponse | readyForQuery =>
    rw [hkind] at hmore
    cases hmore
  | authOk | other =>
    rw [hkind] at hmore
    cases hmore
    exact .quiet (by simp [hkind]) rfl rfl
  | cleartext =>
    rw [hkind] at hmore
    obtain ⟨hfirst, hsig⟩ := send_more hmore
    exact .quiet (by simp [hkind]) hfirst hsig
  | md5 =>
    rw [hkind] at hmore
    split_ifs at hmore with hshort
    · cases hmore
    · obtain ⟨hfirst, hsig⟩ := send_more hmore
      exact .quiet (by simp [hkind]) hfirst hsig
  | parameterStatus =>
    rw [hkind] at hmore
    cases hmore
    exact .quiet (by simp [hkind]) (addParameter_spec h x).1 (addParameter_spec h x).2
  | backendKeyData =>
    rw [hkind] at hmore
    cases hmore
    exact .quiet (by simp [hkind]) (setKey_spec h x).1 (setKey_spec h x).2
  | sasl =>
    rw [hkind] at hmore
    dsimp only [Handshake.startSasl] at hmore
    split_ifs at hmore with hmech
    · cases hmore
    · split at hmore
      · cases hmore
        exact .sasl hkind rfl
      · rename_i r hr
        exact absurd hmore (hr h')
  | saslContinue =>
    rw [hkind] at hmore
    dsimp only [Handshake.continueSasl] at hmore
    split at hmore
    · cases hmore
    · rename_i sf hparse
      split_ifs at hmore with hnonce
      · cases hmore
      · exact .continue hkind sf hparse (not_not.1 hnonce) (send_more hmore).2
  | saslFinal =>
    rw [hkind] at hmore
    dsimp only [Handshake.finishSasl] at hmore
    split_ifs at hmore with hverify
    · exact .final hkind hverify
    · cases hmore

lemma send_ne_ready (h h' : Handshake) (x : Arrival) (body : Bytes) : h.send x body ≠
    (.ready, h') := by
  unfold Handshake.send
  split <;> simp [Handshake.fail]

lemma kind_of_ready {h h' : Handshake} {x : Arrival} (hready : h.handle H cfg x = (.ready, h')) :
    x.kind = .readyForQuery := by
  unfold Handshake.handle at hready
  cases hkind : x.kind with
  | readyForQuery => rfl
  | lost | short | unsupported | errorResponse | authOk | other | parameterStatus |
    backendKeyData =>
    rw [hkind] at hready
    cases hready
  | cleartext =>
    rw [hkind] at hready
    exact (send_ne_ready _ _ _ _ hready).elim
  | md5 =>
    rw [hkind] at hready
    split_ifs at hready
    · cases hready
    · exact (send_ne_ready _ _ _ _ hready).elim
  | sasl =>
    rw [hkind] at hready
    dsimp only [Handshake.startSasl] at hready
    split_ifs at hready
    · cases hready
    · split at hready
      · cases hready
      · exact (send_ne_ready _ _ _ _ hready).elim
  | saslContinue =>
    rw [hkind] at hready
    dsimp only [Handshake.continueSasl] at hready
    split at hready
    · cases hready
    · split_ifs at hready
      · cases hready
      · exact (send_ne_ready _ _ _ _ hready).elim
  | saslFinal =>
    rw [hkind] at hready
    dsimp only [Handshake.finishSasl] at hready
    split_ifs at hready
    · cases hready
    · cases hready

lemma Stage.next_quiet {s s' : Stage} {k : Kind} (h : s.next k = some s')
    (hk : k ≠ .sasl ∧ k ≠ .saslContinue ∧ k ≠ .saslFinal) :
    s' = s ∨ k = .authOk ∧ s' = .done ∧ (s = .start ∨ s = .finished) := by
  cases k <;> cases s <;> simp_all [Stage.next]

variable {rest : List Arrival}

lemma Answered.append {m : Arrival} {sig : Bytes} (h : Answered H cfg m sig rest)
    (ms : List Arrival) : Answered H cfg m sig (rest ++ ms) := by
  obtain ⟨b, m₁, c, sf, rfl, hb, hm₁⟩ := h
  exact ⟨b, m₁, c ++ ms, sf, by simp, hb, hm₁⟩

lemma Exchanged.append {m : Arrival} (h : Exchanged H cfg m rest)
    (ms : List Arrival) : Exchanged H cfg m (rest ++ ms) := by
  obtain ⟨b, m₂, c, sig, rfl, hb, hm₂⟩ := h
  exact ⟨b, m₂, c ++ ms, sig, by simp, hb, hm₂⟩

section Step

variable {h h' : Handshake} {ms : List Arrival} {s s' : Stage} {x : Arrival}

lemma Knows.quiet (hk : Knows H cfg h ms s) (hx : x.kind ≠ .sasl)
    (hfirst : h'.clientFirst = h.clientFirst) (hsig : h'.serverSig = h.serverSig) :
    Knows H cfg h' (ms ++ [x]) s := by
  cases s with
  | start => exact Each.concat hk hx fun m rest hm => hm
  | asked =>
    refine Each.concat hk hx fun m rest hm => ⟨fun y hy => ?_, hfirst.trans hm.2⟩
    rcases mem_append.1 hy with hy | hy
    · exact hm.1 y hy
    · rwa [mem_singleton.1 hy]
  | answered =>
    refine Each.concat hk hx fun m rest hm => ?_
    rw [hsig]
    exact hm.append _
  | finished => exact Each.concat hk hx fun m rest hm => hm.append _
  | done =>
    obtain ⟨⟨m, hm, hok⟩, heach⟩ := hk
    exact ⟨⟨m, mem_append_left _ hm, hok⟩, heach.concat hx fun m rest hm => hm.append _⟩

lemma Knows.authOk (hk : Knows H cfg h ms s) (hs : s = .start ∨ s = .finished)
    (hx : x.kind = .authOk) :
    Knows H cfg h' (ms ++ [x]) .done := by
  have hnone : x.kind ≠ .sasl := by simp [hx]
  refine ⟨⟨x, by simp, hx⟩, ?_⟩
  rcases hs with rfl | rfl
  · exact Each.concat hk hnone fun m rest hm => hm.elim
  · exact Each.concat hk hnone fun m rest hm => hm.append _

lemma Knows.step (hk : Knows H cfg h ms s) (hnext : s.next x.kind = some s')
    (hmore : h.handle H cfg x = (.more, h')) : Knows H cfg h' (ms ++ [x]) s' := by
  cases handled_of_more hmore with
  | quiet hkind hfirst hsig =>
    rcases Stage.next_quiet hnext hkind with rfl | ⟨hok, rfl, hs⟩
    · exact hk.quiet hkind.1 hfirst hsig
    · exact hk.authOk hs hok
  | sasl hkind hfirst =>
    -- An exchange begins only where there was none.
    rw [hkind] at hnext
    cases s with
    | start =>
      cases hnext
      exact Each.add hk (fun _ => ⟨by simp, hfirst⟩) fun m rest hm => hm.elim
    | asked | answered | finished | done => cases hnext
  | «continue» hkind sf hparse hnonce hsig =>
    have hnone : x.kind ≠ .sasl := by simp [hkind]
    rw [hkind] at hnext
    cases s with
    | asked =>
      cases hnext
      refine Each.concat hk hnone fun m rest hm => ?_
      rw [hm.2] at hnonce hsig
      exact ⟨rest, x, [], sf, rfl, hm.1, hkind, hparse, hnonce, hsig⟩
    | start | answered | finished | done => cases hnext
  | final hkind hverify =>
    have hnone : x.kind ≠ .sasl := by simp [hkind]
    rw [hkind] at hnext
    cases s with
    | answered =>
      cases hnext
      exact Each.concat hk hnone fun m rest hm => ⟨rest, x, [], _, rfl, hm, hkind, hverify⟩
    | start | asked | finished | done => cases hnext

end Step

lemma Knows.loop {h h' : Handshake} {ms : List Arrival} {s : Stage} (hk : Knows H cfg h ms s)
    (hord : InOrder s as) (hloop : Handshake.loop H cfg h as = some (true, h')) :
    Authenticated H cfg (ms ++ heard as) := by
  induction as generalizing h ms s with
  | nil => cases hloop
  | cons x as ih =>
    rw [InOrder] at hord
    cases hnext : s.next x.kind with
    | none =>
      rw [hnext] at hord
      exact hord.elim
    | some =>
      rw [hnext] at hord
      rw [Handshake.loop] at hloop
      by_cases hready : x.kind = .readyForQuery
      · rw [hready] at hnext
        have hheard : heard (x :: as) = [] := by simp [heard, hready]
        rw [hheard, append_nil]
        cases s with
        | done => exact ⟨hk.1, hk.2⟩
        | start | asked | answered | finished => cases hnext
      · have hheard : heard (x :: as) = x :: heard as := by simp [heard, hready]
        rw [hheard, append_cons]
        cases hhandle : h.handle H cfg x with
        | mk p =>
          rw [hhandle] at hloop
          cases p with
          | more => exact ih (hk.step hnext hhandle) (hord.resolve_left hready) hloop
          | ready => exact absurd (kind_of_ready hhandle) hready
          | failed => cases hloop

/-- A peer that keeps to the order of the protocol is authenticated when the connection is ready,
whatever an earlier `connect` has left in it. -/
theorem authenticated_of_ready (H : Hashes) (cfg : Credentials) (d : Dial) {as : List Arrival}
    {c c' : PgClient} {ok : Bool} (horder : InOrder .start as)
    (h : c.connect H cfg d as = some (ok, c')) (hready : c'.state = .Ready) :
    Authenticated H cfg (heard as) := by
  obtain ⟨-, h₀, hloop⟩ := loop_of_connect h hready
  have hstart : Knows H cfg h₀ [] .start := by
    intro a m rest heq
    cases a <;> cases heq
  exact hstart.loop horder hloop

def toyHashes : Hashes where
  hmacSha256 _ _ := [1, 2, 3]
  sha256 s := s
  pbkdf2 p _ _ := p
  md5Hex s := s

def localCredentials : Credentials := ⟨str "/run/pg", str "u", str "p", str "d"⟩

def authMessage (sub : UInt8) (text : String) : Arrival :=
  { type := 82, payload := 0 :: 0 :: 0 :: sub :: str text }

def readyMessage : Arrival := { type := 90, payload := str "I" }

def saslHandshake : List Arrival :=
  [authMessage 10 "SCRAM-SHA-256\x00\x00", authMessage 11 "r=abc,s=AQID,i=4096",
    authMessage 12 "v=AQID", authMessage 0 "", readyMessage]

theorem authenticated_saslHandshake : ∃ c', (PgClient.mk {} {}).connect toyHashes localCredentials
    { fd := 3, session := 0 } saslHandshake = some (true, c') ∧ c'.state = .Ready ∧
      Authenticated toyHashes localCredentials (heard saslHandshake) := by
  have hrun : ((PgClient.mk {} {}).connect toyHashes localCredentials { fd := 3, session := 0 }
      saslHandshake).map (fun r => (r.1, r.2.state)) = some (true, .Ready) := rfl
  obtain ⟨⟨ok, c'⟩, hconnect, heq⟩ := Option.map_eq_some_iff.1 hrun
  obtain ⟨rfl, hstate⟩ := Prod.mk.inj heq
  exact ⟨c', hconnect, hstate,
    authenticated_of_ready toyHashes localCredentials _ (by decide +kernel) hconnect hstate⟩

def shortHandshake : List Arrival :=
  [authMessage 10 "SCRAM-SHA-256\x00\x00", authMessage 12 "v=", authMessage 0 "", readyMessage]

def ReadyUnproven (as : List Arrival) : Prop :=
  ∃ c', (PgClient.mk {} {}).connect toyHashes localCredentials { fd := 3, session := 0 } as =
    some (true, c') ∧ c'.state = .Ready ∧ ¬ Authenticated toyHashes localCredentials (heard as)

lemma readyUnproven_of (hrun : ((PgClient.mk {} {}).connect toyHashes
    localCredentials { fd := 3, session := 0 } as).map (fun r => (r.1, r.2.state)) =
      some (true, .Ready)) (hnot : ¬ Authenticated toyHashes localCredentials (heard as)) :
    ReadyUnproven as := by
  obtain ⟨⟨ok, c'⟩, hconnect, heq⟩ := Option.map_eq_some_iff.1 hrun
  obtain ⟨rfl, hst⟩ := Prod.mk.inj heq
  exact ⟨c', hconnect, hst, hnot⟩

theorem not_authenticated : ReadyUnproven [readyMessage] ∧ ReadyUnproven shortHandshake := by
  refine ⟨readyUnproven_of rfl fun h => ?_,
    readyUnproven_of rfl fun h => ?_⟩
  · obtain ⟨m, hm, -⟩ := h.ok
    rw [show heard [readyMessage] = [] by decide +kernel] at hm
    cases hm
  · -- No message of the handshake is a SASLContinue.
    have hnone : ∀ m ∈ heard shortHandshake, m.kind ≠ .saslContinue := by decide +kernel
    have hheard : heard shortHandshake = [] ++ authMessage 10 "SCRAM-SHA-256\x00\x00" ::
        [authMessage 12 "v=", authMessage 0 ""] := rfl
    obtain ⟨b, m₂, c, sig, hrest, ⟨b', m₁, c', sf, rfl, -, hm₁, -⟩, -⟩ :=
      h.sasl _ _ _ hheard rfl
    refine hnone m₁ ?_ hm₁
    rw [hheard, hrest]
    simp

end SpidoNG.Pg
