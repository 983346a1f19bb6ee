import SpidoNG.Service.PostSystem

/-!
# Idempotency keys of several endpoints and callers

A key belongs to an endpoint and a caller.
-/

namespace SpidoNG.Service

open Bytes Pg Threads List Option PostStore

variable {Tid C : Type} {cfg : Config} {relation : Bytes → Bytes}
  {kind : Bytes → TextKind} {lib : Platform} {caller : Request → C}

abbrev PostSys (cfg : Config) (Tid : Type) := Sys Tid (PostStore cfg)
  (fun x : PostStep cfg => PostStep.Res x) (fun _ : Post cfg => Response)
  (fun _ : Post cfg => Response)

abbrev PostEvent (cfg : Config) (Tid : Type) := Threads.Event Tid (PostEnv cfg) (Post cfg)

def Post.scope (caller : Request → C) (c : Post cfg) : Bytes × C :=
  (c.resource.path, caller c.request)

structure Scoped (caller : Request → C) (S : PostStore cfg) : Prop where
  once : S.inserted.Pairwise fun w w' => w.2.key ≠ [] → w.2.scope caller = w'.2.scope caller →
    w.2.key ≠ w'.2.key
  refused : ∀ x ∈ S.refused, x.1.scope caller = x.2.scope caller
  replayed : ∀ x ∈ S.replayed, x.1.scope caller = x.2.scope caller

section

variable (relation caller)

def Compatible (c c' : Post cfg) : Prop :=
  c.key ≠ [] → c.key = c'.key → relation c.log = relation c'.log → c.scope caller = c'.scope caller

def Separate (σ : PostSys cfg Tid) : PostEvent cfg Tid → Prop
  | .enter t _ => ∀ c ∈ σ.next t,
      (∀ u, ∀ a ∈ σ.active u, Compatible relation caller c a.call) ∧
        ∀ r ∈ σ.calls, Compatible relation caller c r.call
  | .step _ env => env.Calm
  | _ => True

variable [DecidableEq C]

instance (c c' : Post cfg) : Decidable (Compatible relation caller c c') :=
  inferInstanceAs (Decidable (_ → _ → _ → _))

instance [Fintype Tid] (σ : PostSys cfg Tid) :
    (e : PostEvent cfg Tid) → Decidable (Separate relation caller σ e)
  | .start _ _ _ => .isTrue trivial
  | .enter _ _ => inferInstanceAs (Decidable (∀ _, _))
  | .step _ env => inferInstanceAs (Decidable env.Calm)
  | .leave _ => .isTrue trivial
  | .finish _ => .isTrue trivial

end

variable {c c' : Post cfg}

lemma Compatible.symm (h : Compatible relation caller c c') : Compatible relation caller c' c :=
  fun hkey heq hlog => (h (heq ▸ hkey) heq.symm hlog.symm).symm

section System

variable (relation kind lib caller)

structure Posted (σ : PostSys cfg Tid) : Prop where
  stamped : Stamped σ
  stage : ∀ {t a}, σ.active t = some a → ∃ p s, a.rest = signed (a.began, a.call) p ∧
    p.Keeps (PostNext cfg.auth a.call.resource a.call.request) s ∧
      At relation σ.shared (a.began, a.call) s
  agree : ∀ {n c n' c'}, Began σ n c → Began σ n' c' → Compatible relation caller c c'
  owner : ∀ {log key w}, σ.shared.owner log key = some w →
    Began σ w.1 w.2 ∧ log = relation w.2.log ∧ key = w.2.key ∧ key ≠ []
  inserted : ∀ {w}, w ∈ σ.shared.inserted → Began σ w.1 w.2 ∧ Owns relation σ.shared w
  keys : Scoped caller σ.shared

end System

variable {σ σ' : PostSys cfg Tid} {e : PostEvent cfg Tid}

namespace Posted

lemma act (h : Posted relation caller σ) (hkind : Understood kind cfg) {t : Tid} {env : PostEnv cfg}
    (henv : env.Calm) {b : ℕ} {x : PostStep cfg}
    {k : PostStep.Res x → Prog (PostStep cfg) PostStep.Res (Option Response)} {r : PostStep.Res x}
    (hbef : σ.active t = some ⟨c, b, .call x k⟩)
    (hexec : (postMachine relation kind lib Tid).exec σ.time env t x σ.shared
      = some (r, σ'.shared)) :
    Changes relation (b, c) σ.shared σ'.shared ∧ ∃ p s, k r = signed (b, c) p ∧
      p.Keeps (PostNext cfg.auth c.resource c.request) s ∧ At relation σ'.shared (b, c) s := by
  obtain ⟨p, s, hrest, hkeeps, hat⟩ : ∃ p s, .call x k = signed (b, c) p ∧
      p.Keeps (PostNext cfg.auth c.resource c.request) s ∧ At relation σ.shared (b, c) s :=
    h.stage hbef
  obtain ⟨op, k', rfl, hcall⟩ := signed_call hrest
  cases hcall
  obtain ⟨s', hnext, hkeeps'⟩ := hkeeps r
  obtain ⟨hchange, hat'⟩ := hat.next hkind henv hnext hexec
  exact ⟨hchange, k' r, s', rfl, hkeeps', hat'⟩

lemma changes (h : Posted relation caller σ) (hkind : Understood kind cfg)
    (hok : Separate relation caller σ e) (hc : Change (postMachine relation kind lib Tid) σ e σ') :
    σ'.shared = σ.shared ∨ ∃ w, Began σ w.1 w.2 ∧ Changes relation w σ.shared σ'.shared := by
  cases hc with
  | act t _ c b _ _ _ hev hbef hexec =>
    subst hev
    exact .inr ⟨(b, c), .inl ⟨t, _, hbef, rfl, rfl⟩, (h.act hkind hok hbef hexec).1⟩
  | quiet hshared | enter _ _ _ _ _ hshared | leave _ _ _ _ _ hshared => exact .inl hshared

lemma scope_eq (h : Posted relation caller σ) {v w : Sender cfg} (hv : Began σ v.1 v.2)
    (hw : σ.shared.owner (relation v.2.log) v.2.key = some w) :
    v.2.scope caller = w.2.scope caller := by
  obtain ⟨hbeg, hlog, hkey, hne⟩ := h.owner hw
  exact h.agree hv hbeg hne hkey hlog

section Step

variable (h : Posted relation caller σ) (hkind : Understood kind cfg)
  (hok : Separate relation caller σ e) (hc : Change (postMachine relation kind lib Tid) σ e σ')

include h hkind hok hc

lemma stage_step {t : Tid} {a : Threads.Active (fun x : PostStep cfg => PostStep.Res x)
      fun _ : Post cfg => Response} (ha : σ'.active t = some a) :
    ∃ p s, a.rest = signed (a.began, a.call) p ∧
      p.Keeps (PostNext cfg.auth a.call.resource a.call.request) s ∧
        At relation σ'.shared (a.began, a.call) s := by
  cases hc with
  | quiet hshared hact =>
    rw [hshared]
    exact h.stage ((hact t).symm.trans ha)
  | enter u _ _ _ _ hshared _ haft hoth =>
    rw [hshared]
    by_cases ht : t = u
    · subst ht
      cases haft.symm.trans ha
      refine ⟨_, .arrived, rfl, keeps_postHandler, fun hmem => ?_⟩
      exact absurd (h.stamped.began_lt (h.inserted hmem).1) (lt_irrefl _)
    · exact h.stage ((hoth t ht).symm.trans ha)
  | act u _ _ _ _ _ _ hev hbef hexec haft hoth =>
    subst hev
    obtain ⟨hchange, hstage⟩ := h.act hkind hok hbef hexec
    by_cases ht : t = u
    · subst ht
      cases haft.symm.trans ha
      exact hstage
    · have hold := (hoth t ht).symm.trans ha
      obtain ⟨p, s, hrest, hkeeps, hat⟩ := h.stage hold
      exact ⟨p, s, hrest, hkeeps, hat.other hchange fun hbeg =>
        ht (h.stamped.active_inj hold hbef hbeg)⟩
  | leave u _ _ _ _ hshared _ haft hoth =>
    rw [hshared]
    by_cases ht : t = u
    · subst ht
      cases haft.symm.trans ha
    · exact h.stage ((hoth t ht).symm.trans ha)

omit hkind in
lemma agree_step {n n' : ℕ} (hn : Began σ' n c) (hn' : Began σ' n' c') :
    Compatible relation caller c c' := by
  -- A request that begins agrees with all that have begun.
  have hnew : ∀ {t fuel c n' c'}, e = .enter t fuel → σ.next t = some c → Began σ n' c' →
      Compatible relation caller c c' := by
    rintro t fuel c n' c' rfl hnext (⟨u, a, ha, -, rfl⟩ | ⟨r, hr, -, rfl⟩)
    · exact (hok c hnext).1 u a ha
    · exact (hok c hnext).2 r hr
  rcases hc.began_cases hn with hold | ⟨t, fuel, hev, hnext⟩
  · rcases hc.began_cases hn' with hold' | ⟨t', fuel', hev', hnext'⟩
    · exact h.agree hold hold'
    · exact (hnew hev' hnext' hold).symm
  · rcases hc.began_cases hn' with hold' | ⟨t', fuel', hev', hnext'⟩
    · exact hnew hev hnext hold'
    · cases hev.symm.trans hev'
      cases hnext.symm.trans hnext'
      exact fun _ _ _ => rfl

lemma owner_step {log key : Bytes} {w : Sender cfg} (hw : σ'.shared.owner log key = some w) :
    Began σ' w.1 w.2 ∧ log = relation w.2.log ∧ key = w.2.key ∧ key ≠ [] := by
  have hold : σ.shared.owner log key = some w →
      Began σ' w.1 w.2 ∧ log = relation w.2.log ∧ key = w.2.key ∧ key ≠ [] :=
    fun hw => ⟨(h.owner hw).1.step hc, (h.owner hw).2⟩
  rcases h.changes hkind hok hc with heq | ⟨v, hv, hchange⟩
  · exact hold (heq ▸ hw)
  · rcases hchange.owner log key with heq | ⟨-, hclaim, hlog, hkey, hne⟩ | ⟨-, hclear, -⟩
    · exact hold (heq ▸ hw)
    · cases hclaim.symm.trans hw
      exact ⟨hv.step hc, hlog, hkey, hne⟩
    · cases hclear.symm.trans hw

lemma inserted_step {w : Sender cfg} (hw : w ∈ σ'.shared.inserted) :
    Began σ' w.1 w.2 ∧ Owns relation σ'.shared w := by
  rcases h.changes hkind hok hc with heq | ⟨v, hv, hchange⟩
  · rw [heq] at hw ⊢
    exact ⟨(h.inserted hw).1.step hc, (h.inserted hw).2⟩
  · have hold : w ∈ σ.shared.inserted → Began σ' w.1 w.2 ∧ Owns relation σ'.shared w := by
      intro hmem
      refine ⟨(h.inserted hmem).1.step hc, fun hkey => ?_⟩
      have hown := (h.inserted hmem).2 hkey
      rcases hchange.owner (relation w.2.log) w.2.key with heq | ⟨hfree, -⟩ | ⟨hheld, -, hnot⟩
      · exact heq.trans hown
      · cases hfree.symm.trans hown
      · cases hheld.symm.trans hown
        exact absurd hw hnot
    rcases hchange.inserted with heq | ⟨heq, -, hown⟩
    · exact hold (heq ▸ hw)
    · rcases mem_cons.1 (heq ▸ hw) with rfl | hmem
      · exact ⟨hv.step hc, hown⟩
      · exact hold hmem

lemma once_step : σ'.shared.inserted.Pairwise fun w w' => w.2.key ≠ [] →
    w.2.scope caller = w'.2.scope caller → w.2.key ≠ w'.2.key := by
  rcases h.changes hkind hok hc with heq | ⟨v, hv, hchange⟩
  · rw [heq]
    exact h.keys.once
  · rcases hchange.inserted with heq | ⟨heq, hnew, hown⟩
    · rw [heq]
      exact h.keys.once
    · rw [heq]
      refine pairwise_cons.2 ⟨fun w hw hkey hscope hsame => ?_, h.keys.once⟩
      -- One endpoint has one log, and both requests hold the key there.
      have hresource : v.2.resource = w.2.resource := Post.resource_eq (congrArg Prod.fst hscope)
      have hlog : w.2.log = v.2.log := by rw [Post.log, Post.log, hresource]
      have hmem : w ∈ σ'.shared.inserted := heq ▸ mem_cons_of_mem v hw
      have hheld := (h.inserted_step hkind hok hc hmem).2 (hsame ▸ hkey)
      rw [hlog, ← hsame, hown hkey] at hheld
      cases hheld
      exact hnew hw

lemma keys_step : Scoped caller σ'.shared := by
  refine ⟨h.once_step hkind hok hc, fun x hx => ?_, fun x hx => ?_⟩
  · rcases h.changes hkind hok hc with heq | ⟨v, hv, hchange⟩
    · exact h.keys.refused x (heq ▸ hx)
    · rcases hchange.refused x hx with hx | ⟨heq, w, hw, heq'⟩
      · exact h.keys.refused x hx
      · rw [heq, heq']
        exact h.scope_eq hv hw
  · rcases h.changes hkind hok hc with heq | ⟨v, hv, hchange⟩
    · exact h.keys.replayed x (heq ▸ hx)
    · rcases hchange.replayed x hx with hx | ⟨heq, w, hw, heq'⟩
      · exact h.keys.replayed x hx
      · rw [heq, heq']
        exact h.scope_eq hv hw

end Step

lemma step [DecidableEq Tid] (h : Posted relation caller σ) (hkind : Understood kind cfg)
    (hok : Separate relation caller σ e)
    (hstep : Threads.Step (postMachine relation kind lib Tid) σ e σ') :
    Posted relation caller σ' where
  stamped := h.stamped.step hstep.change hstep.time
  stage := h.stage_step hkind hok hstep.change
  agree := h.agree_step hok hstep.change
  owner := h.owner_step hkind hok hstep.change
  inserted := h.inserted_step hkind hok hstep.change
  keys := h.keys_step hkind hok hstep.change

lemma start : Posted relation caller (Sys.init init : PostSys cfg Tid) := by
  refine ⟨stamped_init _, ?_, ?_, ?_, ?_, ⟨List.Pairwise.nil, ?_, ?_⟩⟩
  · intro t a ha
    cases ha
  · rintro n c n' c' (⟨t, a, ha, -⟩ | ⟨r, hr, -⟩)
    · cases ha
    · cases hr
  · intro log key w hw
    cases hw
  · intro w hw
    cases hw
  · intro x hx
    cases hx
  · intro x hx
    cases hx

end Posted

/-- In every run whose steps meet the condition, keys belong to endpoints and callers. -/
theorem scoped_of_separate [DecidableEq Tid] (cfg : Config) (relation : Bytes → Bytes)
    (kind : Bytes → TextKind) (lib : Platform) (caller : Request → C) (hkind : Understood kind cfg)
    {es : List (PostEvent cfg Tid)} {σ : PostSys cfg Tid}
    (hok : Meets (postMachine relation kind lib Tid) (Separate relation caller)
      (Sys.init init) es)
    (hrun : run (postMachine relation kind lib Tid) (Sys.init init) es = some σ) :
    Scoped caller σ.shared := by
  have h : Posted relation caller σ :=
    run_induction (fun h hok hstep => h.step hkind hok hstep) Posted.start hok hrun
  exact h.keys

def loggedResource (path table : String) : Resource where
  path := str path
  table := str table
  methods := [.GET, .POST]
  columns := [str "name"]
  idempotency := { enabled := true }

def shopConfig : Config where
  resources := [loggedResource "/items" "items", loggedResource "/orders" "orders"]

lemma generated_shopConfig : shopConfig.generated =
    [loggedResource "/items" "items", loggedResource "/orders" "orders"] := by
  have hne : (loggedResource "/items" "items").table ≠
    (loggedResource "/orders" "orders").table := by
    decide +kernel
  unfold Config.generated
  refine pwFilter_eq_self.2 ?_
  simpa [shopConfig] using hne

def keyedPost (r : Resource) (routed : shopConfig.postRoute r.path = some r) (user : String) :
    Post shopConfig where
  resource := r
  routed := routed
  request := { newItem with
    path := r.path
    headers := [⟨str "Idempotency-Key", str "k"⟩, ⟨str "X-User-Id", str user⟩] }

lemma serves_create (path table : String) : (loggedResource path table).serves .create := rfl

lemma routed_items : shopConfig.postRoute (loggedResource "/items" "items").path =
    some (loggedResource "/items" "items") := by
  have hne : (loggedResource "/orders" "orders").path ≠ (loggedResource "/items" "items").path := by
    decide +kernel
  rw [Config.postRoute, generated_shopConfig]
  simp [hne, serves_create]

lemma routed_orders : shopConfig.postRoute (loggedResource "/orders" "orders").path =
    some (loggedResource "/orders" "orders") := by
  rw [Config.postRoute, generated_shopConfig]
  simp [serves_create]

def postItem (user : String) : Post shopConfig := keyedPost _ routed_items user

def postOrder (user : String) : Post shopConfig := keyedPost _ routed_orders user

def headerUser (req : Request) : Bytes := req.header (str "X-User-Id")

def shopMachine : Machine Unit (PostStore shopConfig) (PostEnv shopConfig)
    (fun x : PostStep shopConfig => PostStep.Res x) (fun _ : Post shopConfig => Response)
    (fun _ : Post shopConfig => Response) := postMachine id plainKind ⟨fun _ => []⟩ Unit

def served (c : Post shopConfig) (n : ℕ) : List (PostEvent shopConfig Unit) :=
  .start () c 0 :: .enter () 0 :: (replicate n (.step () {}) ++ [.leave (), .finish ()])

lemma understood_shopConfig : Understood plainKind shopConfig where
  begin := by decide +kernel
  commit := by decide +kernel
  rollback := by decide +kernel
  data c htx := by
    have hmem := mem_of_find?_eq_some c.routed
    rw [mem_reverse, generated_shopConfig] at hmem
    have hnot : ∀ path table, (loggedResource path table).transactional = false := fun _ _ => rfl
    rcases mem_cons.1 hmem with heq | hmem
    · rw [heq, hnot] at htx
      cases htx
    · rw [mem_singleton.1 hmem, hnot] at htx
      cases htx

theorem scoped_retry : ∃ σ, run shopMachine (Sys.init init)
      (served (postItem "u") 5 ++ served (postItem "u") 3) = some σ ∧
    σ.calls.map (·.ret.status) = [201, 201] ∧ σ.shared.inserted.length = 1 ∧
      σ.shared.replayed.length = 1 ∧ Scoped headerUser σ.shared := by
  have hmeets : meetsAll shopMachine (fun σ e => decide (Separate id headerUser σ e))
      (Sys.init init) (served (postItem "u") 5 ++ served (postItem "u") 3) = true := by
    decide +kernel
  have heval : (run shopMachine (Sys.init init)
      (served (postItem "u") 5 ++ served (postItem "u") 3)).map (fun σ =>
        (σ.calls.map (·.ret.status), σ.shared.inserted.length, σ.shared.replayed.length)) =
      some ([201, 201], 1, 1) := by decide +kernel
  obtain ⟨σ, hrun, hσ⟩ := map_eq_some_iff.1 heval
  simp only [Prod.mk.injEq] at hσ
  obtain ⟨hstatus, hinserted, hreplayed⟩ := hσ
  refine ⟨σ, hrun, hstatus, hinserted, hreplayed, ?_⟩
  refine scoped_of_separate shopConfig id plainKind ⟨fun _ => []⟩ headerUser
    understood_shopConfig ?_ hrun
  exact (meets_of_meetsAll hmeets).mono fun σ e => of_decide_eq_true

lemma Scoped.scope_eq {S : PostStore cfg} (h : Scoped caller S)
    {p q : Bytes × C} (hS : S.replayed.map (fun x => (x.1.scope caller, x.2.scope caller))
      = [(p, q)]) :
    p = q := by
  obtain ⟨x, rest, hreplay, hx, -⟩ := map_eq_cons_iff.1 hS
  obtain ⟨rfl, rfl⟩ := Prod.mk.inj hx
  exact h.replayed x (hreplay ▸ mem_cons_self)

theorem not_scoped : shopConfig.Accepted ∧ (∃ σ, run shopMachine (Sys.init init)
        (served (postItem "u") 5 ++ served (postOrder "u") 3) = some σ ∧
      ¬ Scoped headerUser σ.shared) ∧ ∃ σ, run shopMachine (Sys.init init)
        (served (postItem "u") 5 ++ served (postItem "v") 3) = some σ ∧
      ¬ Scoped headerUser σ.shared := by
  refine ⟨by unfold Config.Accepted; decide +kernel, ?_, ?_⟩
  · have heval : (run shopMachine (Sys.init init)
        (served (postItem "u") 5 ++ served (postOrder "u") 3)).map
        (fun σ => σ.shared.replayed.map fun x => (x.1.scope headerUser, x.2.scope headerUser)) =
        some [((str "/orders", str "u"), (str "/items", str "u"))] := by decide +kernel
    obtain ⟨σ, hrun, hσ⟩ := map_eq_some_iff.1 heval
    exact ⟨σ, hrun, fun h => absurd (h.scope_eq hσ) (by decide +kernel)⟩
  · have heval : (run shopMachine (Sys.init init)
        (served (postItem "u") 5 ++ served (postItem "v") 3)).map
        (fun σ => σ.shared.replayed.map fun x => (x.1.scope headerUser, x.2.scope headerUser)) =
        some [((str "/items", str "v"), (str "/items", str "u"))] := by decide +kernel
    obtain ⟨σ, hrun, hσ⟩ := map_eq_some_iff.1 heval
    exact ⟨σ, hrun, fun h => absurd (h.scope_eq hσ) (by decide +kernel)⟩

end SpidoNG.Service
