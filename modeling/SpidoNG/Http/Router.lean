import SpidoNG.Lib.Bytes

/-!
# The router

`Router` (`spido/src/server/router.cpp`) for the routes of one method: a table of paths without
parameters, and a trie of segments for the others.
-/

namespace SpidoNG.Http

open List Option Function

open Bytes (str)

structure Route (α : Type) where
  path : Bytes
  entry : α

def pathHasPattern (path : Bytes) : Bool := path.any fun c => c = 58 || c = 42

def segments (path : Bytes) : List Bytes :=
  let l := (if path.head? = some 47 then path.tail else path).splitOn 47
  if l.getLast? = some [] then l.dropLast else l

structure TrieNode (β : Type) where
  kids : Bytes → Option (TrieNode β) := fun _ => none
  wildcard : Option (TrieNode β) := none
  paramName : Bytes := []
  entry : Option β := none

abbrev Params := List (Bytes × Bytes)

namespace TrieNode

variable {β : Type}

def insert (e : β) : List Bytes → TrieNode β → TrieNode β
  | [], n => { n with entry := some e }
  | seg :: segs, n =>
    if seg.head? = some 58 then
      -- The name of a parameter is that of the route that makes the node.
      { n with wildcard := some (insert e segs (n.wildcard.getD { paramName := seg.tail })) }
    else { n with kids := update n.kids seg (some (insert e segs ((n.kids seg).getD {}))) }

def matchTrie : List Bytes → TrieNode β → Params → Option β × Params
  | [], n, out => (n.entry, out)
  | seg :: segs, n, out =>
    match n.kids seg with
    | some kid => kid.matchTrie segs out
    | none =>
      match n.wildcard with
      | some w => w.matchTrie segs (out ++ [(w.paramName, seg)])
      | none => (none, out)

end TrieNode

structure Router (α : Type) where
  table : Bytes → Option (Route α) := fun _ => none
  trie : TrieNode (Route α) := {}

namespace Router

variable {α : Type}

def add (R : Router α) (r : Route α) : Router α :=
  if pathHasPattern r.path then { R with trie := R.trie.insert r (segments r.path) }
  else { R with table := update R.table r.path (some r) }

def find (R : Router α) (path : Bytes) (out : Params) : Option (Route α) × Params :=
  match R.table path with
  | some r => (some r, out)
  | none => R.trie.matchTrie (segments path) out

def ofRoutes (rs : List (Route α)) : Router α := rs.foldl add {}

end Router

inductive Matches : List Bytes → List Bytes → Prop
  | done : Matches [] []
  | rest {p : Bytes} {segs : List Bytes} (hp : p.head? = some 42) : Matches [p] segs
  | param {p s : Bytes} {ps segs : List Bytes} (hp : p.head? = some 58) (h : Matches ps segs) :
      Matches (p :: ps) (s :: segs)
  | literal {s : Bytes} {ps segs : List Bytes} (h : Matches ps segs) : Matches (s :: ps) (s :: segs)

def ownParams : List Bytes → List Bytes → Params
  | p :: ps, s :: segs =>
    if p.head? = some 58 then (p.tail, s) :: ownParams ps segs else ownParams ps segs
  | _, _ => []

variable {α β : Type}

def Finds (rs : List (Route α)) (path : Bytes) (out : Params) : Prop :=
  ((((Router.ofRoutes rs).find path out).1.isSome = true) ↔
      ∃ r ∈ rs, Matches (segments r.path) (segments path)) ∧
    ∀ r, ((Router.ofRoutes rs).find path out).1 = some r →
      r ∈ rs ∧ Matches (segments r.path) (segments path)

def Captures (rs : List (Route α)) (path : Bytes) (out : Params) : Prop :=
  (∀ r, ((Router.ofRoutes rs).find path out).1 = some r → pathHasPattern r.path = true →
      ((Router.ofRoutes rs).find path out).2 = out ++ ownParams (segments r.path) (segments path)) ∧
    (((Router.ofRoutes rs).find path out).1 = none → ((Router.ofRoutes rs).find path out).2 = out)

def edge (p : Bytes) : Option Bytes := if p.head? = some 58 then none else some p

def next (d : Option Bytes) (x : List Bytes × β) : Option (List Bytes × β) :=
  match x.1 with
  | p :: ps => if edge p = d then some (ps, x.2) else none
  | [] => none

def below (d : Option Bytes) (P : List (List Bytes × β)) : List (List Bytes × β) :=
  P.filterMap (next d)

def headName (x : List Bytes × β) : Option Bytes :=
  match x.1 with
  | p :: _ => if edge p = none then some p.tail else none
  | [] => none

def nameAt (P : List (List Bytes × β)) : Bytes := (P.findSome? headName).getD []

def here (P : List (List Bytes × β)) : Option β := (P.filter fun x => x.1 = []).getLast?.map (·.2)

def patterns (rs : List (Route α)) : List (List Bytes × Route α) :=
  (rs.filter fun r => pathHasPattern r.path).map fun r => (segments r.path, r)

/-- The route `r`, of which `ps` is left, is where the walk ends: it has the segments of the path,
or a parameter where no route that is left has the segment; and it was the last to be added. -/
def Direct (r : β) : List (List Bytes × β) → List Bytes → List Bytes → Prop
  | P, [], [] => here P = some r
  | P, p :: ps, s :: segs =>
    (edge p = some s ∨ edge p = none ∧ below (some s) P = []) ∧ Direct r (below (edge p) P) ps segs
  | _, _, _ => False

def OwnNames : List (List Bytes × β) → List Bytes → Prop
  | _, [] => True
  | P, p :: ps => (edge p = none → nameAt P = p.tail) ∧ OwnNames (below (edge p) P) ps

def Strays : List (List Bytes × β) → List Bytes → List Bytes → Prop
  | P, p :: ps, s :: segs =>
    edge p = none ∧ below (some s) P = [] ∨ edge p = some s ∧ Strays (below (some s) P) ps segs
  | _, _, _ => False

section

variable {P : List (List Bytes × β)} {d : Option Bytes} {p s : Bytes} {ps segs : List Bytes} {r : β}
  {n : Bytes} {out : Params}

lemma edge_eq_none : edge p = none ↔ p.head? = some 58 := by simp [edge]

lemma edge_eq_some : edge p = some s ↔ p.head? ≠ some 58 ∧ p = s := by simp [edge]

lemma mem_below : (ps, r) ∈ below d P ↔ ∃ p, edge p = d ∧ (p :: ps, r) ∈ P := by
  simp only [below, mem_filterMap]
  constructor
  · rintro ⟨⟨ps', r'⟩, hmem, hnext⟩
    cases ps' with
    | nil => cases hnext
    | cons p ps' =>
      simp only [next] at hnext
      split_ifs at hnext with hp
      cases hnext
      exact ⟨p, hp, hmem⟩
  · rintro ⟨p, hp, hmem⟩
    exact ⟨_, hmem, by simp [next, hp]⟩

lemma below_eq_nil_iff : below d P = [] ↔ ∀ p ps r, (p :: ps, r) ∈ P → edge p ≠ d := by
  simp only [eq_nil_iff_forall_not_mem, Prod.forall, mem_below, not_exists, not_and]
  exact ⟨fun h p ps r hmem hp => h ps r p hp hmem, fun h ps r p hp hmem => h p ps r hmem hp⟩

def trie (n : Bytes) (P : List (List Bytes × β)) : TrieNode β :=
  P.foldl (fun t x => t.insert x.2 x.1) { paramName := n }

lemma trie_concat : trie n (P ++ [(ps, r)]) = (trie n P).insert r ps := by simp [trie]

def child (t : TrieNode β) : Option Bytes → Option (TrieNode β)
  | none => t.wildcard
  | some s => t.kids s

lemma child_insert (t : TrieNode β) : child (t.insert r (p :: ps)) d = if edge p = d then
      some (((child t d).getD { paramName := if d = none then p.tail else [] }).insert r ps)
    else child t d := by
  conv_lhs => unfold TrieNode.insert
  unfold edge
  by_cases hp : p.head? = some 58
  · cases d <;> simp [hp, child]
  · cases d with
    | none => simp [hp, child]
    | some s =>
      by_cases hs : p = s
      · subst hs
        simp [hp, child]
      · simp [hp, child, hs, update_of_ne (Ne.symm hs)]

lemma findSome?_headName_eq_none : P.findSome? headName = none ↔ below none P = [] := by
  rw [findSome?_eq_none_iff, below_eq_nil_iff]
  constructor
  · intro h p ps r hmem hp
    simpa [headName, hp] using h _ hmem
  · rintro h ⟨_ | ⟨p, ps⟩, r⟩ hmem
    · rfl
    · simp [headName, h p ps r hmem]

def nameOf (d : Option Bytes) (P : List (List Bytes × β)) : Bytes :=
  if d = none then nameAt P else []

lemma nameOf_append (h : below d P ≠ []) (x : List Bytes × β) :
    nameOf d (P ++ [x]) = nameOf d P := by
  unfold nameOf
  split_ifs with hd
  · subst hd
    obtain ⟨m, hm⟩ := ne_none_iff_exists'.1 (mt findSome?_headName_eq_none.1 h)
    simp [nameAt, findSome?_append, hm]
  · rfl

lemma child_trie : child (trie n P) d =
    if below d P = [] then none else some (trie (nameOf d P) (below d P)) := by
  induction P using reverseRecOn with
  | nil => cases d <;> rfl
  | append_singleton P x ih =>
    obtain ⟨ps, r⟩ := x
    have hskip (hsame : child (trie n (P ++ [(ps, r)])) d = child (trie n P) d)
        (hbelow : below d (P ++ [(ps, r)]) = below d P) :
        child (trie n (P ++ [(ps, r)])) d = if below d (P ++ [(ps, r)]) = [] then none
          else some (trie (nameOf d (P ++ [(ps, r)])) (below d (P ++ [(ps, r)]))) := by
      rw [hsame, ih, hbelow]
      split_ifs with hnone
      · rfl
      · rw [nameOf_append hnone]
    cases ps with
    | nil =>
      refine hskip ?_ (by simp [below, next])
      rw [trie_concat]
      cases d <;> rfl
    | cons p ps =>
      by_cases hp : edge p = d
      · have hbelow : below d (P ++ [(p :: ps, r)]) = below d P ++ [(ps, r)] := by
          simp [below, next, hp]
        rw [trie_concat, child_insert, if_pos hp, ih, hbelow,
          if_neg (append_ne_nil_of_right_ne_nil _
          (cons_ne_nil _ _))]
        by_cases hnone : below d P = []
        · have hname : nameOf d (P ++ [(p :: ps, r)]) = if d = none then p.tail else [] := by
            unfold nameOf
            split_ifs with hd
            · subst hd
              simp [nameAt, findSome?_append, findSome?_headName_eq_none.2 hnone, headName, hp]
            · rfl
          rw [if_pos hnone, hname, hnone]
          rfl
        · rw [if_neg hnone, nameOf_append hnone, trie_concat]
          rfl
      · refine hskip ?_ (by simp [below, next, hp])
        rw [trie_concat, child_insert, if_neg hp]

lemma entry_trie : (trie n P).entry = here P := by
  induction P using reverseRecOn with
  | nil => rfl
  | append_singleton P x ih =>
    obtain ⟨ps, r⟩ := x
    rw [trie_concat]
    cases ps with
    | nil => simp [TrieNode.insert, here]
    | cons p ps =>
      have hkept : ((trie n P).insert r (p :: ps)).entry = (trie n P).entry := by
        unfold TrieNode.insert
        split_ifs <;> rfl
      rw [hkept, ih]
      simp [here]

lemma paramName_trie : (trie n P).paramName = n := by
  induction P using reverseRecOn with
  | nil => rfl
  | append_singleton P x ih =>
    obtain ⟨ps, r⟩ := x
    have hkept : ((trie n P).insert r ps).paramName = (trie n P).paramName := by
      unfold TrieNode.insert
      split
      · rfl
      · split_ifs <;> rfl
    rw [trie_concat, hkept, ih]

lemma matchTrie_trie : (trie n P).matchTrie (s :: segs) out =
    if below (some s) P ≠ [] then (trie [] (below (some s) P)).matchTrie segs out
    else if below none P ≠ [] then
      (trie (nameAt P) (below none P)).matchTrie segs (out ++ [(nameAt P, s)])
    else (none, out) := by
  have hkid : (trie n P).kids s = _ := child_trie (d := some s)
  have hwild : (trie n P).wildcard = _ := child_trie (d := none)
  conv_lhs => unfold TrieNode.matchTrie
  rw [hkid, hwild]
  by_cases hs : below (some s) P = []
  · by_cases hw : below none P = []
    · simp [hs, hw]
    · simp [hs, hw, nameOf, paramName_trie]
  · simp [hs, nameOf]

lemma prefix_matchTrie (t : TrieNode β) (segs : List Bytes) (out : Params) :
    out <+: (t.matchTrie segs out).2 := by
  induction segs generalizing t out with
  | nil => exact prefix_rfl
  | cons s segs ih =>
    unfold TrieNode.matchTrie
    split
    · exact ih _ _
    · split
      · exact (prefix_append _ _).trans (ih _ _)
      · exact prefix_rfl

lemma matches_of_direct (h : Direct r P ps segs) : Matches ps segs := by
  induction ps generalizing P segs with
  | nil =>
    cases segs with
    | nil => exact .done
    | cons s segs => cases h
  | cons p ps ih =>
    cases segs with
    | nil => cases h
    | cons s segs =>
      obtain ⟨hp | ⟨hp, -⟩, h⟩ := h
      · obtain ⟨-, rfl⟩ := edge_eq_some.1 hp
        exact .literal (ih h)
      · exact .param (edge_eq_none.1 hp) (ih h)

lemma direct_of_matchTrie (h : ((trie n P).matchTrie segs out).1 = some r) :
    ∃ ps, (ps, r) ∈ P ∧ Direct r P ps segs := by
  induction segs generalizing n P out with
  | nil =>
    have hhere : here P = some r := entry_trie.symm.trans h
    obtain ⟨⟨ps, r⟩, hlast, rfl⟩ := map_eq_some_iff.1 hhere
    have hmem := mem_of_getLast? hlast
    simp only [List.mem_filter, decide_eq_true_eq] at hmem
    obtain ⟨hmem, rfl⟩ := hmem
    exact ⟨[], hmem, hhere⟩
  | cons s segs ih =>
    rw [matchTrie_trie] at h
    split_ifs at h with hs hw
    · obtain ⟨ps, hmem, hdirect⟩ := ih h
      obtain ⟨p, hp, hmem⟩ := mem_below.1 hmem
      exact ⟨p :: ps, hmem, .inl hp, hp ▸ hdirect⟩
    · obtain ⟨ps, hmem, hdirect⟩ := ih h
      obtain ⟨p, hp, hmem⟩ := mem_below.1 hmem
      exact ⟨p :: ps, hmem, .inr ⟨hp, not_not.1 hs⟩, hp ▸ hdirect⟩

lemma matchTrie_of_direct (hmem : (ps, r) ∈ P) (h : Direct r P ps segs) (n : Bytes) (out : Params) :
    ((trie n P).matchTrie segs out).1 = some r ∧
      (((trie n P).matchTrie segs out).2 = out ++ ownParams ps segs ↔ OwnNames P ps) := by
  induction ps generalizing n P segs out with
  | nil =>
    cases segs with
    | nil => exact ⟨entry_trie.trans h, by simp [TrieNode.matchTrie, ownParams, OwnNames]⟩
    | cons s segs => cases h
  | cons p ps ih =>
    cases segs with
    | nil => cases h
    | cons s segs =>
      have hleft : (ps, r) ∈ below (edge p) P := mem_below.2 ⟨p, rfl, hmem⟩
      have hsome := ne_nil_of_mem hleft
      obtain ⟨hp | ⟨hp, hs⟩, h⟩ := h
      · rw [hp] at hleft hsome h
        rw [matchTrie_trie, if_pos hsome]
        have hown : ownParams (p :: ps) (s :: segs) = ownParams ps segs :=
          if_neg (edge_eq_some.1 hp).1
        simpa [OwnNames, hp, hown] using ih hleft h [] out
      · rw [hp] at hleft hsome h
        rw [matchTrie_trie, if_neg (not_not.2 hs), if_pos hsome]
        obtain ⟨hfound, hparams⟩ := ih hleft h (nameAt P) (out ++ [(nameAt P, s)])
        have hown : ownParams (p :: ps) (s :: segs) = (p.tail, s) :: ownParams ps segs :=
          if_pos (edge_eq_none.1 hp)
        refine ⟨hfound, ?_⟩
        simp only [OwnNames, hp, hown, true_imp_iff]
        rw [← hparams]
        constructor
        · intro hall
          have hprefix := prefix_matchTrie (trie (nameAt P) (below none P)) segs
            (out ++ [(nameAt P, s)])
          rw [hall, prefix_append_right_inj, cons_prefix_cons] at hprefix
          have hname : nameAt P = p.tail := congrArg Prod.fst hprefix.1
          rw [hall, hname]
          simp
        · rintro ⟨hname, hrest⟩
          rw [hrest, hname]
          simp

lemma strays_iff : ((trie n P).matchTrie segs out).2 = out ↔
    ∀ ps r, (ps, r) ∈ P → ¬ Strays P ps segs := by
  induction segs generalizing n P out with
  | nil =>
    simp only [TrieNode.matchTrie, true_iff]
    intro ps r _ h
    cases ps <;> cases h
  | cons s segs ih =>
    rw [matchTrie_trie]
    split_ifs with hs hw
    · rw [ih]
      constructor
      · rintro h (_ | ⟨p, ps⟩) r hmem hstray
        · cases hstray
        · rcases hstray with ⟨-, hnone⟩ | ⟨hp, hstray⟩
          · exact hs hnone
          · exact h ps r (mem_below.2 ⟨p, hp, hmem⟩) hstray
      · intro h ps r hmem hstray
        obtain ⟨p, hp, hmem⟩ := mem_below.1 hmem
        exact h (p :: ps) r hmem (.inr ⟨hp, hstray⟩)
    · constructor
      · intro hout
        have hprefix := prefix_matchTrie (trie (nameAt P) (below none P)) segs
          (out ++ [(nameAt P, s)])
        simpa [hout] using hprefix.length_le
      · intro h
        refine absurd (below_eq_nil_iff.2 fun p ps r hmem hp => ?_) hw
        exact h (p :: ps) r hmem (.inl ⟨hp, not_not.1 hs⟩)
    · simp only [true_iff]
      rintro (_ | ⟨p, ps⟩) r hmem hstray
      · cases hstray
      · rcases hstray with ⟨hp, -⟩ | ⟨hp, -⟩
        · exact below_eq_nil_iff.1 (not_not.1 hw) p ps r hmem hp
        · exact below_eq_nil_iff.1 (not_not.1 hs) p ps r hmem hp

end

def Static (rs : List (Route α)) (path : Bytes) : Prop :=
  ∃ r ∈ rs, pathHasPattern r.path = false ∧ r.path = path

def Ends (rs : List (Route α)) (path : Bytes) (r : Route α) : Prop :=
  r ∈ rs ∧ pathHasPattern r.path = true ∧ Direct r (patterns rs) (segments r.path) (segments path)

section

variable {rs : List (Route α)} {path : Bytes} {out : Params} {r : Route α}

lemma mem_patterns {ps : List Bytes} : (ps, r) ∈ patterns rs ↔
    r ∈ rs ∧ pathHasPattern r.path ∧ ps = segments r.path := by
  simp only [patterns, List.mem_map, List.mem_filter, Prod.mk.injEq]
  constructor
  · rintro ⟨r, ⟨hmem, hpat⟩, rfl, rfl⟩
    exact ⟨hmem, hpat, rfl⟩
  · rintro ⟨hmem, hpat, rfl⟩
    exact ⟨r, ⟨hmem, hpat⟩, rfl, rfl⟩

lemma ofRoutes_eq (rs : List (Route α)) : (Router.ofRoutes rs).trie = trie [] (patterns rs) ∧
    ∀ path, (Router.ofRoutes rs).table path =
      rs.reverse.find? fun r => !pathHasPattern r.path && r.path == path := by
  induction rs using reverseRecOn with
  | nil => exact ⟨rfl, fun _ => rfl⟩
  | append_singleton rs r ih =>
    have hadd : Router.ofRoutes (rs ++ [r]) = (Router.ofRoutes rs).add r :=
      by simp [Router.ofRoutes]
    rw [hadd]
    unfold Router.add
    split_ifs with hpat
    · refine ⟨?_, fun path => ?_⟩
      · have hmore : patterns (rs ++ [r]) = patterns rs ++ [(segments r.path, r)] := by
          simp [patterns, hpat]
        rw [hmore, trie_concat, ← ih.1]
      · simp [hpat, ih.2 path]
    · refine ⟨?_, fun path => ?_⟩
      · have hsame : patterns (rs ++ [r]) = patterns rs := by simp [patterns, hpat]
        rw [hsame, ← ih.1]
      · by_cases hpath : r.path = path
        · subst hpath
          simp [hpat]
        · simp [hpath, update_of_ne (Ne.symm hpath), ih.2 path]

lemma find_of_static (h : Static rs path) (out : Params) : ∃ r ∈ rs, pathHasPattern r.path = false ∧
    r.path = path ∧ (Router.ofRoutes rs).find path out = (some r, out) := by
  obtain ⟨r, hmem, hplain, rfl⟩ := h
  have hsome : (rs.reverse.find? fun x => !pathHasPattern x.path && x.path == r.path).isSome :=
    find?_isSome.2 ⟨r, mem_reverse.2 hmem, by simp [hplain]⟩
  obtain ⟨r', hlast⟩ := isSome_iff_exists.1 hsome
  have hfound := find?_some hlast
  simp only [Bool.and_eq_true, Bool.not_eq_true', beq_iff_eq] at hfound
  refine ⟨r', mem_reverse.1 (mem_of_find?_eq_some hlast), hfound.1, hfound.2, ?_⟩
  simp only [Router.find, (ofRoutes_eq rs).2, hlast]

lemma find_of_not_static (h : ¬ Static rs path) : (Router.ofRoutes rs).find path out =
    (trie [] (patterns rs)).matchTrie (segments path) out := by
  have hnone : rs.reverse.find? (fun r => !pathHasPattern r.path && r.path == path) = none := by
    refine find?_eq_none.2 fun r hmem hr => h ⟨r, mem_reverse.1 hmem, ?_⟩
    simpa using hr
  simp only [Router.find, (ofRoutes_eq rs).2, hnone, (ofRoutes_eq rs).1]

lemma find_eq_some_iff (h : ¬ Static rs path) (out : Params) :
    ((Router.ofRoutes rs).find path out).1 = some r ↔ Ends rs path r := by
  rw [find_of_not_static h]
  constructor
  · intro hfound
    obtain ⟨ps, hmem, hdirect⟩ := direct_of_matchTrie hfound
    obtain ⟨hr, hpat, rfl⟩ := mem_patterns.1 hmem
    exact ⟨hr, hpat, hdirect⟩
  · rintro ⟨hr, hpat, hdirect⟩
    exact (matchTrie_of_direct (mem_patterns.2 ⟨hr, hpat, rfl⟩) hdirect [] out).1

lemma matches_self (l : List Bytes) : Matches l l := by
  induction l with
  | nil => exact .done
  | cons s l ih => exact .literal ih

end

theorem finds_iff_ends (rs : List (Route α)) (path : Bytes) (out : Params) : Finds rs path out ↔
    ((∃ r ∈ rs, Matches (segments r.path) (segments path)) →
      Static rs path ∨ ∃ r, Ends rs path r) := by
  by_cases hstatic : Static rs path
  · obtain ⟨r, hmem, -, rfl, hfind⟩ := find_of_static hstatic out
    simp only [Finds, hfind, hstatic, true_or, implies_true, iff_true, isSome_some, true_iff,
      some.injEq, forall_eq']
    exact ⟨⟨r, hmem, matches_self _⟩, hmem, matches_self _⟩
  · have hsound : ∀ r, ((Router.ofRoutes rs).find path out).1 = some r →
        r ∈ rs ∧ Matches (segments r.path) (segments path) := by
      intro r hfound
      obtain ⟨hr, -, hdirect⟩ := (find_eq_some_iff hstatic out).1 hfound
      exact ⟨hr, matches_of_direct hdirect⟩
    simp only [Finds, hstatic, false_or, isSome_iff_exists, ← find_eq_some_iff hstatic out]
    constructor
    · exact fun h => h.1.2
    · exact fun h => ⟨⟨fun ⟨r, hr⟩ => ⟨r, hsound r hr⟩, h⟩, hsound⟩

theorem not_finds_deadEnd :
    ¬ Finds [⟨str "/users/me/:tab", 0⟩, ⟨str "/:kind/:id", 1⟩] (str "/users/7") [] := by
  intro h
  have hnone : ((Router.ofRoutes [⟨str "/users/me/:tab", 0⟩, ⟨str "/:kind/:id", 1⟩]).find
      (str "/users/7") []).1.isSome = false := rfl
  have hmatch : Matches (segments (str "/:kind/:id")) (segments (str "/users/7")) := by
    have hpattern : segments (str "/:kind/:id") = [str ":kind", str ":id"] := rfl
    have hpath : segments (str "/users/7") = [str "users", str "7"] := rfl
    rw [hpattern, hpath]
    exact .param rfl (.param rfl .done)
  have hsome := h.1.2 ⟨_, mem_cons_of_mem _ (mem_singleton_self _), hmatch⟩
  rw [hnone] at hsome
  cases hsome

theorem captures_iff_ownNames (rs : List (Route α)) (path : Bytes) (out : Params) :
    Captures rs path out ↔
    Static rs path ∨ (∀ r, Ends rs path r → OwnNames (patterns rs) (segments r.path)) ∧
      ((∀ r, ¬ Ends rs path r) → ∀ r ∈ rs, pathHasPattern r.path = true →
        ¬ Strays (patterns rs) (segments r.path) (segments path)) := by
  by_cases hstatic : Static rs path
  · obtain ⟨r, hmem, hplain, -, hfind⟩ := find_of_static hstatic out
    simp [Captures, hfind, hstatic, hplain]
  · simp only [Captures, hstatic, false_or]
    refine and_congr (forall_congr' fun r => ?_) ?_
    · rw [find_eq_some_iff hstatic out]
      refine imp_congr_right fun hends => ?_
      rw [find_of_not_static hstatic]
      have hparams := matchTrie_of_direct (mem_patterns.2 ⟨hends.1, hends.2.1, rfl⟩)
        hends.2.2 [] out
      simp only [hends.2.1, true_imp_iff]
      exact hparams.2
    · have hnone : ((Router.ofRoutes rs).find path out).1 = none ↔ ∀ r, ¬ Ends rs path r := by
        simp only [eq_none_iff_forall_ne_some, ne_eq, find_eq_some_iff hstatic]
      rw [hnone, find_of_not_static hstatic, strays_iff]
      refine imp_congr_right fun _ => ⟨fun h r hr hpat => ?_, fun h ps r hmem => ?_⟩
      · exact h _ r (mem_patterns.2 ⟨hr, hpat, rfl⟩)
      · obtain ⟨hr, hpat, rfl⟩ := mem_patterns.1 hmem
        exact h r hr hpat

theorem not_captures_shared :
    ¬ Captures [⟨str "/a/:x", 0⟩, ⟨str "/a/:y/b", 1⟩] (str "/a/7/b") [] := by
  intro h
  have hfind : ((Router.ofRoutes [⟨str "/a/:x", 0⟩, ⟨str "/a/:y/b", 1⟩]).find (str "/a/7/b") []).1 =
      some ⟨str "/a/:y/b", 1⟩ := rfl
  have hparams := h.1 _ hfind (by decide +kernel)
  have hdiffer : ((Router.ofRoutes [⟨str "/a/:x", 0⟩, ⟨str "/a/:y/b", 1⟩]).find
    (str "/a/7/b") []).2 ≠
      [] ++ ownParams (segments (str "/a/:y/b")) (segments (str "/a/7/b")) := by decide +kernel
  exact hdiffer hparams

end SpidoNG.Http
