import SpidoNG.Http.Framing
import SpidoNG.Lib.Separated

/-!
# Requests read back

A request written out as a client writes it is read back exactly.
-/

namespace SpidoNG.Http

open Bytes List

structure Field where
  header : Header
  blanks : Bytes

def Field.render (f : Field) : Bytes :=
  f.header.name ++ colon :: (f.blanks ++ (f.header.value ++ [CR, LF]))

structure Field.WellFormed (f : Field) : Prop where
  name : f.header.name ≠ [] ∧ ∀ c ∈ f.header.name, isToken c = true
  noCR : CR ∉ f.header.value
  head : ∀ c, f.header.value.head? = some c → isBlank c = false
  last : ∀ c, f.header.value.getLast? = some c → isBlank c = false
  blanks : ∀ c ∈ f.blanks, isBlank c = true

def Field.Other (f : Field) : Prop :=
  headerKind f.header.name ≠ .ContentLength ∧ headerKind f.header.name ≠ .TransferEncoding

def lengthFields (body blanks : Bytes) : List Field :=
  if body = [] then [] else [⟨⟨str "Content-Length", decimal body.length⟩, blanks⟩]

def render (l : RequestLine) (fs : List Field) (body : Bytes) : Bytes :=
  l.method ++ SP :: (l.target ++ SP :: (l.version ++ CR :: LF ::
    (fs.flatMap Field.render ++ CR :: LF :: body)))

def Header.wish (h : Header) : Option Bool :=
  if headerKind h.name ≠ .Connection then none
  else if ieqLit h.value (str "close") then some false
  else if ieqLit h.value (str "keep-alive") then some true
  else none

def keepAliveOf (version : Bytes) (fs : List Field) : Bool :=
  (fs.filterMap (·.header.wish)).getLast?.getD (version == str "HTTP/1.1")

variable {maxBody : ℕ} {s : Head}

lemma addHeader_other {f : Field} (hf : f.Other) : addHeader maxBody s f.header = .ok { s with
      headers := s.headers ++ [f.header], keepAlive := f.header.wish.getD s.keepAlive } := by
  have hlit : ∀ v lit : Bytes, lit.map toLower = lit →
      (eqLit v lit || ieqLit v lit) = ieqLit v lit := by
    intro v lit hlower
    by_cases h : v = lit
    · simp [eqLit, ieqLit, h, hlower]
    · simp [eqLit, h]
  unfold addHeader Header.wish
  cases hk : headerKind f.header.name with
  | ContentLength => exact absurd hk hf.1
  | TransferEncoding => exact absurd hk hf.2
  | Other => simp
  | Connection =>
    rw [hlit _ _ (by decide), hlit _ _ (by decide)]
    simp only [ne_eq, not_true_eq_false, if_false]
    split_ifs <;> rfl

lemma addHeaders_append {hs hs' : List Header} {t : Head} (h : addHeaders maxBody s hs = .ok t) :
    addHeaders maxBody s (hs ++ hs') = addHeaders maxBody t hs' := by
  induction hs generalizing s with
  | nil =>
    cases h
    rfl
  | cons a hs ih =>
    rw [addHeaders] at h
    rw [cons_append, addHeaders]
    cases ha : addHeader maxBody s a with
    | error => simp [ha] at h
    | ok s' =>
      rw [ha] at h
      exact ih h

lemma addHeaders_other {fs : List Field} (hfs : ∀ f ∈ fs, f.Other) :
    addHeaders maxBody s (fs.map (·.header)) = .ok { s with
      headers := s.headers ++ fs.map (·.header)
      keepAlive := (fs.filterMap (·.header.wish)).getLast?.getD s.keepAlive } := by
  induction fs generalizing s with
  | nil => simp [addHeaders]
  | cons f fs ih =>
    obtain ⟨hf, hfs⟩ := forall_mem_cons.1 hfs
    rw [map_cons, addHeaders, addHeader_other hf]
    simp only [ih hfs, filterMap_cons, append_assoc, singleton_append]
    cases f.header.wish with
    | none => rfl
    | some b => cases h : (fs.filterMap (·.header.wish)).getLast? <;> simp [getLast?_cons, h]

lemma parseContentLengthFrom_digits {n : ℕ} {v : Bytes} (hmax : maxBody ≤ sizeMax)
    (hv : ∀ c ∈ v, 48 ≤ c ∧ c ≤ 57) (hle : numberFrom n v ≤ maxBody) :
    parseContentLengthFrom maxBody n v = some (numberFrom n v) := by
  induction v generalizing n with
  | nil => rfl
  | cons c v ih =>
    obtain ⟨hlow, hhigh⟩ := hv c (by simp)
    have hnext : n * 10 + (c.toNat - 48) ≤ maxBody := (le_numberFrom _ v).trans hle
    have hfits : ¬ n > (sizeMax - (c.toNat - 48)) / 10 := by omega
    have hdig : (c < 48 || 57 < c) = false := by simp [hlow, hhigh]
    rw [parseContentLengthFrom, hdig]
    simp only [Bool.false_eq_true, if_false, hfits, not_lt.2 hnext]
    exact ih (fun d hd => hv d (by simp [hd])) hle

lemma numberFrom_decimal (n : ℕ) : numberFrom 0 (decimal n) = n := by
  conv_rhs => rw [← foldl_decimal n]
  simp only [numberFrom, mul_comm]

lemma parseContentLength_decimal {n : ℕ} (hmax : maxBody ≤ sizeMax) (hn : n ≤ maxBody) :
    parseContentLength (decimal n) maxBody = some n := by
  have h := parseContentLengthFrom_digits (n := 0) (v := decimal n) hmax
    (fun c hc => digit_of_mem_decimal hc) (by rwa [numberFrom_decimal])
  rwa [numberFrom_decimal] at h

lemma HeaderLines.render {fs : List Field} (hfs : ∀ f ∈ fs, f.WellFormed) :
    HeaderLines (fs.map (·.header)) (fs.flatMap Field.render ++ [CR, LF]) := by
  induction fs with
  | nil => exact .nil
  | cons f fs ih =>
    obtain ⟨hf, hfs⟩ := forall_mem_cons.1 hfs
    rw [flatMap_cons, append_assoc]
    exact .cons ⟨hf.name.2, hf.noCR, hf.head, hf.last, f.blanks, [], hf.blanks, by simp,
      rfl⟩ (ih hfs)

lemma wellFormed_lengthFields {body blanks : Bytes} (hb : ∀ c ∈ blanks, isBlank c) :
    ∀ f ∈ lengthFields body blanks, f.WellFormed := by
  have hdig : ∀ c ∈ decimal body.length, c ≠ CR ∧ isBlank c = false := by
    intro c hc
    obtain ⟨hlow, -⟩ := digit_of_mem_decimal hc
    refine ⟨?_, by_contra fun h => ?_⟩
    · rintro rfl
      exact absurd hlow (by decide)
    · simp only [isBlank, Bool.not_eq_false, Bool.or_eq_true, beq_iff_eq] at h
      rcases h with rfl | rfl <;> exact absurd hlow (by decide)
  have hname : str "Content-Length" ≠ [] ∧ ∀ c ∈ str "Content-Length", isToken c := by
    decide +kernel
  unfold lengthFields
  split_ifs
  · simp
  · refine forall_mem_singleton.2 ⟨hname, fun h => (hdig _ h).1 rfl, ?_, ?_, hb⟩
    · exact fun c h => (hdig c (mem_of_head? h)).2
    · exact fun c h => (hdig c (mem_of_getLast? h)).2

lemma addHeaders_fields {pre post : List Field} {body : Bytes} (blanks : Bytes)
    (hs : s.hasCl = false)
    (hs' : s.contentLength = 0) (hpre : ∀ f ∈ pre ++ post, f.Other) (hmax : maxBody ≤ sizeMax)
    (hbody : body.length ≤ maxBody) :
    addHeaders maxBody s ((pre ++ lengthFields body blanks ++ post).map (·.header)) = .ok { s with
      headers := s.headers ++ (pre ++ lengthFields body blanks ++ post).map (·.header)
      keepAlive := ((pre ++ post).filterMap (·.header.wish)).getLast?.getD s.keepAlive
      contentLength := body.length
      hasCl := !body.isEmpty } := by
  by_cases hnil : body = []
  · simp only [lengthFields, hnil, if_true, append_nil, addHeaders_other hpre]
    simp [hs, hs']
  · have hlen : addHeader maxBody { s with
          headers := s.headers ++ pre.map (·.header)
          keepAlive := (pre.filterMap (·.header.wish)).getLast?.getD s.keepAlive }
        ⟨str "Content-Length", decimal body.length⟩ = .ok { s with
          headers := s.headers ++ pre.map (·.header) ++
            [⟨str "Content-Length", decimal body.length⟩]
          keepAlive := (pre.filterMap (·.header.wish)).getLast?.getD s.keepAlive
          contentLength := body.length
          hasCl := true } := by
      have hkind : headerKind (str "Content-Length") = .ContentLength := by decide
      simp [addHeader, hkind, parseContentLength_decimal hmax hbody, hbody]
    obtain ⟨hoth, hoth'⟩ := forall_mem_append.1 hpre
    rw [lengthFields, if_neg hnil, append_assoc, map_append,
      addHeaders_append (addHeaders_other hoth)]
    simp only [singleton_append, map_cons, addHeaders, hlen, addHeaders_other hoth']
    cases h : (post.filterMap (·.header.wish)).getLast? <;> simp [hnil, getLast?_append, h]

/-- **Requests read back.** A request that is written out is read back, with its Content-Length
anywhere among its headers. -/
theorem parse_render (l : RequestLine) (pre post : List Field) (blanks body suffix : Bytes)
    (maxBody : UInt64) (hl : l.WellFormed) (hpre : ∀ f ∈ pre ++ post, f.WellFormed ∧ f.Other)
    (hblanks : ∀ c ∈ blanks, isBlank c = true) (hmax : body.length ≤ maxBody.toNat) :
    let fs := pre ++ lengthFields body blanks ++ post
    parse (render l fs body ++ suffix) maxBody =
      (.done { method := methodFrom l.method
               path := l.target.takeWhile (· != question)
               query := (l.target.dropWhile (· != question)).tail
               version := l.version
               headers := fs.map (·.header)
               body := body
               keepAlive := keepAliveOf l.version (pre ++ post) } (render l fs body).length,
        render l fs body ++ suffix) := by
  intro fs
  have hwell : ∀ f ∈ fs, f.WellFormed := by
    simp only [fs, mem_append]
    rintro f ((hf | hf) | hf)
    · exact (hpre f (by simp [hf])).1
    · exact wellFormed_lengthFields hblanks f hf
    · exact (hpre f (by simp [hf])).1
  obtain ⟨head, hhead, hrender⟩ : ∃ head, RequestHead l (fs.map (·.header)) head ∧
      render l fs body = head ++ body :=
    ⟨_, ⟨hl, _, HeaderLines.render hwell, rfl⟩, by simp [render]⟩
  have hadd := addHeaders_fields (s := l.start) blanks rfl rfl (fun f hf => (hpre f hf).2)
    (Nat.le_of_lt_succ maxBody.toNat_lt) hmax
  have hread : readHead maxBody.toNat (head ++ (body ++ suffix)) = _ :=
    readHead_of_requestHead hhead (body ++ suffix)
  rw [hadd] at hread
  rw [hrender, append_assoc, parse, hread]
  cases body with
  | nil => simp [outcomeOf, parseBody, RequestLine.start, Head.request, splitTarget,
    keepAliveOf, fs]
  | cons c body =>
    have hlong : ¬ maxBody.toNat < body.length + 1 := by simpa using hmax
    simp [outcomeOf, parseBody, RequestLine.start, Head.request, splitTarget, keepAliveOf,
      fs, hlong]

def closing : Field := ⟨⟨str "connection", str "Close"⟩, [HT]⟩

theorem parse_render_closing : ∃ req, (parse (render ⟨str "PUT", str "/a?b", str "HTTP/1.1"⟩
        ([] ++ lengthFields (str "xy") [] ++ [closing]) (str "xy") ++ str "GET") 8).1 =
      .done req (render ⟨str "PUT", str "/a?b", str "HTTP/1.1"⟩
        ([] ++ lengthFields (str "xy") [] ++ [closing]) (str "xy")).length ∧
      req.path = str "/a" ∧ req.query = str "b" ∧ req.body = str "xy" ∧ req.keepAlive = false := by
  have hclosing : ∀ f ∈ [] ++ [closing], f.WellFormed ∧ f.Other := by
    refine forall_mem_singleton.2
      ⟨⟨by decide +kernel, by decide +kernel, ?_, ?_, by decide +kernel⟩, ?_⟩
    · rintro c ⟨⟩
      decide
    · rintro c ⟨⟩
      decide
    · exact ⟨by decide, by decide⟩
  have h := parse_render ⟨str "PUT", str "/a?b", str "HTTP/1.1"⟩ [] [closing] [] (str "xy")
    (str "GET") 8 ⟨by decide +kernel, by decide +kernel, by decide +kernel,
      by decide +kernel⟩ hclosing
    (by decide +kernel) (by decide)
  exact ⟨_, congrArg Prod.fst h, by decide, by decide, rfl, by decide⟩

end SpidoNG.Http
