import SpidoNG.Http.Splitting

/-!
# Chunked decoding undoes chunked encoding

A client writes a body in chunks, a last line, trailers and an empty line.
-/

namespace SpidoNG.Http

open Bytes List

structure SizeText where
  digits : Bytes
  ext : Bytes := []
  deriving DecidableEq

namespace SizeText

def encode (s : SizeText) : Bytes := s.digits ++ (s.ext ++ [CR, LF])

/-- The digits denote `n`, which fits the machine, and the extension starts with a semicolon and has
no line end. -/
structure Denotes (s : SizeText) (n : ℕ) : Prop where
  fits : n ≤ sizeMax
  nonempty : s.digits ≠ []
  hex : ∀ c ∈ s.digits, (hexVal c).isSome = true
  number : hexNumberFrom 0 s.digits = n
  semicolon : ∀ c, s.ext.head? = some c → c = 59
  oneLine : ∀ c ∈ s.ext, c ≠ CR ∧ c ≠ LF

lemma Denotes.sizeLine {s : SizeText} {n : ℕ} (h : s.Denotes n) : SizeLine n s.encode where
  fits := h.fits
  split := by
    refine ⟨s.digits, s.ext, h.nonempty, h.hex, h.number, fun c hc => ?_, h.oneLine, rfl⟩
    rw [h.semicolon c hc]
    rfl

end SizeText

structure Chunk where
  size : SizeText
  data : Bytes
  deriving DecidableEq

namespace Chunk

def encode (c : Chunk) : Bytes := c.size.encode ++ (c.data ++ [CR, LF])

structure WellFormed (c : Chunk) : Prop where
  nonempty : c.data ≠ []
  size : c.size.Denotes c.data.length

end Chunk

structure Encoding where
  chunks : List Chunk
  last : SizeText
  trailers : List Bytes := []

namespace Encoding

def body (e : Encoding) : Bytes := e.chunks.flatMap Chunk.data

def tail (e : Encoding) : Bytes :=
  e.last.encode ++ (e.trailers.flatMap (· ++ [CR, LF]) ++ [CR, LF])

def encode (e : Encoding) : Bytes := e.chunks.flatMap Chunk.encode ++ e.tail

structure WellFormed (e : Encoding) : Prop where
  chunks : ∀ c ∈ e.chunks, c.WellFormed
  last : e.last.Denotes 0
  trailers : ∀ l ∈ e.trailers, l ≠ [] ∧ CR ∉ l

end Encoding

lemma trailerLines_encode {ls : List Bytes} (h : ∀ l ∈ ls, l ≠ [] ∧ CR ∉ l) :
    TrailerLines (ls.flatMap (· ++ [CR, LF]) ++ [CR, LF]) := by
  induction ls with
  | nil => exact .nil
  | cons l _ ih =>
    obtain ⟨hne, hcr⟩ := h l mem_cons_self
    have htail := ih fun l' hl' => h l' (mem_cons_of_mem l hl')
    have hcons := TrailerLines.cons hne hcr htail
    simpa using hcons

variable {maxBody : ℕ}

lemma chunks_encode (hmax : maxBody ≤ sizeMax) {cs : List Chunk}
    (hcs : ∀ c ∈ cs, c.WellFormed) {w : ℕ} (hw : w + (cs.flatMap Chunk.data).length ≤ maxBody)
    {last : SizeText} (hlast : last.Denotes 0) {t : Bytes} (ht : TrailerLines t) :
    Chunks maxBody w (cs.flatMap Chunk.data) (cs.flatMap Chunk.encode ++ (last.encode ++ t)) := by
  induction cs generalizing w with
  | nil =>
    show Chunks maxBody w [] (last.encode ++ t)
    exact .last hlast.sizeLine ht
  | cons c cs ih =>
    have hc := hcs c mem_cons_self
    rw [flatMap_cons, length_append] at hw
    have hrest := ih (fun d hd => hcs d (mem_cons_of_mem c hd))
      (show w + c.data.length + (cs.flatMap Chunk.data).length ≤ maxBody by omega)
    have hwrap : wrap (w + c.data.length) = w + c.data.length := by
      refine Nat.mod_eq_of_lt ?_
      rw [sizeMax] at hmax
      omega
    have hchunk := Chunks.chunk hc.size.sizeLine (length_pos_iff.2 hc.nonempty)
      (show c.data.length ≤ maxBody by omega) (show wrap (w + c.data.length) ≤ maxBody by omega) rfl
      hrest
    simpa [Chunk.encode] using hchunk

lemma Encoding.WellFormed.chunks_encode {maxBody : UInt64} {e : Encoding} (h : e.WellFormed)
    (hmax : e.body.length ≤ maxBody.toNat) : Chunks maxBody.toNat 0 e.body e.encode := by
  have hfits : maxBody.toNat ≤ sizeMax := by
    have hlt := maxBody.toNat_lt
    rw [sizeMax]
    omega
  exact Http.chunks_encode hfits h.chunks (by simpa [Encoding.body] using hmax) h.last
    (trailerLines_encode h.trailers)

/-- Headers that announce a chunked body: a transfer encoding, which is always `chunked`, and no
Content-Length. -/
structure ChunkedHeaders (hs : List Header) : Prop where
  chunked : ∃ h ∈ hs, headerKind h.name = .TransferEncoding
  only : ∀ h ∈ hs, headerKind h.name = .TransferEncoding → ieqLit h.value (str "chunked") = true
  noLength : ∀ h ∈ hs, headerKind h.name ≠ .ContentLength

lemma addHeader_eq_ok (maxBody : ℕ) (s : Head) {h : Header}
    (hlen : headerKind h.name ≠ .ContentLength)
    (hte : headerKind h.name = .TransferEncoding → ieqLit h.value (str "chunked")) :
    ∃ s', addHeader maxBody s h = .ok s' := by
  unfold addHeader
  cases hkind : headerKind h.name with
  | ContentLength => exact absurd hkind hlen
  | Connection =>
    split_ifs <;> exact ⟨_, rfl⟩
  | TransferEncoding =>
    dsimp only
    rw [hte hkind, Bool.or_true, if_pos rfl]
    exact ⟨_, rfl⟩
  | Other => exact ⟨_, rfl⟩

lemma addHeaders_of_chunked {hs : List Header} {s : Head}
    (honly : ∀ h ∈ hs, headerKind h.name = .TransferEncoding → ieqLit h.value (str "chunked"))
    (hlen : ∀ h ∈ hs, headerKind h.name ≠ .ContentLength) :
    ∃ s', addHeaders maxBody s hs = .ok s' ∧ s'.hasCl = s.hasCl ∧ (s'.hasTeChunked ↔
        s.hasTeChunked ∨ ∃ h ∈ hs, headerKind h.name = .TransferEncoding) := by
  induction hs generalizing s with
  | nil => exact ⟨s, rfl, rfl, by simp⟩
  | cons h _ ih =>
    obtain ⟨s₁, hs₁⟩ := addHeader_eq_ok maxBody s (hlen h mem_cons_self)
      (honly h mem_cons_self)
    have hadd := added_of_addHeader hs₁
    obtain ⟨s', hs', hcl, hte⟩ := @ih s₁ (fun d hd => honly d (mem_cons_of_mem h hd))
      fun d hd => hlen d (mem_cons_of_mem h hd)
    refine ⟨s', by rw [addHeaders, hs₁]; exact hs', ?_, ?_⟩
    · rw [hcl, (hadd.noLength (hlen h mem_cons_self)).1]
    · rw [hte, hadd.hasTe, Bool.or_eq_true, beq_iff_eq, exists_mem_cons_iff, or_assoc]

lemma ChunkedHeaders.chunkedHead {l : RequestLine} {hs : List Header} {head : Bytes}
    (hhs : ChunkedHeaders hs) (hhead : RequestHead l hs head) :
    ∃ h, addHeaders maxBody l.start hs = .ok h ∧ ChunkedHead maxBody h head := by
  obtain ⟨h, hadd, hcl, hte⟩ := addHeaders_of_chunked (s := l.start) hhs.only hhs.noLength
  refine ⟨h, hadd, fun rest => ?_, hte.2 (.inr hhs.chunked), hcl⟩
  rw [readHead_of_requestHead hhead rest, hadd]
  rfl

/-- The parser finds the body of an encoding and leaves what follows it. -/
theorem parse_encode (maxBody : UInt64) {l : RequestLine} {hs : List Header} {head : Bytes}
    (hhead : RequestHead l hs head) (hhs : ChunkedHeaders hs) {e : Encoding} (he : e.WellFormed)
    (hmax : e.body.length ≤ maxBody.toNat) (suffix : Bytes) :
    ∃ req buf, parse (head ++ (e.encode ++ suffix)) maxBody =
        (.done req (head.length + e.encode.length), buf) ∧
      req.body = e.body ∧ buf.drop (head.length + e.encode.length) = suffix := by
  obtain ⟨h, -, hchunked⟩ := hhs.chunkedHead hhead
  obtain ⟨buf, hparse, hdrop⟩ := hchunked.parse_chunks (he.chunks_encode hmax) suffix
  exact ⟨h.request e.body, buf, hparse, rfl, hdrop⟩

def uploadLine : RequestLine := ⟨str "POST", str "/u", str "HTTP/1.1"⟩

def chunkedHeader : Header := ⟨str "Transfer-Encoding", str "chunked"⟩

def uploadHead : Bytes := str "POST /u HTTP/1.1\r\nTransfer-Encoding: chunked\r\n\r\n"

lemma requestHead_upload : RequestHead uploadLine [chunkedHeader] uploadHead := by
  refine ⟨⟨by decide +kernel, by decide +kernel, by decide +kernel, .inl rfl⟩,
    str "Transfer-Encoding: chunked\r\n" ++ [CR, LF], .cons ⟨?_, ?_, ?_, ?_, ?_⟩ .nil,
    by decide +kernel⟩
  · decide +kernel
  · decide +kernel
  · decide +kernel
  · decide +kernel
  · exact ⟨[SP], [], by decide +kernel, by decide +kernel, by decide +kernel⟩

def wikipedia : Encoding where
  chunks := [⟨⟨str "4", str ";foo=bar"⟩, str "Wiki"⟩, ⟨⟨str "00a", []⟩, str "pedia in 1"⟩]
  last := ⟨str "00", []⟩
  trailers := [str "X-Trail: yes"]

theorem parse_wikipedia : ∃ req buf, parse (uploadHead ++ (wikipedia.encode ++ str "GET")) 100 =
      (.done req (uploadHead.length + wikipedia.encode.length), buf) ∧
    req.body = str "Wikipedia in 1" ∧
      buf.drop (uploadHead.length + wikipedia.encode.length) = str "GET" := by
  have hbody : wikipedia.body = str "Wikipedia in 1" := rfl
  rw [← hbody]
  refine parse_encode 100 requestHead_upload ?_ ?_ (by decide +kernel) _
  · exact ⟨by decide +kernel, by decide +kernel, by decide +kernel⟩
  · refine ⟨?_, ⟨?_, ?_, ?_, ?_, ?_, ?_⟩, ?_⟩
    · intro c hc
      fin_cases hc
      · exact ⟨by decide +kernel, by decide +kernel, by decide +kernel, by decide +kernel,
          by decide +kernel, by decide +kernel, by decide +kernel⟩
      · exact ⟨by decide +kernel, by decide +kernel, by decide +kernel, by decide +kernel,
          by decide +kernel, by decide +kernel, by decide +kernel⟩
    all_goals decide +kernel

end SpidoNG.Http
