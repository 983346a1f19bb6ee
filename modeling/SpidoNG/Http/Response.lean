import SpidoNG.Http.Parser
import SpidoNG.Jwt.Verifier
import SpidoNG.Lib.ResponseReader

/-!
# Responses

`Response` of `spido/include/spido/response.h`, and what `process_input` appends for a request.
-/

namespace SpidoNG.Http

open Bytes
open ResponseReader (written)

structure Response where
  status : ℤ := 200
  headers : List (Bytes × Bytes) := []
  body : Bytes := []
  keepAlive : Bool := true
  deriving DecidableEq

def reasonPhrases : List (ℤ × Bytes) :=
  [(100, str "Continue"), (200, str "OK"), (201, str "Created"), (202, str "Accepted"),
    (204, str "No Content"), (301, str "Moved Permanently"), (302, str "Found"),
    (304, str "Not Modified"), (400, str "Bad Request"), (401, str "Unauthorized"),
    (403, str "Forbidden"), (404, str "Not Found"), (405, str "Method Not Allowed"),
    (408, str "Request Timeout"), (413, str "Payload Too Large"), (414, str "URI Too Long"),
    (500, str "Internal Server Error"), (501, str "Not Implemented"),
    (503, str "Service Unavailable")]

def reasonPhrase (s : ℤ) : Bytes := ((reasonPhrases.find? (·.1 == s)).map Prod.snd).getD (str "OK")

def printInt (n : ℤ) : Bytes := if n < 0 then 45 :: decimal n.natAbs else decimal n.natAbs

def statusLine (s : ℤ) : Bytes := str "HTTP/1.1 " ++ printInt s ++ 32 :: reasonPhrase s

def fieldText (h : Bytes × Bytes) : Bytes := h.1 ++ str ": " ++ h.2 ++ [CR, LF]

def lengthLine (body : Bytes) : Bytes := str "Content-Length: " ++ decimal body.length

def connectionLine (keepAlive : Bool) : Bytes :=
  if keepAlive then str "Connection: keep-alive" else str "Connection: close"

def Response.ownLines (res : Response) : List Bytes :=
  (if res.headers.any fun h => ieqLit h.1 (str "content-length") then []
    else [lengthLine res.body]) ++
    if res.headers.any fun h => ieqLit h.1 (str "connection") then []
    else [connectionLine res.keepAlive]

def Response.serialize (res : Response) : Bytes :=
  statusLine res.status ++ [CR, LF] ++ res.headers.flatMap fieldText ++
    res.ownLines.flatMap written ++ [CR, LF] ++ res.body

def buildStaticResponse (body contentType : Bytes) : Bytes :=
  str "HTTP/1.1 200 OK\r\nContent-Type: " ++ contentType ++ str "\r\nContent-Length: " ++
    decimal body.length ++ str "\r\nConnection: keep-alive\r\n\r\n" ++ body

inductive Reply
  | unauthorized (st : Jwt.JwtStatus)
  | cached (body contentType : Bytes)
  | handled (res : Response)
  | notFound

namespace Reply

def unauthorizedBody (st : Jwt.JwtStatus) : Bytes :=
  str "\x7b\"error\":\"unauthorized\",\"reason\":\"" ++ Jwt.jwtStatusStr st ++ str "\"\x7d"

def dateHeader (date : Option Bytes) : List (Bytes × Bytes) := (date.map (str "Date", ·)).toList

def bytes (date : Option Bytes) (req : Request) : Reply → Bytes
  | unauthorized st =>
    str "HTTP/1.1 401 Unauthorized\r\nContent-Type: application/json\r\nContent-Length: " ++
      decimal (unauthorizedBody st).length ++ str "\r\nConnection: " ++
      str (if req.keepAlive then "keep-alive" else "close") ++ str "\r\n\r\n" ++ unauthorizedBody st
  | cached body contentType =>
    let prepared := buildStaticResponse body contentType
    -- The date goes behind the status line, which has 17 bytes.
    prepared.take 17 ++ (dateHeader date).flatMap fieldText ++ prepared.drop 17
  | handled res =>
    { res with
      headers := res.headers ++ dateHeader date
      keepAlive := res.keepAlive && req.keepAlive }.serialize
  | notFound =>
    str "HTTP/1.1 404 Not Found\r\nContent-Length: 9\r\nContent-Type: text/plain\r\n" ++
      str "Connection: keep-alive\r\n\r\nNot Found"

end Reply

structure Parts where
  status : ℤ
  given : List (Bytes × Bytes)
  own : List Bytes
  body : Bytes

namespace Parts

def givenText (p : Parts) : Bytes := p.given.flatMap fieldText

def ownText (p : Parts) : Bytes := p.own.flatMap written

def text (p : Parts) : Bytes :=
  statusLine p.status ++ [CR, LF] ++ p.givenText ++ p.ownText ++ [CR, LF] ++ p.body

end Parts

def Reply.parts (date : Option Bytes) (req : Request) : Reply → Parts
  | unauthorized st =>
    ⟨401, [], [str "Content-Type: application/json", lengthLine (unauthorizedBody st),
      connectionLine req.keepAlive], unauthorizedBody st⟩
  | cached body contentType =>
    ⟨200, dateHeader date ++ [(str "Content-Type", contentType)],
      [lengthLine body, connectionLine true],
      body⟩
  | handled res =>
    let res := { res with
      headers := res.headers ++ dateHeader date
      keepAlive := res.keepAlive && req.keepAlive }
    ⟨res.status, res.headers, res.ownLines, res.body⟩
  | notFound =>
    ⟨404, [], [str "Content-Length: 9", str "Content-Type: text/plain",
      str "Connection: keep-alive"],
      str "Not Found"⟩

variable (date : Option Bytes) (req : Request)
include date req

lemma bytes_unauthorized (st : Jwt.JwtStatus) :
    (Reply.unauthorized st).bytes date req = ((Reply.unauthorized st).parts date req).text := by
  have hhead : str "HTTP/1.1 401 Unauthorized\r\nContent-Type: application/json\r\nContent-Length: "
    =
      statusLine 401 ++ [CR, LF] ++ str "Content-Type: application/json" ++ [CR, LF] ++
        str "Content-Length: " := by
    decide +kernel
  have hconnection : str "\r\nConnection: " ++
    str (if req.keepAlive then "keep-alive" else "close") =
      [CR, LF] ++ connectionLine req.keepAlive := by
    cases req.keepAlive <;> decide +kernel
  have hend : str "\r\n\r\n" = [CR, LF] ++ [CR, LF] := rfl
  calc (Reply.unauthorized st).bytes date req
      = str "HTTP/1.1 401 Unauthorized\r\nContent-Type: application/json\r\nContent-Length: " ++
          decimal (Reply.unauthorizedBody st).length ++
          (str "\r\nConnection: " ++ str (if req.keepAlive then "keep-alive" else "close")) ++
          str "\r\n\r\n" ++ Reply.unauthorizedBody st := by
        rw [← List.append_assoc]
        rfl
    _ = ((Reply.unauthorized st).parts date req).text := by
        rw [hhead, hconnection, hend]
        simp [Reply.parts, Parts.text, Parts.givenText, Parts.ownText, written, lengthLine, CR, LF]

lemma bytes_cached (body contentType : Bytes) : (Reply.cached body contentType).bytes date req =
      ((Reply.cached body contentType).parts date req).text := by
  have hbuild : buildStaticResponse body contentType = str "HTTP/1.1 200 OK\r\n" ++
      (fieldText (str "Content-Type", contentType) ++ (lengthLine body ++ [CR, LF] ++
        connectionLine true ++ [CR, LF] ++ [CR, LF] ++ body)) := by
    have hhead : str "HTTP/1.1 200 OK\r\nContent-Type: " =
        str "HTTP/1.1 200 OK\r\n" ++ (str "Content-Type" ++ str ": ") := rfl
    have hlen : str "\r\nContent-Length: " = [CR, LF] ++ str "Content-Length: " := by
      decide +kernel
    have hend : str "\r\nConnection: keep-alive\r\n\r\n" =
        [CR, LF] ++ connectionLine true ++ [CR, LF] ++ [CR, LF] := by
      decide +kernel
    rw [buildStaticResponse, hhead, hlen, hend]
    simp [fieldText, lengthLine]
  have hline : str "HTTP/1.1 200 OK\r\n" = statusLine 200 ++ [CR, LF] := rfl
  have hseventeen : (str "HTTP/1.1 200 OK\r\n").length = 17 := rfl
  dsimp only [Reply.bytes]
  rw [hbuild, List.take_left' hseventeen, List.drop_left' hseventeen, hline]
  simp [Reply.parts, Parts.text, Parts.givenText, Parts.ownText, written, CR, LF]

lemma bytes_notFound : Reply.notFound.bytes date req = (Reply.notFound.parts date req).text := by
  have htext : str "HTTP/1.1 404 Not Found\r\nContent-Length: 9\r\nContent-Type: text/plain\r\n" ++
      str "Connection: keep-alive\r\n\r\nNot Found" =
      Parts.text ⟨404, [], [str "Content-Length: 9", str "Content-Type: text/plain",
        str "Connection: keep-alive"], str "Not Found"⟩ := by
    decide +kernel
  exact htext

lemma Reply.bytes_eq (reply : Reply) : reply.bytes date req = (reply.parts date req).text := by
  cases reply with
  | unauthorized st => exact bytes_unauthorized date req st
  | cached body contentType => exact bytes_cached date req body contentType
  | handled => rfl
  | notFound => exact bytes_notFound date req

end SpidoNG.Http
