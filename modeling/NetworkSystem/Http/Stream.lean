import NetworkSystem.Http.Length

/-! Several responses on one connection, one behind the other, and how a client takes them
apart again. -/

namespace NetworkSystem.Http

open Bytes

/-- A response as it is put together. -/
structure Reply where
  date : Bytes
  header : HttpRespHeader
  body : Bytes

namespace Reply

def head (reply : Reply) : Bytes := buildHttpRespHeader reply.date reply.header

def text (reply : Reply) : Bytes := reply.head ++ reply.body

/-- Its lines are lines, and it announces its body. -/
structure Announced (reply : Reply) : Prop where
  dateLine : 10 ∉ reply.date
  typeLine : 10 ∉ reply.header.contentType
  length : reply.header.contentLength.bmod (2 ^ 32) = reply.body.length

end Reply

/-- The first response of a stream, its header apart from its body, and what is behind: the
body begins behind the first blank line, and is as long as the header says. -/
def readResponse (stream : Bytes) : Option ((Bytes × Bytes) × Bytes) :=
  match after (ascii "\r\n\r\n") stream, after (ascii "\r\nContent-Length: ") stream with
  | some behind, some number =>
      let length := ofDigits (number.takeWhile (· ≠ 13))
      if length ≤ behind.length then
        some ((stream.take (stream.length - behind.length), behind.take length), behind.drop length)
      else none
  | _, _ => none

/-- All responses of a stream; every one of them takes some bytes. -/
def readResponses : Nat → Bytes → Option (List (Bytes × Bytes))
  | _, [] => some []
  | 0, _ :: _ => none
  | fuel + 1, stream =>
      (readResponse stream).bind (fun (response, rest) =>
        (readResponses fuel rest).map (fun responses => response :: responses))

def clientResponses (stream : Bytes) : Option (List (Bytes × Bytes)) :=
  readResponses stream.length stream

theorem readResponse_text (reply : Reply) (announced : reply.Announced) (rest : Bytes) :
    readResponse (reply.text ++ rest) = some ((reply.head, reply.body), rest) := by
  rcases reply with ⟨date, header, body⟩
  rcases announced with ⟨dateLine, typeLine, length⟩
  rcases after_length date (body ++ rest) header dateLine with ⟨line, number⟩
  have blank := after_blank date (body ++ rest) header dateLine typeLine
  have digits : ofDigits ((formatInt header.contentLength ++ 13 :: line).takeWhile (· ≠ 13)) =
      body.length := by
    rw [takeWhile_formatInt, (formatInt_eq_decimal header.contentLength body.length).mpr length,
      ofDigits_decimal]
  have before : (buildHttpRespHeader date header ++ (body ++ rest)).length -
      (body ++ rest).length = (buildHttpRespHeader date header).length := by
    rw [List.length_append]
    omega
  have fits : body.length ≤ (body ++ rest).length := by
    rw [List.length_append]
    omega
  simp only [readResponse, Reply.text, Reply.head, List.append_assoc, blank, number, digits,
    before, fits, ↓reduceIte, List.take_left, List.drop_left]

theorem Reply.text_ne_nil (reply : Reply) : reply.text ≠ [] :=
  List.append_ne_nil_of_left_ne_nil (buildHttpRespHeader_ne_nil _ _) _

theorem length_le_texts (replies : List Reply) :
    replies.length ≤ (replies.flatMap Reply.text).length := by
  induction replies with
  | nil => exact Nat.zero_le _
  | cons reply rest ih =>
      have positive := List.length_pos_iff.mpr reply.text_ne_nil
      rw [List.flatMap_cons, List.length_append, List.length_cons]
      omega

theorem readResponses_texts (fuel : Nat) (replies : List Reply)
    (announced : ∀ reply ∈ replies, reply.Announced) (enough : replies.length ≤ fuel) :
    readResponses fuel (replies.flatMap Reply.text) =
      some (replies.map (fun reply => (reply.head, reply.body))) := by
  induction replies generalizing fuel with
  | nil =>
      rw [List.flatMap_nil, readResponses.eq_def]
      rfl
  | cons reply rest ih =>
      rcases List.forall_mem_cons.mp announced with ⟨here, later⟩
      cases fuel with
      | zero => cases enough
      | succ fuel =>
          have read := readResponse_text reply here (rest.flatMap Reply.text)
          have some_ : reply.text ++ rest.flatMap Reply.text ≠ [] :=
            List.append_ne_nil_of_left_ne_nil reply.text_ne_nil _
          rw [List.flatMap_cons]
          generalize reply.text ++ rest.flatMap Reply.text = stream at read some_ ⊢
          cases stream with
          | nil => exact absurd rfl some_
          | cons byte stream =>
              simp only [readResponses, read, Option.bind_some,
                ih fuel later (Nat.le_of_succ_le_succ enough), Option.map_some, List.map_cons]

/-- A client that goes by the announced lengths finds every response again. -/
theorem clientResponses_texts (replies : List Reply)
    (announced : ∀ reply ∈ replies, reply.Announced) :
    clientResponses (replies.flatMap Reply.text) =
      some (replies.map (fun reply => (reply.head, reply.body))) :=
  readResponses_texts _ replies announced (length_le_texts replies)

def errorReply (date : Bytes) (req : HttpReq) : Reply :=
  ⟨date, errHeader req, errResp.getD req.errorCode.toNat []⟩

def fileReply (date content : Bytes) (req : HttpReq) : Reply :=
  ⟨date, Connection.foundHeader content.length req, content ++ (trailer req).flatten⟩

def answerTo (files : Bytes → Option Bytes) (root date : Bytes) (req : HttpReq) : Reply :=
  if req.errorCode = 0 then
    match files (root ++ req.uri) with
    | some content => fileReply date content req
    | none => errorReply date { req with errorCode := ERR_NOT_FOUND }
  else errorReply date req

/-- The length of the file and of its trailer can be announced, and the trailer, if one is
announced, is sent. -/
def Announceable (files : Bytes → Option Bytes) (root : Bytes) (req : HttpReq) : Prop :=
  ∀ content ∈ files (root ++ req.uri), req.errorCode = 0 →
    content.length + (if req.method = POST then 29 + req.postData.length else 0) < 2 ^ 31 ∧
      (req.method = POST → req.contentType = ascii "text/html")

instance (files : Bytes → Option Bytes) (root : Bytes) (req : HttpReq) :
    Decidable (Announceable files root req) :=
  inferInstanceAs (Decidable (∀ content ∈ files (root ++ req.uri), _ → _))

theorem announced_errorReply (date : Bytes) (req : HttpReq) (dateLine : 10 ∉ date) :
    (errorReply date req).Announced where
  dateLine := dateLine
  typeLine := by
    simp only [errorReply, errHeader]
    decide
  length := by
    have texts : ∀ text ∈ errResp, text.length < 2048 := by decide
    have short := length_getD_lt (by omega) texts req.errorCode.toNat
    simp only [errorReply, errHeader]
    rw [Int.bmod_def]
    omega

theorem announced_fileReply (date content : Bytes) (req : HttpReq) (dateLine : 10 ∉ date)
    (typeLine : 10 ∉ req.contentType) (posted : req.postData.length < 2048)
    (fits : content.length + (if req.method = POST then 29 + req.postData.length else 0) < 2 ^ 31)
    (html : req.method = POST → req.contentType = ascii "text/html") :
    (fileReply date content req).Announced where
  dateLine := dateLine
  typeLine := typeLine
  length := by
    have truthful := (Connection.truthful_found date content req dateLine typeLine posted).mpr
      ⟨fits, html⟩
    exact (truthful_iff date (content ++ (trailer req).flatten)
      (Connection.foundHeader content.length req) dateLine typeLine).mp truthful

theorem announced_answerTo (files : Bytes → Option Bytes) (root date : Bytes) (req : HttpReq)
    (dateLine : 10 ∉ date) (typeLine : 10 ∉ req.contentType) (posted : req.postData.length < 2048)
    (announceable : Announceable files root req) :
    (answerTo files root date req).Announced := by
  simp only [answerTo]
  split_ifs with fine
  · cases found : files (root ++ req.uri) with
    | some content =>
        rcases announceable content found fine with ⟨fits, html⟩
        exact announced_fileReply date content req dateLine typeLine posted fits html
    | none => exact announced_errorReply date _ dateLine
  · exact announced_errorReply date req dateLine

end NetworkSystem.Http
