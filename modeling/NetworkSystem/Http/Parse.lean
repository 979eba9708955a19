import NetworkSystem.Http.Config
import NetworkSystem.Http.Response

/-! `parse_http_req`. Every store of a string into an array is checked: a parse that
runs past one of its arrays has no result. `strip` copies over itself on the way, and what
it makes of that is left to the library. -/

namespace NetworkSystem.Http

open Bytes

/-- `http_req_t` -/
structure ParsedReq extends HttpReq where
  host : Bytes

/-- `bzero(req, sizeof(http_req_t))` -/
def ParsedReq.zero : ParsedReq where
  method := 0
  version := 0
  keepAlive := 0
  errorCode := 0
  uri := []
  contentType := []
  postData := []
  host := []

def parseMethod (token : Bytes) (req : ParsedReq) : ParsedReq :=
  if token = ascii "GET" then { req with method := GET }
  else if token = ascii "POST" then { req with method := POST }
  else { req with errorCode := ERR_NOT_IMPLEMENTED }

def parseVersion (token : Bytes) (req : ParsedReq) : ParsedReq :=
  if token = ascii "HTTP/1.1" then { req with version := 11 }
  else if token = ascii "HTTP/1.0" then { req with version := 10 }
  else { req with errorCode := ERR_BAD_REQUEST }

/-- `uri`, with the index page behind a lone slash. -/
def storeUri (conf : Config) (token : Bytes) : Option Bytes :=
  match storeText 1024 token with
  | none => none
  | some uri => if uri = ascii "/" then storeText 1024 (uri ++ entry conf.index 0) else some uri

/-- The request line `p`, of three tokens or more. Of two errors the later one stays. -/
def parseRequestLine (conf : Config) (p : List Bytes) (req : ParsedReq) : Option ParsedReq :=
  let req := parseMethod (p.getD 0 []) req
  match storeUri conf (p.getD 1 []) with
  | none => none
  | some uri =>
      match getContentType conf uri with
      | none => none
      | some contentType =>
          let req := { req with uri, contentType }
          let req := if contentType.length = 0 then { req with errorCode := ERR_NOT_IMPLEMENTED }
            else req
          some (parseVersion (p.getD 2 []) req)

section

variable [Overlapping]

/-- The two parts of a header line, in the arrays of `p`. -/
def splitHeader (line : Bytes) : Option (Bytes × Bytes) :=
  match storeText 128 (splitFirst (lower line) 58).1,
      storeText 128 (splitFirst (lower line) 58).2 with
  | some first, some second => (strip first 32).map fun first => (first, second)
  | _, _ => none

/-- A header line that is not empty. -/
def parseHeader (line : Bytes) (req : ParsedReq) : Option ParsedReq :=
  match splitHeader line with
  | none => none
  | some (first, second) =>
      if first = ascii "host" then
        match (strip second 32).bind (storeText 256) with
        | none => none
        | some host => some { req with host }
      else if first = ascii "connection" then
        match strip second 32 with
        | none => none
        | some value =>
            some { req with keepAlive := if value = ascii "keep-alive" then 1 else 0 }
      else some req

/-- The loop over the header lines, and the lines behind the empty one. -/
def parseHeaders : List Bytes → ParsedReq → Option (ParsedReq × List Bytes)
  | [], req => some (req, [])
  | line :: rest, req =>
      if removeEndl line = [] then some (req, rest)
      else
        match parseHeader (removeEndl line) req with
        | none => none
        | some req => parseHeaders rest req

end

/-- The loop that puts the lines behind the headers into `post_data`. -/
def appendLines : List Bytes → Bytes → Option Bytes
  | [], postData => some postData
  | line :: rest, postData =>
      match storeText 2048 (postData ++ line) with
      | none => none
      | some postData =>
          match if rest ≠ [] then storeText 2048 (postData ++ [10]) else some postData with
          | none => none
          | some postData => appendLines rest postData

def parseParts [Overlapping] (conf : Config) (p lines : List Bytes) (req : ParsedReq) :
    Option ParsedReq :=
  match parseRequestLine conf p req with
  | none => none
  | some req =>
      match parseHeaders lines req with
      | none => none
      | some (req, rest) =>
          match appendLines rest req.postData with
          | none => none
          | some postData => some { req with postData }

/-- `parse_http_req` of the string that `buf` holds. -/
def parseHttpReq [Overlapping] (conf : Config) (buf : Bytes) : Option ParsedReq :=
  match storeTokens 32 256 (tokens buf [10]) with
  | none => none
  | some lines =>
      let req := if lines.length = 0 then { ParsedReq.zero with errorCode := ERR_BAD_REQUEST }
        else ParsedReq.zero
      match storeTokens 4 128 (tokens (removeEndl (lines.getD 0 [])) [32]) with
      | none => none
      | some p =>
          if p.length < 3 then some { req with errorCode := ERR_BAD_REQUEST }
          else parseParts conf p (lines.drop 1) req

/-- The string that `handle_in` hands to `parse_http_req`. The 4096 bytes of `buf` are
zero before `recv`; a request that fills them runs on into the memory behind. -/
def receivedText (received behind : Bytes) : Bytes :=
  cstr (received ++ zeros (BUF_SIZE - received.length) ++ behind)

end NetworkSystem.Http
