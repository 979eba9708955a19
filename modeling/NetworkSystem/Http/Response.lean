import NetworkSystem.Stdio

/-! What the HTTP server answers: the request as it has been parsed, the header and
the bodies of the response. A string is its bytes before the final zero. -/

namespace NetworkSystem.Http

open Bytes

def BUF_SIZE : Nat := 4096

def GET : UInt8 := 1
def POST : UInt8 := 2

def ERR_BAD_REQUEST : UInt8 := 1
def ERR_NOT_FOUND : UInt8 := 2
def ERR_NOT_IMPLEMENTED : UInt8 := 4

def errStatusCode : List UInt16 := [200, 400, 404, 500, 501]

def errResp : List Bytes :=
  ["", "<html><body>400 Bad Request</body></html>", "<html><body>404 Not Found</body></html>",
    "<html><body>500 Internal Server Error</body></html>",
    "<html><body>501 Not Implemented</body></html>"].map ascii

/-- `http_req_t` without `host`, which nothing reads. -/
structure HttpReq where
  method : UInt8
  version : UInt8
  keepAlive : UInt8
  errorCode : UInt8
  uri : Bytes
  contentType : Bytes
  postData : Bytes

/-- `http_resp_header_t` -/
structure HttpRespHeader where
  version : UInt8
  statusCode : UInt16
  keepAlive : UInt8
  contentLength : Int
  contentType : Bytes

def getReasonPhrase (statusCode : UInt16) : Bytes :=
  if statusCode = 200 then ascii "OK"
  else if statusCode = 400 then ascii "Bad Request"
  else if statusCode = 404 then ascii "Not Found"
  else if statusCode = 501 then ascii "Not Implemented"
  else ascii "Internal Server Error"

def getHttpVersionStr (version : UInt8) : Bytes :=
  if version = 10 then ascii "HTTP/1.0" else if version = 11 then ascii "HTTP/1.1" else []

/-- `%d` of a 64-bit argument: its low 32 bits, signed. -/
def formatInt (value : Int) : Bytes :=
  let low := value.bmod (2 ^ 32)
  if low < 0 then ascii "-" ++ decimal low.natAbs else decimal low.natAbs

/-- `build_http_resp_header`; `date` is what `format_current_time` writes. -/
def buildHttpRespHeader (date : Bytes) (header : HttpRespHeader) : Bytes :=
  getHttpVersionStr header.version ++ ascii " " ++ decimal header.statusCode.toNat ++ ascii " " ++
    getReasonPhrase header.statusCode ++ ascii "\r\nDate: " ++ date ++
    ascii "\r\nContent-Length: " ++ formatInt header.contentLength ++
    ascii "\r\nConnection: " ++ (if header.keepAlive ≠ 0 then ascii "keep-alive" else ascii "close") ++
    ascii "\r\nContent-Type: " ++ header.contentType ++
    ascii "\r\nCache-control: max-age=3600\r\n\r\n"

theorem buildHttpRespHeader_ne_nil (date : Bytes) (header : HttpRespHeader) :
    buildHttpRespHeader date header ≠ [] := by
  apply List.append_ne_nil_of_right_ne_nil
  decide

/-- What `append_post_reponse` formats. -/
def postText (postData : Bytes) : Bytes :=
  ascii "<h1>Post Data</h1><pre>" ++ postData ++ ascii "</pre>"

theorem postText_ne_nil (postData : Bytes) : postText postData ≠ [] := by
  apply List.append_ne_nil_of_right_ne_nil
  decide

/-- `append_post_reponse` by way of its 1024 bytes on the stack; a longer text
overruns them. -/
def appendPostResponse (buf postData : Bytes) : Option Bytes :=
  if (postText postData).length < 1024 then some (buf ++ postText postData) else none

/-- `size_of_file` -/
def sizeOfFile (disk : Disk) (filename : Bytes) : Int :=
  match disk.files filename with
  | none => -1
  | some content => content.length

end NetworkSystem.Http
