import NetworkSystem.Http.Response

/-! The sending half of the HTTP server: one connection under `epoll`, and what one
EPOLLOUT event does to it. `send` on the non-blocking socket takes what fits into the
socket's buffer, or refuses. -/

namespace NetworkSystem.Http

open Bytes

/-- What the connection waits for: `ev->events`. -/
inductive Events where
  | EPOLLIN
  | EPOLLOUT
  deriving DecidableEq, Repr

/-- `epoll_io_t` with the events it is registered for, and the bytes that its socket
has accepted so far. `buf` is null or holds `size` bytes; a `readfd` of 0 is `none`. -/
structure EpollIo where
  readfd : Option FILE
  timestamp : Nat
  keepaliveTime : Nat
  req : Option HttpReq
  buf : Option Bytes
  events : Events
  accepted : Bytes

/-- The outcome of one `send`: room for so many bytes, EAGAIN or EWOULDBLOCK, or
another error. -/
inductive SendOutcome where
  | room (count : Nat)
  | again
  | error
  deriving DecidableEq, Repr

/-- One EPOLLOUT event: the time, the same time as `format_current_time` writes it,
and the outcome of the `send` that the event may lead to. -/
structure Event where
  now : Nat
  date : Bytes
  outcome : SendOutcome

def resetEpoll (now : Nat) (io : EpollIo) : EpollIo :=
  { io with
    readfd := none
    req := none
    buf := none
    timestamp := now
    events := .EPOLLIN }

/-- Whatever part of the buffer `send` takes, the buffer is freed. -/
def sendData (event : Event) (more : Bool) (io : EpollIo) : EpollIo :=
  match event.outcome with
  | .room count =>
      let io := { io with
        accepted := io.accepted ++ (io.buf.getD []).take count
        buf := none }
      if more then io else resetEpoll event.now io
  | .again => io
  | .error => resetEpoll event.now { io with keepaliveTime := 0 }

def okHeader (disk : Disk) (path : Bytes) (req : HttpReq) : HttpRespHeader where
  version := req.version
  statusCode := errStatusCode.getD 0 0
  keepAlive := req.keepAlive
  contentLength :=
    sizeOfFile disk path + (if req.method = POST then 29 + (req.postData.length : Int) else 0)
  contentType := req.contentType

def errHeader (req : HttpReq) : HttpRespHeader where
  version := req.version
  statusCode := errStatusCode.getD req.errorCode.toNat 0
  keepAlive := req.keepAlive
  contentLength := (errResp.getD req.errorCode.toNat []).length
  contentType := ascii "text/html"

def HttpReq.appends (req : HttpReq) : Bool :=
  decide (req.method = POST ∧ req.contentType = ascii "text/html")

/-- `handle_out` of one event; `none` where the source follows a null request or
overruns the buffer of `append_post_reponse`. -/
def handleOut (root : Bytes) (disk : Disk) (event : Event) (io : EpollIo) : Option EpollIo :=
  match io.buf, io.readfd, io.req with
  | some _, _, _ => some (sendData event false io)
  | none, none, none => none
  | none, none, some req =>
      let path := root ++ req.uri
      match if req.errorCode = 0 then disk.fopenRead path else none with
      | some fp =>
          let buf := buildHttpRespHeader event.date (okHeader disk path req)
          some (sendData event true { io with readfd := some fp, buf := some buf })
      | none =>
          let req := if req.errorCode = 0 then { req with errorCode := ERR_NOT_FOUND } else req
          let buf := buildHttpRespHeader event.date (errHeader req) ++
            errResp.getD req.errorCode.toNat []
          some (sendData event false { io with req := some req, buf := some buf })
  | none, some fp, req =>
      let (data, fp) := fp.fread BUF_SIZE
      if data.length > 0 then
        some (sendData event true { io with readfd := some fp, buf := some data })
      else
        match req with
        | none => none
        | some req =>
            if req.appends then
              (appendPostResponse [] req.postData).map (fun buf =>
                sendData event false { io with readfd := some fp, buf := some buf })
            else some (resetEpoll event.now { io with readfd := some fp })

/-- The connection once it waits for input again, if it ever does; from then on no
EPOLLOUT event comes. -/
def respond (root : Bytes) (disk : Disk) : EpollIo → List Event → Option EpollIo
  | _, [] => none
  | io, event :: rest =>
      match handleOut root disk event io with
      | none => none
      | some next => if next.events = .EPOLLIN then some next else respond root disk next rest

end NetworkSystem.Http
