import NetworkSystem.Lib.Runs
import NetworkSystem.Http.Parse
import NetworkSystem.Http.Server

/-! One connection of the HTTP server under `epoll`, with every outcome of the calls it
makes, and the history of these calls. -/

namespace NetworkSystem.Http

open Bytes

/-- What a `recv` reads that returns more than zero. -/
abbrev Segment := { bytes : Bytes // bytes ≠ [] }

/-- What `recv` returns: some bytes, with what the memory behind the buffer holds, or
nothing because the peer has closed, because there is nothing yet, or for an error. -/
inductive RecvOutcome where
  | received (bytes : Segment) (behind : Bytes)
  | closed
  | again
  | error
  deriving DecidableEq

/-- What the calls of one EPOLLOUT event return: the time and its text, `open` and
`size_of_file`, `read` and `send`. A `none` is a -1. -/
structure Outcomes where
  now : Nat
  date : Bytes
  opened : Option Nat
  fileSize : Int
  read : Option Bytes
  sent : SendOutcome
  date_line : 10 ∉ date
  opened_pos : opened ≠ some 0
  read_fits : ∀ data ∈ read, data.length ≤ BUF_SIZE

/-- The calls of a connection. `answered` is the header of a response, once it is
built, and `waiting` the registration for EPOLLIN behind a response. -/
inductive Call where
  | received (outcome : RecvOutcome)
  | opened (path : Bytes) (fd : Option Nat)
  | answered (header : HttpRespHeader)
  | read (fd : Nat) (data : Option Bytes)
  | sent (buf : Bytes) (size : Nat) (outcome : SendOutcome)
  | closed (fd : Nat)
  | waiting

/-- `epoll_io_t` with the events it is registered for, and the calls made so far. `buf`
is null or holds what has been written to its 4096 bytes. -/
structure Connection where
  readfd : Nat
  timestamp : Nat
  keepaliveTime : Nat
  req : Option HttpReq
  buf : Option Bytes
  size : Nat
  events : Events
  log : List Call

/-- What an event of `epoll_wait` tells about a connection. -/
inductive Readiness where
  | readable (outcome : RecvOutcome)
  | writable (outcomes : Outcomes)

namespace Connection

/-- A connection as `handle_accept` registers it. -/
def fresh : Connection where
  readfd := 0
  timestamp := 0
  keepaliveTime := 0
  req := none
  buf := none
  size := 0
  events := .EPOLLIN
  log := []

def note (calls : List Call) (conn : Connection) : Connection :=
  { conn with log := conn.log ++ calls }

@[simp] theorem note_req (calls : List Call) (conn : Connection) :
    (conn.note calls).req = conn.req := rfl

@[simp] theorem note_readfd (calls : List Call) (conn : Connection) :
    (conn.note calls).readfd = conn.readfd := rfl

@[simp] theorem note_log (calls : List Call) (conn : Connection) :
    (conn.note calls).log = conn.log ++ calls := rfl

def resetEpoll (now : Nat) (conn : Connection) : Connection :=
  let conn := if conn.readfd ≠ 0 then conn.note [.closed conn.readfd] else conn
  { conn.note [.waiting] with
    readfd := 0
    req := none
    buf := none
    timestamp := now
    events := .EPOLLIN }

def handleIn [Overlapping] (conf : Config) (outcome : RecvOutcome) (conn : Connection) :
    Option Connection :=
  let conn := conn.note [.received outcome]
  match outcome with
  | .received bytes behind =>
      match parseHttpReq conf (receivedText bytes behind) with
      | none => none
      | some req =>
          some { conn with
            req := some req.toHttpReq
            keepaliveTime := if req.keepAlive = 0 then 0 else conf.keepaliveTime
            events := .EPOLLOUT }
  | _ => some conn

/-- `send` of the first `size` bytes of the buffer. -/
def sendData (outcomes : Outcomes) (more : Bool) (conn : Connection) : Connection :=
  let conn := conn.note [.sent (conn.buf.getD []) conn.size outcomes.sent]
  match outcomes.sent with
  | .room _ =>
      let conn := { conn with buf := none }
      if more then conn else resetEpoll outcomes.now conn
  | .again => conn
  | .error => resetEpoll outcomes.now { conn with keepaliveTime := 0 }

/-- The header of an answer with 200, for a file of `fileSize` bytes. -/
def foundHeader (fileSize : Int) (req : HttpReq) : HttpRespHeader where
  version := req.version
  statusCode := errStatusCode.getD 0 0
  keepAlive := req.keepAlive
  contentLength :=
    fileSize + (if req.method = POST then 29 + (req.postData.length : Int) else 0)
  contentType := req.contentType

/-- `buf` filled with a text and `size` set to its length. -/
def fill (text : Bytes) (conn : Connection) : Connection :=
  { conn with buf := some text, size := text.length }

def answerFound (outcomes : Outcomes) (fd : Nat) (req : HttpReq) (conn : Connection) : Connection :=
  let header := foundHeader outcomes.fileSize req
  let conn := { conn.note [.answered header] with readfd := fd }
  sendData outcomes true (conn.fill (buildHttpRespHeader outcomes.date header))

def answerError (outcomes : Outcomes) (req : HttpReq) (conn : Connection) : Connection :=
  let header := errHeader req
  let conn := { conn.note [.answered header] with req := some req }
  sendData outcomes false (conn.fill
    (buildHttpRespHeader outcomes.date header ++ errResp.getD req.errorCode.toNat []))

/-- A failed `read` returns -1, which `size_t` takes for the largest size. -/
def readFailed : Nat := 2 ^ 64 - 1

def answerFile (outcomes : Outcomes) (conn : Connection) : Option Connection :=
  let conn := conn.note [.read conn.readfd outcomes.read]
  match outcomes.read with
  | none => some (sendData outcomes true { conn with
      buf := some (zeros BUF_SIZE)
      size := readFailed })
  | some data =>
      if data.length > 0 then some (sendData outcomes true (conn.fill data))
      else
        match conn.req with
        | none => none
        | some req =>
            if req.appends then
              (appendPostResponse [] req.postData).map (fun text =>
                sendData outcomes false (conn.fill text))
            else some (resetEpoll outcomes.now conn)

/-- `handle_out`; `none` where the source follows a null request or overruns the buffer
of `append_post_reponse`. -/
def handleOut (conf : Config) (outcomes : Outcomes) (conn : Connection) : Option Connection :=
  match conn.buf with
  | some _ => some (sendData outcomes false conn)
  | none =>
      if conn.readfd = 0 then
        match conn.req with
        | none => none
        | some req =>
            if req.errorCode = 0 then
              let conn := conn.note [.opened (conf.root.text ++ req.uri) outcomes.opened]
              match outcomes.opened with
              | some fd => some (answerFound outcomes fd req conn)
              | none => some (answerError outcomes { req with errorCode := ERR_NOT_FOUND } conn)
            else some (answerError outcomes req conn)
      else answerFile outcomes conn

/-- What `main` does with an event. `epoll` reports only what a connection is registered
for. -/
def step [Overlapping] (conf : Config) (conn : Connection) : Readiness → Option Connection
  | .readable outcome => if conn.events = .EPOLLIN then handleIn conf outcome conn else some conn
  | .writable outcomes => if conn.events = .EPOLLOUT then handleOut conf outcomes conn else some conn

def run [Overlapping] (conf : Config) : Connection → List Readiness → Option Connection :=
  Runs.run (step conf)

end Connection

end NetworkSystem.Http
