import NetworkSystem.Dfc.Listing
import NetworkSystem.Lib.Fields

/-! The requests of the proxy: how one is read and what is sent to the server and to the
log for it, from `proxy.c` and `log.c`. -/

namespace NetworkSystem.Proxy

open Bytes
open Dfc (atoi isSpace formatInt)

def DEFAULT_PORT : Int := 80
def MAXBUF : Nat := 4096

/-- What `parse_address` stores. -/
structure Target where
  address : Bytes
  port : Int
  path : Bytes
  deriving DecidableEq

/-- The bytes that `strpbrk` looks for behind the host. -/
def isHostEnd (byte : UInt8) : Bool := byte ∈ ascii " :/\r\n"

/-- `parse_address`; `none` for the 0 that it returns for another scheme. -/
def parseAddress (uri : Bytes) : Option Target :=
  if lower (uri.take 7) = ascii "http://" then
    let hostbegin := uri.drop 7
    let hostend := hostbegin.dropWhile (fun byte => !isHostEnd byte)
    let pathbegin := hostbegin.dropWhile (· ≠ 47)
    some { address := hostbegin.takeWhile (fun byte => !isHostEnd byte)
           port := if hostend.head? = some 58 then atoi (hostend.drop 1) else DEFAULT_PORT
           path := pathbegin.drop 1 }
  else none

/-- The text of `send_request`. -/
def requestText (address path version : Bytes) : Bytes :=
  ascii "GET /" ++ path ++ ascii " " ++ version ++ ascii "\r\nHost: " ++ address ++
    ascii "\r\n\r\n"

/-- `send_request`: what it sends; `none` when the text runs past `buf`. -/
def sendRequest (address path version : Bytes) : Option Bytes :=
  storeText MAXBUF (requestText address path version)

/-- The text of `send_error_msg`. -/
def errorText (errnum shortmsg longmsg : Bytes) : Bytes :=
  ascii "HTTP/1.0 " ++ errnum ++ ascii " " ++ shortmsg ++
    ascii "\r\nContent-type: text/html\r\nContent-length: " ++ decimal longmsg.length ++
    ascii "\r\n\r\n" ++ longmsg

/-- One `%s`: the next word of a text and what follows it. -/
def scanWord (text : Bytes) : Option (Bytes × Bytes) :=
  let text := text.dropWhile isSpace
  if text = [] then none
  else some (text.takeWhile (fun byte => !isSpace byte), text.dropWhile (fun byte => !isSpace byte))

/-- The conversions of `"%s %s %s"`: the words that are found, and what follows them. -/
def scanWords : Nat → Bytes → List Bytes × Bytes
  | 0, text => ([], text)
  | count + 1, text =>
      match scanWord text with
      | none => ([], [])
      | some (word, rest) =>
          let (later, last) := scanWords count rest
          (word :: later, last)

/-- An array that a word is stored in, if there is one. -/
def stored (array : Bytes) : Option Bytes → Bytes
  | none => array
  | some word => word ++ 0 :: array.drop (word.length + 1)

/-- The arrays of `connection_handler` and `read_request`, as the calls find them. -/
structure Stack where
  buf : Bytes
  method : Bytes
  uri : Bytes
  version : Bytes
  buf_size : buf.length = MAXBUF
  method_size : method.length = MAXBUF
  uri_size : uri.length = MAXBUF
  version_size : version.length = MAXBUF

/-- What `read_request` comes to: a return of -1 with the bytes it has sent to the client, a
return of 0 with the address and the arrays `uri` and `version`, or a read past the end of
an array. -/
inductive Outcome where
  | refused (sent : Bytes)
  | accepted (target : Target) (uri version : Bytes)
  | overrun

/-- `read_request` behind its `recv`. -/
def parseRequest (stack : Stack) (buf : Bytes) : Outcome :=
  let (words, rest) := scanWords 3 (cstr buf)
  if 0 ∉ buf ∧ rest = [] then .overrun
  else
    let method := stored stack.method words[0]?
    let uri := stored stack.uri words[1]?
    let version := stored stack.version words[2]?
    if lower (cstr method) ≠ ascii "get" then .refused []
    else
      match parseAddress (cstr uri) with
      | none =>
          .refused (errorText (ascii "400") (ascii "Bad request")
            (ascii "Proxy cannot parse the address"))
      | some target => if 0 ∈ uri then .accepted target uri version else .overrun

/-- `read_request`, with the bytes that `recv` gives, or `none` where it fails and leaves
`buf` as it was. -/
def readRequest (stack : Stack) : Option Bytes → Outcome
  | none => parseRequest stack stack.buf
  | some data =>
      if data.length = 0 then .refused []
      else parseRequest stack (data ++ stack.buf.drop data.length)

/-- An address as the log has it. -/
def dotted (peer : UInt32) : Bytes :=
  let host := peer.toNat
  decimal (host / 2 ^ 24) ++ ascii "." ++ decimal (host / 2 ^ 16 % 256) ++ ascii "." ++
    decimal (host / 2 ^ 8 % 256) ++ ascii "." ++ decimal (host % 256)

/-- The text of `format_log_entry`, with `date` as `strftime` has formatted it. -/
def logEntry (date : Bytes) (peer : UInt32) (uri : Bytes) (size : Int) : Bytes :=
  date ++ ascii ": " ++ dotted peer ++ ascii " " ++ uri ++ ascii " " ++ formatInt size

/-- `format_log_entry`: what it leaves in `logString`; `none` when the entry runs past its
end. Without the address of the peer nothing is stored. -/
def formatLogEntry (logString date : Bytes) (peer : Option UInt32) (uri : Bytes) (size : Int) :
    Option Bytes :=
  match peer with
  | none => some logString
  | some peer =>
      (storeText 1024 (logEntry date peer uri size)).map (fun entry =>
        entry ++ 0 :: logString.drop (entry.length + 1))

theorem scanWord_eq_none {text : Bytes} (none_ : scanWord text = none) :
    Fields.fields isSpace text = [] := by
  simp only [scanWord] at none_
  split_ifs at none_ with empty
  rw [← Fields.fields_dropWhile isSpace isSpace (fun _ space => space), empty, Fields.fields_nil]

theorem scanWord_eq_some {text word rest : Bytes} (found : scanWord text = some (word, rest)) :
    Fields.fields isSpace text = word :: Fields.fields isSpace rest := by
  simp only [scanWord] at found
  split_ifs at found with full
  have parts := Prod.mk.inj (Option.some.inj found)
  have front : (text.dropWhile isSpace).head?.map isSpace = some false := by
    have head := List.head_dropWhile_not isSpace full
    rw [List.head?_eq_some_head full, Option.map_some, head]
  rw [← Fields.fields_dropWhile isSpace isSpace (fun _ space => space),
    Fields.fields_eq_cons isSpace _ front, parts.1, parts.2]

theorem scanWords_fst (count : Nat) (text : Bytes) :
    (scanWords count text).1 = (Fields.fields isSpace text).take count := by
  induction count generalizing text with
  | zero => rfl
  | succ count ih =>
      rw [scanWords]
      cases next : scanWord text with
      | none => rw [scanWord_eq_none next, List.take_nil]
      | some found =>
          rw [scanWord_eq_some next, List.take_succ_cons, ← ih]

theorem cstr_stored (array : Bytes) (words : List Bytes) (i : Nat)
    (clean : ∀ word ∈ words, 0 ∉ word) :
    cstr (stored array words[i]?) = words[i]?.getD (cstr array) := by
  cases at_ : words[i]? with
  | none => rfl
  | some word => exact cstr_append_zero word _ (clean word (List.mem_of_getElem? at_))

/-- The words of a request: the runs without a space, up to its first zero. -/
def requestWords (request : Bytes) : List Bytes := Fields.fields isSpace (cstr request)

/-- Its method, URI and version; what the arrays hold where it has too few words. -/
def methodOf (stack : Stack) (request : Bytes) : Bytes :=
  (requestWords request)[0]?.getD (cstr stack.method)

def uriOf (stack : Stack) (request : Bytes) : Bytes :=
  (requestWords request)[1]?.getD (cstr stack.uri)

def versionOf (stack : Stack) (request : Bytes) : Bytes :=
  (requestWords request)[2]?.getD (cstr stack.version)

theorem requestWords_clean (request : Bytes) : ∀ word ∈ requestWords request, 0 ∉ word := by
  intro word member zero
  have cut := (List.mem_filter.mp member).1
  exact zero_not_mem_cstr request ((Fields.mem_piece isSpace _ word cut).2 0 zero)

/-- What `read_request` makes of the words that `sscanf` has found. -/
def outcomeOf (stack : Stack) (words : List Bytes) : Outcome :=
  let method := stored stack.method words[0]?
  let uri := stored stack.uri words[1]?
  let version := stored stack.version words[2]?
  if lower (cstr method) ≠ ascii "get" then .refused []
  else
    match parseAddress (cstr uri) with
    | none =>
        .refused (errorText (ascii "400") (ascii "Bad request")
          (ascii "Proxy cannot parse the address"))
    | some target => if 0 ∈ uri then .accepted target uri version else .overrun

theorem parseRequest_eq (stack : Stack) (buf : Bytes) :
    parseRequest stack buf =
      if 0 ∉ buf ∧ (scanWords 3 (cstr buf)).2 = [] then .overrun
      else outcomeOf stack ((requestWords buf).take 3) := by
  have words : (scanWords 3 (cstr buf)).1 = (requestWords buf).take 3 := scanWords_fst 3 (cstr buf)
  rw [← words]
  rfl

theorem outcomeOf_request (stack : Stack) (buf : Bytes) :
    outcomeOf stack ((requestWords buf).take 3) =
      if lower (methodOf stack buf) ≠ ascii "get" then .refused []
      else
        match parseAddress (uriOf stack buf) with
        | none =>
            .refused (errorText (ascii "400") (ascii "Bad request")
              (ascii "Proxy cannot parse the address"))
        | some target =>
            if 0 ∈ stored stack.uri (requestWords buf)[1]? then
              .accepted target (stored stack.uri (requestWords buf)[1]?)
                (stored stack.version (requestWords buf)[2]?)
            else .overrun := by
  have words : ∀ i < 3, ((requestWords buf).take 3)[i]? = (requestWords buf)[i]? :=
    fun i few => List.getElem?_take_of_lt few
  have clean := requestWords_clean buf
  rw [outcomeOf, words 0 (by decide), words 1 (by decide), words 2 (by decide),
    cstr_stored _ _ _ clean, cstr_stored _ _ _ clean]
  rfl

theorem outcomeOf_accepted {stack : Stack} {request uri version : Bytes} {target : Target}
    (accepted : outcomeOf stack ((requestWords request).take 3) = .accepted target uri version) :
    lower (methodOf stack request) = ascii "get" ∧
      parseAddress (uriOf stack request) = some target ∧
      cstr uri = uriOf stack request ∧ cstr version = versionOf stack request := by
  rw [outcomeOf_request] at accepted
  have clean := requestWords_clean request
  by_cases method : lower (methodOf stack request) = ascii "get"
  · rw [if_neg (not_not.mpr method)] at accepted
    cases parsed : parseAddress (uriOf stack request) with
    | none =>
        rw [parsed] at accepted
        cases accepted
    | some found =>
        rw [parsed] at accepted
        dsimp only at accepted
        split_ifs at accepted
        rw [Outcome.accepted.injEq] at accepted
        rcases accepted with ⟨rfl, rfl, rfl⟩
        exact ⟨method, rfl, cstr_stored _ _ _ clean, cstr_stored _ _ _ clean⟩
  · rw [if_pos method] at accepted
    cases accepted

theorem parseRequest_of_zero (stack : Stack) (buf : Bytes) (zero : 0 ∈ buf) :
    parseRequest stack buf =
      if lower (methodOf stack buf) ≠ ascii "get" then .refused []
      else
        match parseAddress (uriOf stack buf) with
        | none =>
            .refused (errorText (ascii "400") (ascii "Bad request")
              (ascii "Proxy cannot parse the address"))
        | some target =>
            if 0 ∈ stored stack.uri (requestWords buf)[1]? then
              .accepted target (stored stack.uri (requestWords buf)[1]?)
                (stored stack.version (requestWords buf)[2]?)
            else .overrun := by
  rw [parseRequest_eq, if_neg (fun both => both.1 zero), outcomeOf_request]

section ended

variable {stack : Stack} {request : Bytes} (ended : stack.buf[request.length]? = some 0)

include ended

theorem buf_of_ended :
    0 ∈ request ++ stack.buf.drop request.length ∧
      requestWords (request ++ stack.buf.drop request.length) = requestWords request := by
  obtain ⟨inside, value⟩ := List.getElem?_eq_some_iff.mp ended
  have behind : stack.buf.drop request.length = 0 :: stack.buf.drop (request.length + 1) := by
    rw [List.drop_eq_getElem_cons inside, value]
  rw [behind]
  refine ⟨List.mem_append_right _ List.mem_cons_self, ?_⟩
  rw [requestWords, cstr_append_cons_zero]
  rfl

theorem accepted_parts {target : Target} {uri version : Bytes}
    (accepted : readRequest stack (some request) = .accepted target uri version) :
    lower (methodOf stack request) = ascii "get" ∧
      parseAddress (uriOf stack request) = some target ∧
      cstr uri = uriOf stack request ∧ cstr version = versionOf stack request := by
  rcases buf_of_ended ended with ⟨zero, same⟩
  rw [readRequest] at accepted
  split_ifs at accepted
  rw [parseRequest_eq, if_neg (fun both => both.1 zero), same] at accepted
  exact outcomeOf_accepted accepted

theorem readRequest_get {method uri version : Bytes} {rest : List Bytes} {target : Target}
    (words : requestWords request = method :: uri :: version :: rest)
    (get : lower method = ascii "get") (parsed : parseAddress uri = some target) :
    readRequest stack (some request) =
      .accepted target (stored stack.uri (some uri)) (stored stack.version (some version)) := by
  rcases buf_of_ended ended with ⟨zero, same⟩
  have some_ : ¬ request.length = 0 := by
    intro empty
    rw [List.eq_nil_of_length_eq_zero empty, requestWords] at words
    cases words
  rw [readRequest, if_neg some_, parseRequest_of_zero stack _ zero, methodOf, uriOf, same, words]
  simp only [List.getElem?_cons_zero, List.getElem?_cons_succ, Option.getD_some, get, parsed,
    ne_eq, not_true_eq_false, ↓reduceIte]
  exact if_pos (List.mem_append_right _ List.mem_cons_self)

end ended

end NetworkSystem.Proxy
