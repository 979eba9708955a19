import NetworkSystem.Http.Headers
import NetworkSystem.Http.Serving
import NetworkSystem.Proxy.Leftovers
import NetworkSystem.Proxy.Traffic

/-! The proxy in front of the HTTP server: what the server reads in a request of the proxy, and
what its client gets back. -/

namespace NetworkSystem.Proxy

open Bytes Descriptors
open Dfc (isSpace)

/-! What `parse_http_req` reads in a text of `send_request`. -/

/-- A GET of a path, as a server takes it down that keeps no connection alive. -/
def plainGet (conf : Http.Config) (path version : Bytes) : Http.HttpReq :=
  let uri := if path = [] then 47 :: Http.entry conf.index 0 else 47 :: path
  let contentType := (Http.getContentType conf uri).getD []
  let errorCode := if contentType.length = 0 then Http.ERR_NOT_IMPLEMENTED else 0
  (Http.parseVersion version
    { Http.ParsedReq.zero with method := Http.GET, uri, contentType, errorCode }).toHttpReq

theorem plainGet_fields (conf : Http.Config) (path version : Bytes) :
    (plainGet conf path version).method = Http.GET ∧ (plainGet conf path version).postData = [] := by
  simp only [plainGet, Http.parseVersion]
  split_ifs <;> exact ⟨rfl, rfl⟩

theorem removeEndl_cr (line : Bytes) : removeEndl (line ++ [13]) = line := by
  have other : (13 : UInt8) ≠ 10 := by decide
  simp only [removeEndl, List.getLast?_concat, Option.some.injEq, other, ↓reduceIte,
    List.dropLast_concat]

def forwardedLine (path version : Bytes) : Bytes :=
  ascii "GET" ++ 32 :: (47 :: path ++ 32 :: version)

def forwardedHost (address : Bytes) : Bytes := ascii "Host: " ++ address ++ [13]

section forwarded

variable {address path version : Bytes} (pathWord : ∀ byte ∈ path, byte ≠ 32 ∧ byte ≠ 10)
  (versionWord : ∀ byte ∈ version, byte ≠ 32 ∧ byte ≠ 10)

theorem requestText_lines : requestText address path version =
    forwardedLine path version ++ [13] ++ 10 :: (forwardedHost address ++ 10 :: ([13] ++ [10])) := by
  have texts : ascii "GET /" = ascii "GET" ++ [32, 47] ∧ ascii " " = [32] ∧
      ascii "\r\nHost: " = 13 :: 10 :: ascii "Host: " ∧ ascii "\r\n\r\n" = [13, 10, 13, 10] := by
    decide
  simp only [requestText, forwardedLine, forwardedHost, texts, List.append_assoc,
    List.cons_append, List.nil_append]

include pathWord versionWord

theorem request_forwarded (single : 10 ∉ address) :
    Http.Request (requestText address path version) (forwardedLine path version ++ [13])
      [forwardedHost address] [] := by
  have get : 10 ∉ ascii "GET" := by decide
  have name : 10 ∉ ascii "Host: " := by decide
  have line : 10 ∉ forwardedLine path version ++ [13] := by
    simp only [forwardedLine, List.mem_append, List.mem_cons, List.not_mem_nil, not_or]
    refine ⟨⟨get, by decide, ⟨by decide, ?_⟩, by decide, ?_⟩, by decide, not_false⟩
    · exact fun member => (pathWord 10 member).2 rfl
    · exact fun member => (versionWord 10 member).2 rfl
  have host : 10 ∉ forwardedHost address := by
    simp only [forwardedHost, List.mem_append, List.mem_cons, List.not_mem_nil, not_or]
    exact ⟨⟨name, single⟩, by decide, not_false⟩
  have filled : ¬ Http.BlankLine (forwardedHost address) := by
    rintro (empty | empty) <;> simp [forwardedHost, ascii] at empty
  rw [requestText_lines]
  apply Http.Request.full _ _ _ _ line
  apply Http.Sections.header _ _ _ _ host filled
  exact Http.Sections.blank [13] [] (Or.inr rfl)

theorem requestTokens_forwarded (single : 10 ∉ address) :
    Http.requestTokens (requestText address path version) = [ascii "GET", 47 :: path, version] := by
  have get : (32 : UInt8) ∉ ascii "GET" := by decide
  have slash : (32 : UInt8) ∉ 47 :: path := by
    rw [List.mem_cons, not_or]
    exact ⟨by decide, fun member => (pathWord 32 member).1 rfl⟩
  have word : (32 : UInt8) ∉ version := fun member => (versionWord 32 member).1 rfl
  have line := removeEndl_cr (forwardedLine path version)
  have some_ : forwardedLine path version ≠ [] := by simp [forwardedLine, ascii]
  rw [(request_forwarded pathWord versionWord single).requestTokens, line, tokens_single,
    if_neg some_, forwardedLine, List.splitOn_append_cons_self_of_not_mem get,
    List.splitOn_append_cons_self_of_not_mem slash, List.splitOn_eq_singleton word]

omit pathWord versionWord

theorem applyHeader_forwarded [Overlapping] (address : Bytes) (req : Http.ParsedReq) :
    (Http.applyHeader req (removeEndl (forwardedHost address))).toHttpReq = req.toHttpReq := by
  have name : Http.headerName (ascii "Host: " ++ address) = ascii "host" := by
    have text : lower (ascii "Host: " ++ address) = ascii "host" ++ 58 :: (32 :: lower address) := by
      rw [Http.lower_append]
      rfl
    have apart : ¬ Overlaps (ascii "host") 32 := by decide
    rw [Http.headerName, text, Http.splitFirst_append _ _ _ (by decide), strip_of_apart apart]
    decide
  rw [forwardedHost, removeEndl_cr, Http.applyHeader, Http.applyField, if_pos name]

theorem lineRequest_forwarded (conf : Http.Config) (buf : Bytes)
    (tokens : Http.requestTokens buf = [ascii "GET", 47 :: path, version]) :
    (Http.lineRequest conf buf).toHttpReq = plainGet conf path version := by
  have slash : ascii "/" = [47] := by decide
  have uri : Http.requestUri conf buf =
      if path = [] then 47 :: Http.entry conf.index 0 else 47 :: path := by
    simp only [Http.requestUri, tokens, List.getD_cons_succ, List.getD_cons_zero, slash,
      List.cons.injEq, true_and]
    split_ifs with empty
    · rw [empty]
      rfl
    · rfl
  have method : Http.parseMethod (ascii "GET") Http.ParsedReq.zero =
      { Http.ParsedReq.zero with method := Http.GET } := if_pos rfl
  simp only [Http.lineRequest, Http.requestType, tokens, uri, plainGet, List.getD_cons_zero,
    List.getD_cons_succ, method]
  apply congrArg fun req => (Http.parseVersion version req).toHttpReq
  split_ifs <;> rfl

end forwarded

/-- The server reads a GET of the path, whatever the client has told the proxy besides. -/
theorem parse_forwarded [Letters] (conf : Http.Config) {address path version : Bytes}
    (pathWord : ∀ byte ∈ path, byte ≠ 32 ∧ byte ≠ 10)
    (versionWord : ∀ byte ∈ version, byte ≠ 32 ∧ byte ≠ 10) (single : 10 ∉ address)
    (fits : Http.Fits conf (requestText address path version)) :
    ∃ req, Http.parseHttpReq conf (requestText address path version) = some req ∧
      req.toHttpReq = plainGet conf path version := by
  have tokens := requestTokens_forwarded pathWord versionWord single
  have request := request_forwarded pathWord versionWord single
  have parsed := request.parsed conf fits (by rw [tokens]; exact Nat.le_refl 3)
    (fun line _ => Http.readable line)
  refine ⟨_, parsed, ?_⟩
  have line := lineRequest_forwarded conf _ tokens
  have header := applyHeader_forwarded address
    (Http.lineRequest conf (requestText address path version))
  calc ({ Http.applyHeader (Http.lineRequest conf (requestText address path version))
          (removeEndl (forwardedHost address)) with postData := [] } : Http.ParsedReq).toHttpReq
      = { (Http.applyHeader (Http.lineRequest conf (requestText address path version))
          (removeEndl (forwardedHost address))).toHttpReq with postData := [] } := rfl
    _ = { plainGet conf path version with postData := [] } := by rw [header, line]
    _ = plainGet conf path version := by rw [← (plainGet_fields conf path version).2]

section words

variable {stack : Stack} {request : Bytes}

theorem requestWords_open (request : Bytes) :
    ∀ word ∈ requestWords request, ∀ byte ∈ word, isSpace byte = false :=
  fun word member => Fields.piece_clean isSpace _ word (List.mem_filter.mp member).1

theorem text_of_word {word part : Bytes} (member : word ∈ requestWords request)
    (inside : ∀ byte ∈ part, byte ∈ word) :
    0 ∉ part ∧ ∀ byte ∈ part, byte ≠ 32 ∧ byte ≠ 10 := by
  have clean := requestWords_clean request word member
  have open_ := requestWords_open request word member
  refine ⟨fun zero => clean (inside 0 zero), ?_⟩
  intro byte here
  have other := open_ byte (inside byte here)
  constructor
  · intro space
    rw [space] at other
    exact absurd other (by decide)
  · intro line
    rw [line] at other
    exact absurd other (by decide)

theorem target_inside {uri : Bytes} {target : Target} (parsed : parseAddress uri = some target) :
    (∀ byte ∈ target.address, byte ∈ uri) ∧ ∀ byte ∈ target.path, byte ∈ uri := by
  rcases parseAddress_parts parsed with ⟨-, address, path⟩
  constructor
  · intro byte member
    rw [address] at member
    exact List.mem_of_mem_drop ((List.takeWhile_prefix _).subset member)
  · intro byte member
    rw [path] at member
    exact List.mem_of_mem_drop ((List.dropWhile_suffix _).subset (List.mem_of_mem_drop member))

end words

theorem receivedText_clean {text : Bytes} (clean : 0 ∉ text) (short : text.length < MAXBUF)
    (behind : Bytes) : Http.receivedText text behind = text := by
  have room : zeros (Http.BUF_SIZE - text.length) = 0 :: zeros (Http.BUF_SIZE - text.length - 1) := by
    have some_ : Http.BUF_SIZE - text.length ≠ 0 := Nat.sub_ne_zero_of_lt short
    rw [zeros, zeros, ← List.replicate_succ, Nat.sub_add_cancel (Nat.one_le_iff_ne_zero.mpr some_)]
  rw [Http.receivedText, room, List.append_assoc, List.cons_append, cstr_append_zero text _ clean]

/-- When every `send` takes everything: the server has been asked for what the URI of the
request says, and the client has been sent what came back. -/
theorem Traffic.forwarded {handler : Handler} {client server : Seen} {request : Bytes}
    (traffic : Traffic (· = ·) (some client) server none handler)
    (got : client.received = [request])
    (three : 3 ≤ (Fields.ended isSpace (cstr request)).length)
    (asked : server.sent ≠ []) :
    ∃ target text, parseAddress (uriOf handler.stack request) = some target ∧
      sendRequest target.address target.path (versionOf handler.stack request) = some text ∧
      server.sent = [text] ∧ client.sent = server.received := by
  cases traffic with
  | waiting here idle silent alone =>
      rw [alone] at asked
      exact absurd rfl asked
  | refused data text outcome here alone =>
      rw [alone] at asked
      exact absurd rfl asked
  | serving data forward reads progress asked_ relayed =>
      rcases asked_ with alone | ⟨text, front, built, sent, rfl⟩
      · rw [alone] at asked
        exact absurd rfl asked
      rcases relayed client rfl with ⟨read, passed, blocks, fronts⟩
      have given : data = some request := by
        rw [got] at read
        cases data with
        | none => cases read
        | some bytes => rw [(List.singleton_inj.mp read)]
      rcases reads with ⟨uri, version, outcome, -, stored⟩
      rw [given] at outcome
      rw [readRequest_ended three] at outcome
      rcases outcomeOf_accepted outcome with ⟨-, parsed, -, versions⟩
      rw [stored, versions] at built
      refine ⟨forward.target, front, parsed, built, sent, ?_⟩
      rw [Option.toList_none, List.append_nil] at blocks
      rw [blocks]
      exact List.forall₂_eq_eq_eq ▸ fronts

/-- The connection of the proxy to the server: the server receives what the proxy sends in one
piece, and the proxy has received what the server has sent. -/
structure Connected (seen : Seen) (log : List Http.Call) : Prop where
  forth : ∃ behind, Http.requestTexts log = seen.sent.map (Http.receivedText · behind)
  back : seen.received.flatten = Http.sentBytes log

/-- The parts of a request with three words have neither zeros nor spaces nor line ends, so that
the server receives the text that is sent for it and reads a GET in it. -/
theorem text_readable [Letters] (conf : Http.Config) {stack : Stack} {request text : Bytes}
    {target : Target} (words : 3 ≤ (requestWords request).length)
    (parsed : parseAddress (uriOf stack request) = some target)
    (built : sendRequest target.address target.path (versionOf stack request) = some text)
    (fits : Http.Fits conf text) (behind : Bytes) :
    Http.receivedText text behind = text ∧ ∃ req, Http.parseHttpReq conf text = some req ∧
      req.toHttpReq = plainGet conf target.path (versionOf stack request) := by
  have uri : uriOf stack request ∈ requestWords request := by
    rw [uriOf, List.getElem?_eq_getElem (by omega : 1 < (requestWords request).length)]
    exact List.getElem_mem _
  have version : versionOf stack request ∈ requestWords request := by
    rw [versionOf, List.getElem?_eq_getElem (by omega : 2 < (requestWords request).length)]
    exact List.getElem_mem _
  have inside := target_inside parsed
  have address := text_of_word uri inside.1
  have path := text_of_word uri inside.2
  have word := text_of_word version (fun _ member => member)
  rcases (sendRequest_eq_some_iff _ _ _ _).mp built with ⟨room, rfl⟩
  have clean : 0 ∉ requestText target.address target.path (versionOf stack request) := by
    have texts : 0 ∉ ascii "GET /" ∧ 0 ∉ ascii " " ∧ 0 ∉ ascii "\r\nHost: " ∧
        0 ∉ ascii "\r\n\r\n" := by decide
    simp only [requestText, List.mem_append, not_or]
    exact ⟨⟨⟨⟨⟨⟨texts.1, path.1⟩, texts.2.1⟩, word.1⟩, texts.2.2.1⟩, address.1⟩, texts.2.2.2⟩
  have short : (requestText target.address target.path (versionOf stack request)).length <
      MAXBUF := by
    rw [length_requestText]
    omega
  constructor
  · exact receivedText_clean clean short behind
  · exact parse_forwarded conf path.2 word.2 (fun line => (address.2 10 line).2 rfl) fits

theorem answered_once [Overlapping] (conf : Http.Config) (files : Bytes → Option Bytes)
    (events : List Http.Readiness) (conn : Http.Connection)
    (reached : Http.Connection.run conf .fresh events = some conn)
    (waits : conn.events = .EPOLLIN) (whole : ∀ call ∈ conn.log, call.Whole)
    (finds : Http.Connection.FindsAlong conf files .fresh events)
    (small : ∀ path, ∀ content ∈ files path, content.length < 2 ^ 31) (text : Bytes)
    (heard : Http.requestTexts conn.log = [text]) (get : Http.HttpReq)
    (method : get.method = Http.GET)
    (reads : ∃ req, Http.parseHttpReq conf text = some req ∧ req.toHttpReq = get) :
    ∃ date, 10 ∉ date ∧ Http.clientResponses (Http.sentBytes conn.log) =
      some [((Http.answerTo files conf.root.text date get).head,
        (Http.answerTo files conf.root.text date get).body)] := by
  rcases reads with ⟨req, parsed, same⟩
  have announceable : ∀ other ∈ Http.requestTexts conn.log,
      ∀ found ∈ Http.parseHttpReq conf other,
        Http.Announceable files conf.root.text found.toHttpReq := by
    intro other member found parse content inside _
    rw [heard, List.mem_singleton] at member
    rw [member, parsed] at parse
    rw [← Option.some.inj parse, same] at inside ⊢
    have other : ¬ get.method = Http.POST := by
      rw [method]
      decide
    rw [if_neg other]
    exact ⟨small _ content inside, fun post => absurd post other⟩
  obtain ⟨replies, fulfils, responses⟩ := Http.Connection.served conf files events conn reached
    waits whole finds announceable
  rw [heard] at fulfils
  cases fulfils with
  | cons first rest =>
      cases rest
      obtain ⟨found, date, parse, dateLine, rfl⟩ := first
      rw [parsed] at parse
      rw [← Option.some.inj parse, same] at responses
      exact ⟨date, dateLine, responses⟩

/-- What a client gets through the proxy is what the server answers to a GET of the path: with
any other clients of both, and however the threads and events of both take turns, the bytes that
the client has been sent are one response, for the file of that path. -/
theorem proxied_get [Letters] (listenfd : Nat) (transfers : List Transfer) (last : Relay)
    (reached : (Relay.initial listenfd).run transfers = some last)
    (whole : ∀ front transfer middle, front ++ [transfer] <+: transfers →
      (Relay.initial listenfd).run front = some middle → middle.Takes (· = ·) transfer)
    (i : Nat) (handler : Handler) (here : last.process.handlers[i]? = some handler)
    (client socket : Nat) (accepted : handler.accepted = some client)
    (created : handler.created = some socket) (idle : last.outgoing i = none)
    (request : Bytes) (got : (last.seen client).received = [request])
    (three : 3 ≤ (Fields.ended isSpace (cstr request)).length)
    (asked : (last.seen socket).sent ≠ [])
    (conf : Http.Config) (files : Bytes → Option Bytes) (events : List Http.ServerEvent)
    (server : Http.Server) (ran : Http.Server.run conf .initial events = some server) (j : Nat)
    (waits : (server.conn j).events = .EPOLLIN)
    (sends : ∀ call ∈ (server.conn j).log, call.Whole)
    (finds : Http.Connection.FindsAlong conf files .fresh (Http.Server.heard conf j .initial events))
    (small : ∀ path, ∀ content ∈ files path, content.length < 2 ^ 31)
    (connected : Connected (last.seen socket) (server.conn j).log)
    (fits : ∀ text ∈ (last.seen socket).sent, Http.Fits conf text) :
    ∃ target date, parseAddress (uriOf handler.stack request) = some target ∧ 10 ∉ date ∧
      let reply := Http.answerTo files conf.root.text date
        (plainGet conf target.path (versionOf handler.stack request))
      Http.clientResponses (last.seen client).sent.flatten = some [(reply.head, reply.body)] := by
  have keeps := Relay.keeps_run (· = ·) listenfd transfers last reached whole
  have traffic := keeps.traffic i handler here
  have theClient : last.client handler = some (last.seen client) := by
    rw [Relay.client, accepted]
    rfl
  have theServer : last.server handler = last.seen socket := by
    rw [Relay.server, created]
    rfl
  rw [idle, theClient, theServer] at traffic
  rcases traffic.forwarded got three asked with ⟨target, text, parsed, built, sent, back⟩
  rcases connected.forth with ⟨behind, heard⟩
  have fits_ : Http.Fits conf text := fits text (by rw [sent]; exact List.mem_cons_self)
  rcases text_readable conf (words_of_ended three) parsed built fits_ behind with ⟨received, reads⟩
  rw [sent, List.map_singleton, received] at heard
  have run := Http.Server.run_heard j ran
  have fresh : Http.Server.initial.conn j = Http.Connection.fresh := rfl
  rw [fresh] at run
  have method := (plainGet_fields conf target.path (versionOf handler.stack request)).1
  rcases answered_once conf files _ (server.conn j) run waits sends finds small text heard _ method
    reads with ⟨date, dateLine, response⟩
  refine ⟨target, date, parsed, dateLine, ?_⟩
  rw [back, connected.back]
  exact response

def cookieRequest : Bytes := ascii "GET http://h/f.html HTTP/1.1\r\nCookie: c\r\n\r\n"

def originEvents : List Http.ServerEvent :=
  [.listening .accepted,
    .ready 0 (.readable (.received ⟨ascii "GET /f.html HTTP/1.1\r\nHost: h\r\n\r\n", by decide⟩ [])),
    .ready 0 (.writable (Http.Connection.sampleReturns (some 7) [])),
    .ready 0 (.writable (Http.Connection.sampleReturns none [1, 2])),
    .ready 0 (.writable (Http.Connection.sampleReturns none [3])),
    .ready 0 (.writable (Http.Connection.sampleReturns none []))]

attribute [local instance] Letters.forward

def originBytes : Bytes :=
  ((Http.Server.run Http.sampleConfig .initial originEvents).map fun server =>
    Http.sentBytes (server.conn 0).log).getD []

def proxiedTransfers : List Transfer :=
  [.accepting (some 4) freshStack true, .ask 0 (some cookieRequest), .call 0 (.socket (some 5)),
    .call 0 (.found true), .call 0 (.connected true), .request 0 4096,
    .block 0 (originBytes.take 20), .pass 0 20, .block 0 (originBytes.drop 20), .pass 0 4096]

theorem proxied_get_file :
    ∃ (last : Relay) (date : Bytes),
      (Relay.initial 3).run proxiedTransfers = some last ∧
      Http.clientResponses (last.seen 1).sent.flatten = some
        [((Http.answerTo Http.sampleFiles Http.sampleConfig.root.text date
            (plainGet Http.sampleConfig (ascii "f.html") (ascii "HTTP/1.1"))).head, [1, 2, 3])] := by
  have proxy : ((Relay.initial 3).run proxiedTransfers).map (fun last =>
      (last.process.handlers.map fun handler => (handler.accepted, handler.created),
        last.outgoing 0, [1, 2].map last.seen)) =
      some ([(some 1, some 2)], none,
        [⟨[cookieRequest], [originBytes.take 20, originBytes.drop 20]⟩,
          ⟨[originBytes.take 20, originBytes.drop 20],
            [ascii "GET /f.html HTTP/1.1\r\nHost: h\r\n\r\n"]⟩]) := by
    decide +kernel
  have request : ((Relay.initial 3).run proxiedTransfers).map (fun last =>
      last.process.handlers.map fun handler =>
        (parseAddress (uriOf handler.stack cookieRequest), versionOf handler.stack cookieRequest)) =
      some [(some ⟨ascii "h", 80, ascii "f.html"⟩, ascii "HTTP/1.1")] := by
    decide +kernel
  have whole : Runs.Along Relay.step (Relay.Takes (· = ·)) (Relay.initial 3)
      proxiedTransfers := by
    decide +kernel
  have origin : (Http.Server.run Http.sampleConfig .initial originEvents).map (fun server =>
      ((server.conn 0).events, decide (∀ call ∈ (server.conn 0).log, call.Whole),
        Http.requestTexts (server.conn 0).log, Http.sentBytes (server.conn 0).log)) =
      some (.EPOLLIN, true, [ascii "GET /f.html HTTP/1.1\r\nHost: h\r\n\r\n"], originBytes) := by
    decide +kernel
  have finds : Http.Connection.FindsAlong Http.sampleConfig Http.sampleFiles .fresh
      (Http.Server.heard Http.sampleConfig 0 .initial originEvents) := by
    decide +kernel
  have fits : Http.Fits Http.sampleConfig (ascii "GET /f.html HTTP/1.1\r\nHost: h\r\n\r\n") :=
    (Http.parseHttpReq_isSome Http.sampleConfig _).mp (by decide +kernel)
  have small : ∀ path, ∀ content ∈ Http.sampleFiles path, content.length < 2 ^ 31 := by
    intro path content found
    rw [Http.sampleFiles] at found
    split_ifs at found
    · rw [← Option.some.inj found]
      decide
    · cases found
  obtain ⟨last, reached, facts⟩ := Option.map_eq_some_iff.mp proxy
  obtain ⟨server, ran, answered⟩ := Option.map_eq_some_iff.mp origin
  simp only [Prod.mk.injEq, List.map_cons, List.map_nil, List.cons.injEq, and_true,
    decide_eq_true_eq] at facts answered
  rcases facts with ⟨sockets, idle, client, socket⟩
  rcases answered with ⟨waits, sends, heard, bytes⟩
  obtain ⟨handler, alone, names⟩ := List.map_eq_singleton_iff.mp sockets
  rw [Prod.mk.injEq] at names
  have here : last.process.handlers[0]? = some handler := by
    rw [alone]
    rfl
  have connected : Connected (last.seen 2) (server.conn 0).log := by
    rw [socket]
    constructor
    · refine ⟨[], ?_⟩
      rw [heard]
      decide +kernel
    · rw [bytes]
      simp
  simp only [reached, Option.map_some, alone, List.map_cons, List.map_nil, Option.some.injEq,
    List.cons.injEq, Prod.mk.injEq, and_true] at request
  rcases request with ⟨address, version⟩
  rcases proxied_get 3 proxiedTransfers last reached (Runs.steps_of_along Relay.step whole) 0
    handler here 1 2 names.1 names.2 idle cookieRequest (by rw [client]) (by decide +kernel)
    (by rw [socket]; exact List.cons_ne_nil _ _) Http.sampleConfig Http.sampleFiles originEvents
    server ran 0 waits sends finds small connected (by rw [socket]; simpa using fits) with
    ⟨target, date, parsed, -, response⟩
  have path := congrArg Target.path (Option.some.inj (parsed.symm.trans address))
  have body : ∀ date, (Http.answerTo Http.sampleFiles Http.sampleConfig.root.text date
      (plainGet Http.sampleConfig (ascii "f.html") (ascii "HTTP/1.1"))).body = [1, 2, 3] := by
    intro date
    rfl
  refine ⟨last, date, reached, ?_⟩
  rw [response, path, version, body]

end NetworkSystem.Proxy
