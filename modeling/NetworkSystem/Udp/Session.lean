import NetworkSystem.Udp.Replies

/-! A client and its server with a network between them that loses, repeats and reorders the
packets of a file, as one system: what a session does to the two directories is what copying
whole files does. -/

namespace NetworkSystem.Udp

open Bytes Store

/-- What the network makes of the packets that one side sends for a line: a message comes
through; behind it come packets of the file, in any order and any number, every one that has
data among them, and then the one that ends the file. -/
def Carried : List Bytes → List Bytes → Prop
  | [], delivered => delivered = []
  | [pkt], delivered => delivered = [pkt]
  | pkt :: rest, delivered => ∃ data, delivered = pkt :: (data ++ [dataLayout.eofPacket]) ∧
      (∀ other ∈ data, other ∈ rest ∧ dataLayout.eof other ≠ 1) ∧
      ∀ other ∈ rest, dataLayout.eof other ≠ 1 → dataLayout.dataLen other ≠ 0 → other ∈ data

structure Session where
  client : Client
  server : Server

/-- A line, and what arrives at the two sides because of it. -/
structure Exchange where
  cmdline : CString LINE_LEN_MAX
  toServer : List Datagram
  toClient : List Datagram

def Exchange.command (exchange : Exchange) : Command := Command.read (pieces exchange.cmdline)

/-- A received file is read by the name it was given, not by a longer path to it. -/
def Plain (name : Bytes) : Prop := 47 ∈ name → ¬ ascii ".received" <:+ name

/-- What a command has read is not a directory, which `send_file` never comes to the end of. -/
def Session.Regular (session : Session) : Command → Prop
  | .get name => Plain name ∧ ¬ session.server.disk.IsDir name
  | .put name => Plain name ∧ ¬ session.client.disk.IsDir name
  | _ => True

/-- The client takes the line and what arrives for it, and comes to `turn`. A listing is only
asked for when it fits the array of the server, and no directory is copied. -/
structure Session.Takes (session : Session) (exchange : Exchange) (turn : Turn) : Prop where
  turned : { session.client with inbox := session.client.inbox ++ exchange.toClient }.turn
    exchange.cmdline = some turn
  there : Carried ((turn.client.sent.drop session.client.sent.length).map Prod.snd)
    (exchange.toServer.map Datagram.bytes)
  back : Carried ((serverRun session.server exchange.toServer).2.map Prod.snd)
    (exchange.toClient.map Datagram.bytes)
  listed : exchange.command = .ls →
    (listDirInto LINE_LEN_MAX session.server.disk (ascii ".") 10).isSome = true
  regular : session.Regular exchange.command

def Session.behind (session : Session) (exchange : Exchange) (client : Client) : Session :=
  ⟨client, (serverRun session.server exchange.toServer).1⟩

/-- A session from line to line. -/
inductive Session.Goes : Session → List Exchange → Session → Prop where
  | done (session : Session) : Goes session [] session
  | line {session last : Session} {exchange : Exchange} {rest : List Exchange} {client : Client}
      (taken : session.Takes exchange (.prompt client))
      (later : Goes (session.behind exchange client) rest last) : Goes session (exchange :: rest) last

/-- The session has the files of the mirror. -/
structure Session.Shows (session : Session) (mirror : Mirror) : Prop where
  client : session.client.disk.files = mirror.client
  server : session.server.disk.files = mirror.server
  clientMay : session.client.disk.creatable = mirror.clientMay
  serverMay : session.server.disk.creatable = mirror.serverMay
  mode : session.server.mode = if mirror.running then .idle else .gone
  drained : session.client.inbox = []

/-! The network. -/

theorem Carried.head {pkt : Bytes} {rest delivered : List Bytes}
    (carried : Carried (pkt :: rest) delivered) : ∃ behind, delivered = pkt :: behind := by
  cases rest with
  | nil => exact ⟨[], carried⟩
  | cons next rest =>
      rcases carried with ⟨data, same, -⟩
      exact ⟨_, same⟩

theorem receiveFile_carried (source : FILE) (bound : source.content.length < 2 ^ 32)
    {pkt : Bytes} {delivered : List Datagram} (addr : Address)
    (carried : Carried (pkt :: (sendFile source).1) (pkt :: delivered.map Datagram.bytes)) :
    let result := receiveFile (FILE.opened []) addr delivered
    result.returned = true ∧ result.rest = [] ∧ result.fp.content = source.content := by
  have more : (sendFile source).1 ≠ [] := by
    rcases sendFile_sent source with ⟨blocks, -, -, sent⟩
    rw [sent]
    simp
  cases sent : (sendFile source).1 with
  | nil => exact absurd sent more
  | cons first rest =>
      rw [sent] at carried
      rcases carried with ⟨data, same, drawn, complete⟩
      rw [← sent] at drawn complete
      rw [List.cons.injEq, List.map_eq_append_iff] at same
      rcases same with ⟨-, front, back, rfl, rfl, ended⟩
      obtain ⟨last, rfl⟩ := List.length_eq_one_iff.mp (by
        have lengths := congrArg List.length ended
        rwa [List.length_map] at lengths)
      have isEof : last.bytes = dataLayout.eofPacket := List.singleton_inj.mp ended
      have facts := replay_of_drawn source bound drawn complete
      have whole : ∀ datagram ∈ front, datagram.bytes.length = PACKET_SIZE ∧
          dataLayout.eof datagram.bytes ≠ 1 :=
        fun datagram member => facts.1 _ (List.mem_map_of_mem member)
      rcases receiveFile_replay (FILE.opened []) addr front [] last rfl isEof whole with
        ⟨returned, left, content⟩
      exact ⟨returned, left, content.trans facts.2⟩

section takes

variable {session : Session} {exchange : Exchange} {turn : Turn}
  (takes : session.Takes exchange turn)

include takes

theorem Session.Takes.parse : ∃ argc argv,
    parseLine exchange.cmdline session.client.argv = some (argc, argv) := by
  have turned := takes.turned
  rw [Client.turn] at turned
  cases parsed : parseLine exchange.cmdline session.client.argv with
  | none =>
      simp only [parsed] at turned
      cases turned
  | some both => exact ⟨both.1, both.2, rfl⟩

theorem Session.Takes.turned_drained (drained : session.client.inbox = []) :
    { session.client with inbox := exchange.toClient }.turn exchange.cmdline = some turn := by
  rw [← takes.turned, drained, List.nil_append]

theorem Session.Takes.idle (drained : session.client.inbox = [])
    (nothing : exchange.command.asks session.client.disk session.client.msg = none) :
    ∃ argv, turn = .prompt { session.client with argv, inbox := [] } ∧
      (serverRun session.server exchange.toServer).1 = session.server := by
  obtain ⟨argc, argv, parsed⟩ := takes.parse
  have turned := takes.turned_drained drained
  rw [Client.turn_idle { session.client with inbox := exchange.toClient } parsed
    nothing, Option.some.injEq] at turned
  have there := takes.there
  have back := takes.back
  rw [← turned] at there
  simp only [Turn.client, List.drop_length, List.map_nil, Carried, List.map_eq_nil_iff] at there
  rw [there] at back
  simp only [serverRun, List.map_nil, Carried, List.map_eq_nil_iff] at back
  rw [back] at turned
  refine ⟨argv, turned.symm, ?_⟩
  rw [there]
  rfl

/-- A line with a request: the request arrives first at the server, and its reply first at
the client. -/
structure Session.Asks (session : Session) (exchange : Exchange) (turn : Turn) (asked : Request)
    (argv : Argv) (request reply : Datagram) (upload download : List Datagram) : Prop where
  toServer : exchange.toServer = request :: upload
  toClient : exchange.toClient = reply :: download
  carried : request.bytes = asked.packet argv exchange.cmdline
  answered : reply.bytes = (runCommand session.server.disk request.bytes).reply
  turn : turn = { session.client.asking argv exchange.cmdline asked with
    remote := reply.addr, inbox := download }.reply asked.fp reply.bytes

theorem Session.Takes.asks (drained : session.client.inbox = [])
    (idle : session.server.mode = .idle) {argc : Nat} {argv : Argv}
    (parsed : parseLine exchange.cmdline session.client.argv = some (argc, argv))
    {asked : Request}
    (something : exchange.command.asks session.client.disk session.client.msg = some asked) :
    ∃ request reply upload download,
      session.Asks exchange turn asked argv request reply upload download := by
  have turned := takes.turned_drained drained
  rw [Client.turn_asking { session.client with inbox := exchange.toClient } parsed
    something, Option.some.injEq] at turned
  -- the request is sent whatever comes
  have sent : ∃ more, turn.client.sent = session.client.sent ++
      (session.client.remote, asked.packet argv exchange.cmdline) :: more := by
    rw [← turned]
    cases exchange.toClient with
    | nil => exact ⟨[], rfl⟩
    | cons reply download =>
        rcases Client.reply_sent _ asked.fp (recvfrom (zeros PACKET_SIZE) reply.bytes) with
          ⟨more, grown⟩
        refine ⟨more, grown.trans ?_⟩
        simp only [Client.asking, List.append_assoc, List.singleton_append]
  rcases sent with ⟨more, sent⟩
  have there := takes.there
  rw [sent, List.drop_left, List.map_cons] at there
  rcases there.head with ⟨behind, arrived⟩
  obtain ⟨request, upload, toServer, same, -⟩ := List.map_eq_cons_iff.mp arrived
  have whole : request.bytes.length = PACKET_SIZE := by
    rw [same]
    exact asked.length_packet argv exchange.cmdline
  -- so the server answers
  rcases session with ⟨client, ⟨disk, mode⟩⟩
  simp only at idle
  subst idle
  rcases serverStep_head disk request.addr whole with ⟨file, answered⟩
  have back := takes.back
  rw [toServer, serverRun_cons, answered, List.cons_append, List.map_cons] at back
  rcases back.head with ⟨behind, came⟩
  obtain ⟨reply, download, toClient, response, -⟩ := List.map_eq_cons_iff.mp came
  change reply.bytes = (runCommand disk request.bytes).reply at response
  refine ⟨request, reply, upload, download, toServer, toClient, same, response, ?_⟩
  have size : reply.bytes.length = PACKET_SIZE := by
    rw [response]
    exact Verdict.length_reply _
  rw [← turned]
  simp only [toClient, recvfrom_whole _ size]
  rfl

section asks

variable {asked : Request} {argv : Argv} {request reply : Datagram}
  {upload download : List Datagram}
  (asks : session.Asks exchange turn asked argv request reply upload download)

include asks

theorem Session.Asks.upload_nil (quiet : turn.client.sent = session.client.sent ++
    [(session.client.remote, asked.packet argv exchange.cmdline)]) : upload = [] := by
  have there := takes.there
  rw [quiet, List.drop_left, asks.toServer] at there
  have single : (request :: upload).map Datagram.bytes =
      [asked.packet argv exchange.cmdline] := there
  rw [List.map_cons, List.cons.injEq, List.map_eq_nil_iff] at single
  exact single.2

theorem Session.Asks.download_nil
    (single : ∃ sent, (serverRun session.server exchange.toServer).2 = [sent]) :
    download = [] := by
  rcases single with ⟨sent, single⟩
  have back := takes.back
  rw [single, asks.toClient] at back
  have alone : (reply :: download).map Datagram.bytes = [sent.2] := back
  rw [List.map_cons, List.cons.injEq, List.map_eq_nil_iff] at alone
  exact alone.2

omit takes in
theorem Session.Asks.whole : request.bytes.length = PACKET_SIZE := by
  rw [asks.carried]
  exact asked.length_packet argv exchange.cmdline

omit takes in
theorem Session.Asks.msgType_request : msgType request.bytes = asked.cmdType := by
  rw [asks.carried]
  exact asked.msgType_packet argv exchange.cmdline

omit takes in
theorem Session.Asks.msgType_reply :
    msgType reply.bytes = (runCommand session.server.disk request.bytes).cmdType := by
  rw [asks.answered]
  exact Verdict.msgType_reply _

theorem Session.Asks.plain (idle : session.server.mode = .idle) (closed : asked.fp = none)
    (plain : asked.cmdType = CMD_LS ∨ asked.cmdType = CMD_EXIT ∨ asked.cmdType = CMD_UND) :
    ∃ client, turn = .prompt client ∧ client.disk = asked.disk ∧ client.inbox = [] ∧
      (serverRun session.server exchange.toServer).1 =
        ⟨session.server.disk, if asked.cmdType = CMD_EXIT then .gone else .idle⟩ := by
  have turned := asks.turn
  rw [closed, Client.reply_none] at turned
  have quiet := asks.upload_nil takes (by rw [turned]; rfl)
  have type := asks.msgType_request
  rw [← type] at plain
  have served := (serverStep_plain session.server.disk request.addr asks.whole plain).2
  have start : session.server = ⟨session.server.disk, .idle⟩ := by rw [← idle]
  have run : serverRun session.server exchange.toServer =
      (⟨session.server.disk, if asked.cmdType = CMD_EXIT then .gone else .idle⟩,
        [(request.addr, (runCommand session.server.disk request.bytes).reply)]) := by
    rw [asks.toServer, quiet, start, serverRun_cons, served, type]
    rfl
  have empty := asks.download_nil takes ⟨_, congrArg Prod.snd run⟩
  rw [empty] at turned
  exact ⟨_, turned, rfl, rfl, congrArg Prod.fst run⟩

theorem Session.Asks.refused (response : msgType reply.bytes = MSG_RESP)
    (served : serverStep session.server request =
      (session.server, [(request.addr, (runCommand session.server.disk request.bytes).reply)])) :
    ∃ client, turn = .prompt client ∧
      client.disk = ((session.client.asking argv exchange.cmdline asked).fclose asked.fp).disk ∧
      client.inbox = [] ∧ (serverRun session.server exchange.toServer).1 = session.server := by
  have turned := asks.turn
  rw [Client.reply_response _ _ response] at turned
  have quiet := asks.upload_nil takes (by
    rw [turned]
    rcases asked.fp with _ | ⟨path, fp⟩ | fp | _ <;> rfl)
  have run : serverRun session.server exchange.toServer =
      (session.server, [(request.addr, (runCommand session.server.disk request.bytes).reply)]) := by
    rw [asks.toServer, quiet, serverRun_cons, served]
    rfl
  have empty := asks.download_nil takes ⟨_, congrArg Prod.snd run⟩
  rw [empty] at turned
  refine ⟨_, turned, ?_, ?_, congrArg Prod.fst run⟩
  · rcases asked.fp with _ | ⟨path, fp⟩ | fp | _ <;> rfl
  · rcases asked.fp with _ | ⟨path, fp⟩ | fp | _ <;> rfl

theorem Session.Asks.fetches {path content : Bytes} (bound : content.length < 2 ^ 32)
    (opened : asked.fp = some (.writing path (FILE.opened [])))
    (start : msgType reply.bytes = GET_START)
    (served : serverStep session.server request =
      (session.server, (request.addr, (runCommand session.server.disk request.bytes).reply) ::
        (sendFile (FILE.opened content)).1.map (fun pkt => (request.addr, pkt)))) :
    ∃ client, turn = .prompt client ∧ client.disk = asked.disk.save path content ∧
      client.inbox = [] ∧ (serverRun session.server exchange.toServer).1 = session.server := by
  have turned := asks.turn
  rw [opened, Client.reply_download _ _ start, Client.receive] at turned
  have quiet := asks.upload_nil takes (by
    rw [turned]
    dsimp only
    split <;> rfl)
  have run : serverRun session.server exchange.toServer =
      (session.server, (request.addr, (runCommand session.server.disk request.bytes).reply) ::
        (sendFile (FILE.opened content)).1.map (fun pkt => (request.addr, pkt))) := by
    rw [asks.toServer, quiet, serverRun_cons, served]
    simp only [serverRun, List.append_nil]
  have back := takes.back
  have plain : (sendFile (FILE.opened content)).1.map (Prod.snd ∘ fun pkt => (request.addr, pkt)) =
      (sendFile (FILE.opened content)).1 := List.map_id _
  rw [run, asks.toClient, List.map_cons, List.map_map, plain, List.map_cons, asks.answered] at back
  rcases receiveFile_carried (FILE.opened content) bound reply.addr back with
    ⟨returned, rest, stored⟩
  simp only [returned, ↓reduceIte, rest] at turned
  refine ⟨_, turned, ?_, rfl, congrArg Prod.fst run⟩
  rw [Disk.close, stored]
  rfl

theorem Session.Asks.stores {path content : Bytes} (bound : content.length < 2 ^ 32)
    (opened : asked.fp = some (.reading (FILE.opened content)))
    (start : msgType reply.bytes = PUT_START)
    (served : serverStep session.server request =
      (⟨(session.server.disk.save path []).leave path (FILE.opened []),
        .receiving path (Receiver.start (FILE.opened []))⟩,
        [(request.addr, (runCommand session.server.disk request.bytes).reply)])) :
    ∃ client, turn = .prompt client ∧ client.disk = asked.disk ∧ client.inbox = [] ∧
      (serverRun session.server exchange.toServer).1 =
        ⟨session.server.disk.save path content, .idle⟩ := by
  have turned := asks.turn
  rw [opened, Client.reply_upload _ _ start, Client.send] at turned
  have there := takes.there
  have plain : ∀ remote : Address,
      (sendFile (FILE.opened content)).1.map (Prod.snd ∘ fun pkt => (remote, pkt)) =
        (sendFile (FILE.opened content)).1 := fun _ => List.map_id _
  rw [turned, asks.toServer] at there
  simp only [Turn.client, Client.asking, List.append_assoc, List.drop_left, List.map_map, plain,
    List.singleton_append, List.map_cons] at there
  rw [asks.carried] at there
  rcases receiveFile_carried (FILE.opened content) bound request.addr there with
    ⟨returned, rest, stored⟩
  have finish : serverRun ⟨(session.server.disk.save path []).leave path (FILE.opened []),
      .receiving path (Receiver.start (FILE.opened []))⟩ upload =
        (⟨session.server.disk.save path content, .idle⟩, []) := by
    rcases serverRun_receiving (session.server.disk.save path []) path
      (Receiver.start (FILE.opened [])) request.addr upload with ⟨-, run⟩ | ⟨waits, -⟩
    · simp only [receiveFile] at rest stored
      refine run.trans ?_
      rw [rest, Disk.close, stored, Disk.save_save]
      rfl
    · simp only [receiveFile] at returned
      rw [returned] at waits
      cases waits
  have run : serverRun session.server exchange.toServer =
      (⟨session.server.disk.save path content, .idle⟩,
        [(request.addr, (runCommand session.server.disk request.bytes).reply)]) := by
    rw [asks.toServer, serverRun_cons, served, finish]
    rfl
  have empty := asks.download_nil takes ⟨_, congrArg Prod.snd run⟩
  rw [empty] at turned
  exact ⟨_, turned, rfl, rfl, congrArg Prod.fst run⟩

end asks

end takes

theorem packet_name {cmdline : CString LINE_LEN_MAX} {before argv : Argv} {argc : Nat}
    (parsed : parseLine cmdline before = some (argc, argv)) {name : Bytes}
    (copies : Command.read (pieces cmdline) = .get name ∨ Command.read (pieces cmdline) = .put name)
    (type : UInt8) (fp : Option Stream) (disk : Disk) :
    msgText ((⟨type, some .argument, fp, disk⟩ : Request).packet argv cmdline) = name := by
  rcases name_mem copies with ⟨member, second, more⟩
  have counted := (take_pieces parsed).1
  have operand : argv.arg 1 = name := by
    rw [arg_eq parsed (by omega), second]
  rcases mem_pieces member with ⟨fits, clean⟩
  have small : name.length < 2 ^ 16 := Nat.lt_of_le_of_lt fits (by decide)
  have packet : (⟨type, some .argument, fp, disk⟩ : Request).packet argv cmdline =
      (⟨type, name, fits⟩ : Message).packet := by
    simp only [Request.packet, Option.map_some, MsgAt.text, operand, Nat.mod_eq_of_lt small]
    rfl
  rw [packet]
  exact Message.msgText_packet ⟨type, name, fits⟩ clean

theorem Session.Shows.idle {session : Session} {mirror : Mirror} (shows_ : session.Shows mirror)
    (running : mirror.running = true) : session.server.mode = .idle := by
  rw [shows_.mode, running]
  rfl

section running

variable {session : Session} {mirror : Mirror} {exchange : Exchange} {turn : Turn}
  (shows_ : session.Shows mirror) (running : mirror.running = true)
  (takes : session.Takes exchange turn)

include shows_ running takes

theorem step_plain {type : UInt8} {msg : Option MsgAt}
    (asked : exchange.command.asks session.client.disk session.client.msg =
      some ⟨type, msg, none, session.client.disk⟩)
    (plain : type = CMD_LS ∨ type = CMD_EXIT ∨ type = CMD_UND) :
    ∃ client, turn = .prompt client ∧ (session.behind exchange client).Shows
      (if type = CMD_EXIT then { mirror with running := false } else mirror) := by
  obtain ⟨argc, argv, parsed⟩ := takes.parse
  rcases takes.asks shows_.drained (shows_.idle running) parsed asked with
    ⟨request, reply, upload, download, asks⟩
  rcases asks.plain takes (shows_.idle running) rfl plain with
    ⟨client, turned, disk, inbox, served⟩
  refine ⟨client, turned, ?_⟩
  have kept : client.disk = session.client.disk := disk
  split_ifs with exit
  · rw [if_pos exit] at served
    constructor
    · rw [Session.behind, kept, shows_.client]
    · rw [Session.behind, served, shows_.server]
    · rw [Session.behind, kept, shows_.clientMay]
    · rw [Session.behind, served, shows_.serverMay]
    · rw [Session.behind, served]
      rfl
    · exact inbox
  · rw [if_neg exit] at served
    constructor
    · rw [Session.behind, kept, shows_.client]
    · rw [Session.behind, served, shows_.server]
    · rw [Session.behind, kept, shows_.clientMay]
    · rw [Session.behind, served, shows_.serverMay]
    · rw [Session.behind, served, running]
      rfl
    · exact inbox

omit running in
theorem step_idle (nothing : exchange.command.asks session.client.disk session.client.msg = none) :
    ∃ client, turn = .prompt client ∧ (session.behind exchange client).Shows mirror := by
  rcases takes.idle shows_.drained nothing with ⟨argv, turned, served⟩
  refine ⟨_, turned, ?_⟩
  constructor
  · exact shows_.client
  · rw [Session.behind, served, shows_.server]
  · exact shows_.clientMay
  · rw [Session.behind, served, shows_.serverMay]
  · rw [Session.behind, served, shows_.mode]
  · rfl

theorem step_get (small : mirror.Small) {name : Bytes} (command : exchange.command = .get name) :
    ∃ client, turn = .prompt client ∧
      (session.behind exchange client).Shows (mirror.download name) := by
  have regular := takes.regular
  rw [command, Session.Regular] at regular
  rw [Mirror.download]
  by_cases may : mirror.clientMay (setReceivedFilename name) = true
  · rw [if_pos may]
    have asked : exchange.command.asks session.client.disk session.client.msg =
        some ⟨CMD_GET, some .argument,
          some (.writing (setReceivedFilename name) (FILE.opened [])),
          session.client.disk.save (setReceivedFilename name) []⟩ := by
      rw [command, Command.asks, shows_.clientMay, if_pos may]
    obtain ⟨argc, argv, parsed⟩ := takes.parse
    rcases takes.asks shows_.drained (shows_.idle running) parsed asked with
      ⟨request, reply, upload, download, asks⟩
    have text : msgText request.bytes = name := by
      rw [asks.carried]
      exact packet_name parsed (Or.inl command) _ _ _
    have start : session.server = ⟨session.server.disk, .idle⟩ := by
      rw [← shows_.idle running]
    have got : ∃ client, turn = .prompt client ∧
        client.disk = session.client.disk.save (setReceivedFilename name)
          (mirror.offered name) ∧ client.inbox = [] ∧
        (serverRun session.server exchange.toServer).1 = session.server := by
      -- The client has emptied its file before it asks; without a file on the server it stays so.
      by_cases missing : name = [] ∨ session.server.disk.files name = none
      · have closed : name = [] ∨ session.server.disk.fopen name = none := by
          apply missing.imp_right
          intro absent
          exact Disk.fopen_eq_none.mpr ⟨absent, regular.2⟩
        have answered := serverStep_get_none session.server.disk request.addr asks.whole
          asks.msgType_request (by rw [text]; exact closed)
        rw [← start] at answered
        rcases asks.refused takes (asks.msgType_reply.trans answered.1) answered.2 with
          ⟨client, turned, disk, inbox, served⟩
        refine ⟨client, turned, ?_, inbox, served⟩
        have empty : mirror.offered name = [] := by
          rw [Mirror.offered, ← shows_.server]
          rcases missing with unnamed | absent
          · rw [if_pos unnamed]
          · rw [absent]
            split_ifs <;> rfl
        rw [disk, empty]
        exact Disk.save_save _ _ _ _
      · rw [not_or] at missing
        obtain ⟨content, there⟩ := Option.ne_none_iff_exists'.mp missing.2
        have bound := small.server name content (by rw [← shows_.server, there])
        have answered := serverStep_get session.server.disk request.addr asks.whole
          asks.msgType_request (by rw [text]; exact missing.1) (by rw [text]; exact there)
        rw [← start] at answered
        rcases asks.fetches takes bound rfl (asks.msgType_reply.trans answered.1) answered.2 with
          ⟨client, turned, disk, inbox, served⟩
        refine ⟨client, turned, ?_, inbox, served⟩
        have found : mirror.offered name = content := by
          rw [Mirror.offered, if_neg missing.1, ← shows_.server, there]
          rfl
        rw [disk, found]
        exact Disk.save_save _ _ _ _
    rcases got with ⟨client, turned, disk, inbox, served⟩
    refine ⟨client, turned, ?_⟩
    constructor
    · rw [Session.behind, disk, ← shows_.client]
      rfl
    · rw [Session.behind, served, shows_.server]
    · rw [Session.behind, disk, ← shows_.clientMay]
      rfl
    · rw [Session.behind, served, shows_.serverMay]
    · rw [Session.behind, served, shows_.mode]
    · exact inbox
  · rw [if_neg may]
    apply step_idle shows_ takes
    rw [command, Command.asks, shows_.clientMay, if_neg may]

theorem step_put (small : mirror.Small) {name : Bytes} (command : exchange.command = .put name) :
    ∃ client, turn = .prompt client ∧
      (session.behind exchange client).Shows (mirror.upload name) := by
  have regular := takes.regular
  rw [command, Session.Regular] at regular
  rw [Mirror.upload]
  -- Without the file nothing is sent, and both directories stay as they are.
  cases there : mirror.client name with
  | none =>
      apply step_idle shows_ takes
      rw [← shows_.client] at there
      rw [command, Command.asks, Stream.openRead, Disk.fopen_eq_none.mpr ⟨there, regular.2⟩]
      rfl
  | some content =>
      have asked : exchange.command.asks session.client.disk session.client.msg =
          some ⟨CMD_PUT, some .argument, some (.reading (FILE.opened content)),
            session.client.disk⟩ := by
        rw [← shows_.client] at there
        rw [command, Command.asks, Stream.openRead, Disk.fopen_of_file there]
        rfl
      obtain ⟨argc, argv, parsed⟩ := takes.parse
      rcases takes.asks shows_.drained (shows_.idle running) parsed asked with
        ⟨request, reply, upload, download, asks⟩
      have text : msgText request.bytes = name := by
        rw [asks.carried]
        exact packet_name parsed (Or.inr command) _ _ _
      have start : session.server = ⟨session.server.disk, .idle⟩ := by
        rw [← shows_.idle running]
      dsimp only
      by_cases taken : name ≠ [] ∧ mirror.serverMay (setReceivedFilename name) = true
      · rw [if_pos taken]
        have answered := serverStep_put session.server.disk request.addr asks.whole
          asks.msgType_request (by rw [text]; exact taken.1)
          (by rw [text, shows_.serverMay]; exact taken.2)
        rw [← start, text] at answered
        rcases asks.stores takes (small.client name content there) rfl
          (asks.msgType_reply.trans answered.1) answered.2 with
          ⟨client, turned, disk, inbox, served⟩
        refine ⟨client, turned, ?_⟩
        have kept : client.disk = session.client.disk := disk
        constructor
        · rw [Session.behind, kept, shows_.client]
        · rw [Session.behind, served, ← shows_.server]
          rfl
        · rw [Session.behind, kept, shows_.clientMay]
        · rw [Session.behind, served, ← shows_.serverMay]
          rfl
        · rw [Session.behind, served, running]
          rfl
        · exact inbox
      · rw [if_neg taken]
        have answered := serverStep_put_none session.server.disk request.addr asks.whole
          asks.msgType_request (by rw [text, shows_.serverMay]; exact taken)
        rw [← start] at answered
        rcases asks.refused takes (asks.msgType_reply.trans answered.1) answered.2 with
          ⟨client, turned, disk, inbox, served⟩
        refine ⟨client, turned, ?_⟩
        have kept : client.disk = session.client.disk := disk
        constructor
        · rw [Session.behind, kept, shows_.client]
        · rw [Session.behind, served, shows_.server]
        · rw [Session.behind, kept, shows_.clientMay]
        · rw [Session.behind, served, shows_.serverMay]
        · rw [Session.behind, served, shows_.mode]
        · exact inbox

/-- While the server runs, every line comes back to the prompt and has done to the files what
its command does. -/
theorem step_running (small : mirror.Small) :
    ∃ client, turn = .prompt client ∧
      (session.behind exchange client).Shows (mirror.apply exchange.command) := by
  cases command : exchange.command with
  | idle =>
      simp only [Mirror.apply, running, ↓reduceIte]
      exact step_idle shows_ takes (by rw [command]; rfl)
  | ls =>
      simp only [Mirror.apply, running, ↓reduceIte]
      exact step_plain shows_ running takes (by rw [command]; rfl) (Or.inl rfl)
  | exit =>
      simp only [Mirror.apply, running, ↓reduceIte]
      exact step_plain shows_ running takes (by rw [command]; rfl) (Or.inr (Or.inl rfl))
  | get name =>
      simp only [Mirror.apply, running, ↓reduceIte]
      exact step_get shows_ running takes small command
  | put name =>
      simp only [Mirror.apply, running, ↓reduceIte]
      exact step_put shows_ running takes small command
  | unknown =>
      simp only [Mirror.apply, running, ↓reduceIte]
      exact step_plain shows_ running takes (by rw [command]; rfl) (Or.inr (Or.inr rfl))

end running

/-- A server that has left answers nothing, and only lines that send nothing come back. -/
theorem step_gone {session : Session} {mirror : Mirror} {exchange : Exchange} {client : Client}
    (shows_ : session.Shows mirror) (left : mirror.running = false)
    (takes : session.Takes exchange (.prompt client)) :
    (session.behind exchange client).Shows mirror := by
  cases asked : exchange.command.asks session.client.disk session.client.msg with
  | none =>
      rcases step_idle shows_ takes asked with ⟨other, same, behind⟩
      rw [Turn.prompt.injEq] at same
      rw [same]
      exact behind
  | some request =>
      obtain ⟨argc, argv, parsed⟩ := takes.parse
      have turned := takes.turned_drained shows_.drained
      have gone : session.server = ⟨session.server.disk, .gone⟩ := by
        have mode := shows_.mode
        rw [left] at mode
        rw [← show session.server.mode = .gone from mode]
      have back := takes.back
      rw [gone, serverRun_gone, List.map_nil] at back
      have silent : exchange.toClient = [] := List.map_eq_nil_iff.mp back
      rw [Client.turn_asking { session.client with inbox := exchange.toClient } parsed
        asked, silent, Option.some.injEq] at turned
      cases turned

def Mirror.follow (mirror : Mirror) (exchanges : List Exchange) : Mirror :=
  exchanges.foldl (fun mirror exchange => mirror.apply exchange.command) mirror

/-- A line keeps the session and its mirror together. -/
theorem Session.Shows.line {session : Session} {mirror : Mirror} {exchange : Exchange}
    {client : Client} (shows_ : session.Shows mirror) (small : mirror.Small)
    (takes : session.Takes exchange (.prompt client)) :
    (session.behind exchange client).Shows (mirror.apply exchange.command) := by
  by_cases running : mirror.running = true
  · rcases step_running shows_ running takes small with ⟨other, same, behind⟩
    rw [Turn.prompt.injEq] at same
    rw [same]
    exact behind
  · rw [Bool.not_eq_true] at running
    have same : mirror.apply exchange.command = mirror := by
      simp only [Mirror.apply, running, Bool.false_eq_true, ↓reduceIte]
    rw [same]
    exact step_gone shows_ running takes

theorem Session.Goes.shows {session last : Session} {exchanges : List Exchange} {mirror : Mirror}
    (goes : session.Goes exchanges last) (shows_ : session.Shows mirror) (small : mirror.Small) :
    last.Shows (mirror.follow exchanges) ∧ (mirror.follow exchanges).Small := by
  induction goes generalizing mirror with
  | done session => exact ⟨shows_, small⟩
  | line takes later ih => exact ih (shows_.line small takes) (small.apply _)

end NetworkSystem.Udp
