import NetworkSystem.Udp.Session

/-! What the sessions of a client do. A network that loses nothing is one of their networks,
so that every line of the user can be taken. -/

namespace NetworkSystem.Udp

open Bytes Store

theorem carried_file (pkt : Bytes) (fp : FILE) :
    Carried (pkt :: (sendFile fp).1) (pkt :: (sendFile fp).1) := by
  rcases sendFile_sent fp with ⟨blocks, small, -, sent⟩
  have whole := dataLayout.dataPackets_whole none 0 blocks small
  generalize packets : (List.replicate 3 (dataLayout.dataPackets none 0 blocks)).flatten = data
    at sent
  have plain : ∀ other ∈ data, dataLayout.eof other ≠ 1 := by
    intro other member
    rw [← packets] at member
    obtain ⟨pass, repeated, inside⟩ := List.mem_flatten.mp member
    rw [List.eq_of_mem_replicate repeated] at inside
    exact (whole other inside).2
  rw [sent]
  have carried : ∃ front, pkt :: (data ++ [dataLayout.eofPacket]) =
      pkt :: (front ++ [dataLayout.eofPacket]) ∧
      (∀ other ∈ front, other ∈ data ++ [dataLayout.eofPacket] ∧ dataLayout.eof other ≠ 1) ∧
      ∀ other ∈ data ++ [dataLayout.eofPacket], dataLayout.eof other ≠ 1 →
        dataLayout.dataLen other ≠ 0 → other ∈ front := by
    refine ⟨data, rfl, ?_, ?_⟩
    · intro other member
      exact ⟨List.mem_append_left _ member, plain other member⟩
    · intro other member running _
      rcases List.mem_append.mp member with inside | ended
      · exact inside
      · rw [List.mem_singleton.mp ended] at running
        exact absurd dataLayout.eof_eofPacket running
  cases data with
  | nil => exact carried
  | cons first rest => exact carried

def datagrams (addr : Address) (packets : List Bytes) : List Datagram :=
  packets.map (fun pkt => ⟨addr, pkt⟩)

theorem bytes_datagrams (addr : Address) (packets : List Bytes) :
    (datagrams addr packets).map Datagram.bytes = packets := by
  rw [datagrams, List.map_map]
  exact List.map_id packets

section exists_

variable {session : Session} (drained : session.client.inbox = []) (cmdline : CString LINE_LEN_MAX)
  {argc : Nat} {argv : Argv} (parsed : parseLine cmdline session.client.argv = some (argc, argv))
  (listed : Command.read (pieces cmdline) = .ls →
    (listDirInto LINE_LEN_MAX session.server.disk (ascii ".") 10).isSome = true)
  (regular : session.Regular (Command.read (pieces cmdline)))

include drained parsed listed regular

theorem takes_of_answer {asked : Request} {addr : Address} {reply : Bytes} (file : List Bytes)
    (something : (Command.read (pieces cmdline)).asks session.client.disk session.client.msg =
      some asked)
    (served : (serverStep session.server ⟨addr, asked.packet argv cmdline⟩).2 =
      (addr, reply) :: file.map (fun pkt => (addr, pkt)))
    (carried : Carried (reply :: file) (reply :: file)) (size : reply.length = PACKET_SIZE)
    (quiet : ∀ client : Client, (client.reply asked.fp reply).client.sent = client.sent) :
    ∃ exchange turn, exchange.cmdline = cmdline ∧ session.Takes exchange turn := by
  let exchange : Exchange :=
    ⟨cmdline, [⟨addr, asked.packet argv cmdline⟩], datagrams addr (reply :: file)⟩
  let turn : Turn := { session.client.asking argv cmdline asked with
    remote := addr, inbox := datagrams addr file }.reply asked.fp reply
  refine ⟨exchange, turn, rfl, ?_, ?_, ?_, listed, regular⟩
  · have turned := Client.turn_asking
      { session.client with inbox := exchange.toClient } parsed something
    simp only [exchange, datagrams, List.map_cons, recvfrom_whole _ size] at turned
    rw [drained, List.nil_append]
    exact turned
  · simp only [turn, quiet, Client.asking, List.drop_left]
    rfl
  · have answered : (serverRun session.server exchange.toServer).2 =
        (addr, reply) :: file.map (fun pkt => (addr, pkt)) := by
      simp only [exchange, serverRun, served, List.append_nil]
    have plain : file.map (Prod.snd ∘ fun pkt => (addr, pkt)) = file := List.map_id _
    rw [answered, List.map_cons, List.map_map, plain]
    simp only [exchange, bytes_datagrams]
    exact carried

theorem takes_nothing
    (nothing : (Command.read (pieces cmdline)).asks session.client.disk session.client.msg = none) :
    ∃ exchange turn, exchange.cmdline = cmdline ∧ session.Takes exchange turn := by
  refine ⟨⟨cmdline, [], []⟩, .prompt { session.client with argv, inbox := [] }, rfl, ?_, ?_, rfl,
    listed, regular⟩
  · rw [drained]
    exact Client.turn_idle { session.client with inbox := [] } parsed nothing
  · simp only [Turn.client, List.drop_length]
    rfl

theorem takes_of_upload {content : Bytes} (bound : content.length < 2 ^ 32) {asked : Request}
    (something : (Command.read (pieces cmdline)).asks session.client.disk session.client.msg =
      some asked) (opened : asked.fp = some (.reading (FILE.opened content))) {path reply : Bytes}
    {addr : Address} {disk : Disk} (served : serverStep session.server
      ⟨addr, asked.packet argv cmdline⟩ =
        (⟨disk.leave path (FILE.opened []), .receiving path (Receiver.start (FILE.opened []))⟩,
          [(addr, reply)])) (start : msgType reply = PUT_START) (size : reply.length = PACKET_SIZE) :
    ∃ exchange turn, exchange.cmdline = cmdline ∧ session.Takes exchange turn := by
  let upload := datagrams addr (sendFile (FILE.opened content)).1
  let exchange : Exchange :=
    ⟨cmdline, ⟨addr, asked.packet argv cmdline⟩ :: upload, [⟨addr, reply⟩]⟩
  let asking : Client := { session.client.asking argv cmdline asked with
    remote := addr, inbox := [] }
  have turned := Client.turn_asking
    { session.client with inbox := exchange.toClient } parsed something
  simp only [exchange, recvfrom_whole _ size, opened, Client.reply_upload _ _ start,
    Client.send] at turned
  have plain : ∀ remote : Address,
      (sendFile (FILE.opened content)).1.map (Prod.snd ∘ fun pkt => (remote, pkt)) =
        (sendFile (FILE.opened content)).1 := fun _ => List.map_id _
  refine ⟨exchange, .prompt { asking with
    sent := asking.sent ++ (sendFile (FILE.opened content)).1.map (fun pkt => (addr, pkt)) },
    rfl, ?_, ?_, ?_, listed, regular⟩
  · rw [drained, List.nil_append]
    exact turned
  · simp only [Turn.client, asking, Client.asking, List.append_assoc, List.drop_left,
      List.map_cons, List.singleton_append, List.map_map, plain, exchange, upload,
      bytes_datagrams]
    exact carried_file _ _
  · have carried := carried_file (asked.packet argv cmdline) (FILE.opened content)
    have arrived : (sendFile (FILE.opened content)).1 = upload.map Datagram.bytes :=
      (bytes_datagrams addr _).symm
    nth_rewrite 2 [arrived] at carried
    rcases receiveFile_carried (FILE.opened content) bound addr carried with
      ⟨returned, rest, -⟩
    simp only [exchange, serverRun_cons, served]
    rcases serverRun_receiving disk path (Receiver.start (FILE.opened [])) addr upload with
        ⟨-, run⟩ | ⟨waits, -⟩
    · simp only [receiveFile] at rest
      have quiet := congrArg Prod.snd run
      rw [rest] at quiet
      simp only [Receiver.start] at quiet ⊢
      rw [quiet]
      rfl
    · simp only [receiveFile] at returned
      rw [returned] at waits
      cases waits

section idle

variable (idle : session.server.mode = .idle)

include idle

omit drained parsed listed regular in
theorem server_idle : session.server = ⟨session.server.disk, .idle⟩ := by rw [← idle]

theorem takes_refused {asked : Request} (addr : Address)
    (something : (Command.read (pieces cmdline)).asks session.client.disk session.client.msg =
      some asked) (closes : ∀ client : Client, (client.fclose asked.fp).sent = client.sent)
    (response : (runCommand session.server.disk (asked.packet argv cmdline)).cmdType = MSG_RESP)
    {last : Server} (served : serverStep ⟨session.server.disk, .idle⟩
      ⟨addr, asked.packet argv cmdline⟩ =
        (last, [(addr, (runCommand session.server.disk (asked.packet argv cmdline)).reply)])) :
    ∃ exchange turn, exchange.cmdline = cmdline ∧ session.Takes exchange turn := by
  rw [← server_idle idle] at served
  apply takes_of_answer drained cmdline parsed listed regular [] something
    (congrArg Prod.snd served) rfl (Verdict.length_reply _)
  intro client
  rw [Client.reply_response client asked.fp ((Verdict.msgType_reply _).trans response)]
  exact closes client

theorem takes_plain {type : UInt8} {msg : Option MsgAt}
    (something : (Command.read (pieces cmdline)).asks session.client.disk session.client.msg =
      some ⟨type, msg, none, session.client.disk⟩)
    (plain : type = CMD_LS ∨ type = CMD_EXIT ∨ type = CMD_UND) :
    ∃ exchange turn, exchange.cmdline = cmdline ∧ session.Takes exchange turn := by
  let asked : Request := ⟨type, msg, none, session.client.disk⟩
  have answered := serverStep_plain session.server.disk ⟨0, 0⟩ (asked.length_packet argv cmdline)
    (by rw [asked.msgType_packet]; exact plain)
  exact takes_refused drained cmdline parsed listed regular idle _ something (fun _ => rfl) answered.1
    answered.2

theorem takes_get {name : Bytes} (command : Command.read (pieces cmdline) = .get name) :
    ∃ exchange turn, exchange.cmdline = cmdline ∧ session.Takes exchange turn := by
  by_cases may : session.client.disk.creatable (setReceivedFilename name) = true
  · let asked : Request := ⟨CMD_GET, some .argument,
      some (.writing (setReceivedFilename name) (FILE.opened [])),
      session.client.disk.save (setReceivedFilename name) []⟩
    have something : (Command.read (pieces cmdline)).asks session.client.disk
        session.client.msg = some asked := by
      rw [command, Command.asks, if_pos may]
    have text : msgText (asked.packet argv cmdline) = name :=
      packet_name parsed (Or.inl command) _ _ _
    have type := asked.msgType_packet argv cmdline
    have whole := asked.length_packet argv cmdline
    by_cases missing : name = [] ∨ session.server.disk.files name = none
    · have closed : name = [] ∨ session.server.disk.fopen name = none := by
        apply missing.imp_right
        intro absent
        rw [command] at regular
        exact Disk.fopen_eq_none.mpr ⟨absent, regular.2⟩
      have answered := serverStep_get_none session.server.disk ⟨0, 0⟩ whole type
        (by rw [text]; exact closed)
      exact takes_refused drained cmdline parsed listed regular idle _ something (fun _ => rfl)
        answered.1 answered.2
    · rw [not_or] at missing
      obtain ⟨content, there⟩ := Option.ne_none_iff_exists'.mp missing.2
      have answered := serverStep_get session.server.disk ⟨0, 0⟩ whole type
        (by rw [text]; exact missing.1) (by rw [text]; exact there)
      rw [← server_idle idle] at answered
      apply takes_of_answer drained cmdline parsed listed regular _ something
        (congrArg Prod.snd answered.2) (carried_file _ _) (Verdict.length_reply _)
      intro client
      rw [Client.reply_download client _ ((Verdict.msgType_reply _).trans answered.1),
        Client.receive]
      dsimp only
      split <;> rfl
  · apply takes_nothing drained cmdline parsed listed regular
    rw [command, Command.asks, if_neg may]

theorem takes_put (small : Addressable session.client.disk.files) {name : Bytes}
    (command : Command.read (pieces cmdline) = .put name) :
    ∃ exchange turn, exchange.cmdline = cmdline ∧ session.Takes exchange turn := by
  cases there : session.client.disk.files name with
  | none =>
      apply takes_nothing drained cmdline parsed listed regular
      rw [command] at regular
      rw [command, Command.asks, Stream.openRead, Disk.fopen_eq_none.mpr ⟨there, regular.2⟩]
      rfl
  | some content =>
      let asked : Request := ⟨CMD_PUT, some .argument,
        some (.reading (FILE.opened content)), session.client.disk⟩
      have something : (Command.read (pieces cmdline)).asks session.client.disk
          session.client.msg = some asked := by
        rw [command, Command.asks, Stream.openRead, Disk.fopen_of_file there]
        rfl
      have text : msgText (asked.packet argv cmdline) = name :=
        packet_name parsed (Or.inr command) _ _ _
      have type := asked.msgType_packet argv cmdline
      have whole := asked.length_packet argv cmdline
      by_cases taken : name ≠ [] ∧
          session.server.disk.creatable (setReceivedFilename name) = true
      · have answered := serverStep_put session.server.disk ⟨0, 0⟩ whole type
          (by rw [text]; exact taken.1) (by rw [text]; exact taken.2)
        rw [← server_idle idle] at answered
        exact takes_of_upload drained cmdline parsed listed regular (small name content there) something
          rfl answered.2 ((Verdict.msgType_reply _).trans answered.1) (Verdict.length_reply _)
      · have answered := serverStep_put_none session.server.disk ⟨0, 0⟩ whole type
          (by rw [text]; exact taken)
        exact takes_refused drained cmdline parsed listed regular idle _ something (fun _ => rfl)
          answered.1 answered.2

end idle

end exists_

/-- As long as the server runs there is something to come for every line that `strip` can take,
whose words and listing fit, and that copies no directory. -/
theorem line_takes {session : Session} {mirror : Mirror} (shows_ : session.Shows mirror)
    (running : mirror.running = true) (small : mirror.Small) (cmdline : CString LINE_LEN_MAX)
    (apart : Apart cmdline.text) (fits : (inner cmdline.text).count 32 < ARG_MAX)
    (listed : Command.read (pieces cmdline) = .ls →
      (listDirInto LINE_LEN_MAX session.server.disk (ascii ".") 10).isSome = true)
    (regular : session.Regular (Command.read (pieces cmdline))) :
    ∃ exchange turn, exchange.cmdline = cmdline ∧ session.Takes exchange turn := by
  obtain ⟨⟨argc, argv⟩, parsed⟩ :=
    Option.isSome_iff_exists.mp
      ((parseLine_isSome_iff cmdline session.client.argv).mpr ⟨apart, fits⟩)
  have drained := shows_.drained
  have idle := shows_.idle running
  cases command : Command.read (pieces cmdline) with
  | idle => exact takes_nothing drained cmdline parsed listed regular (by rw [command]; rfl)
  | ls => exact takes_plain drained cmdline parsed listed regular idle (by rw [command]; rfl) (Or.inl rfl)
  | exit =>
      exact takes_plain drained cmdline parsed listed regular idle (by rw [command]; rfl)
        (Or.inr (Or.inl rfl))
  | get name => exact takes_get drained cmdline parsed listed regular idle command
  | put name =>
      exact takes_put drained cmdline parsed listed regular idle (shows_.client ▸ small.client) command
  | unknown =>
      exact takes_plain drained cmdline parsed listed regular idle (by rw [command]; rfl)
        (Or.inr (Or.inr rfl))

/-- Over a network that loses, repeats and reorders the packets of the files, a session does to
the two directories what its commands say; as long as the server runs no line waits, and every
line that `strip` can take, whose words and listing fit and that copies no directory, can be
taken. -/
theorem session_mirrors {session last : Session} {exchanges : List Exchange} {mirror : Mirror}
    (goes : session.Goes exchanges last) (shows_ : session.Shows mirror) (small : mirror.Small) :
    last.Shows (mirror.follow exchanges) ∧
      ((mirror.follow exchanges).running = true →
        (∀ exchange turn, last.Takes exchange turn → ∃ client, turn = .prompt client) ∧
        ∀ cmdline : CString LINE_LEN_MAX, Apart cmdline.text →
          (inner cmdline.text).count 32 < ARG_MAX →
          (Command.read (pieces cmdline) = .ls →
            (listDirInto LINE_LEN_MAX last.server.disk (ascii ".") 10).isSome = true) →
          last.Regular (Command.read (pieces cmdline)) →
          ∃ exchange turn, exchange.cmdline = cmdline ∧ last.Takes exchange turn) := by
  rcases goes.shows shows_ small with ⟨ends, still⟩
  refine ⟨ends, ?_⟩
  intro running
  constructor
  · intro exchange turn takes
    rcases step_running ends running takes still with ⟨client, turned, -⟩
    exact ⟨client, turned⟩
  · intro cmdline apart fits listed regular
    exact line_takes ends running still cmdline apart fits listed regular

def emptyDisk : Disk := { longNames with files := fun _ => none, readdir := fun _ _ => none }

/-- The client has a file `f` of three bytes. -/
def putSession : Session where
  client := ⟨emptyDisk.save (ascii "f") [1, 2, 3], emptyArgv, none, ⟨0, 0⟩, [], []⟩
  server := ⟨emptyDisk, .idle⟩

def putMirror : Mirror where
  client := Function.update (fun _ => none) (ascii "f") (some [1, 2, 3])
  server _ := none
  clientMay _ := true
  serverMay _ := true
  running := true

theorem putMirror_small : putMirror.Small := by
  have nothing : Addressable (fun _ => none) := fun _ _ found => by cases found
  exact ⟨nothing.update _ (by decide), nothing⟩

theorem putSession_shows : putSession.Shows putMirror := ⟨rfl, rfl, rfl, rfl, rfl, rfl⟩

def putLine : CString LINE_LEN_MAX := ⟨ascii "put f\n", by decide, by decide⟩

theorem session_mirrors_put :
    ∃ exchange last, exchange.cmdline = putLine ∧ putSession.Goes [exchange] last ∧
      last.server.disk.files (ascii "f.received") = some [1, 2, 3] := by
  have few : (inner putLine.text).count 32 < ARG_MAX := by decide +kernel
  have command : Command.read (pieces putLine) = .put (ascii "f") := by
    have found : pieces putLine = [ascii "put", ascii "f"] := by decide +kernel
    rw [found]
    rfl
  have regular : putSession.Regular (Command.read (pieces putLine)) := by
    rw [command]
    constructor
    · intro slash
      exact absurd slash (by decide)
    · intro isDir
      cases isDir.2
  rcases line_takes putSession_shows rfl putMirror_small putLine (by decide +kernel) few
    (fun ls => by rw [command] at ls; cases ls) regular with ⟨exchange, turn, same, takes⟩
  rcases step_running putSession_shows rfl takes putMirror_small with ⟨client, rfl, -⟩
  have goes := Session.Goes.line takes (Session.Goes.done _)
  have ends := (session_mirrors goes putSession_shows putMirror_small).1
  refine ⟨exchange, _, same, goes, ?_⟩
  have put : exchange.command = .put (ascii "f") := by
    rw [Exchange.command, same, command]
  rw [ends.server, Mirror.follow, List.foldl_cons, List.foldl_nil, put]
  rfl

end NetworkSystem.Udp
