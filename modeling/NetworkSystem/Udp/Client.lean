import NetworkSystem.Udp.CommandLine

/-! The UDP client: the loop of `main` over the lines of its user, and what its commands do
to the files of its directory. -/

namespace NetworkSystem.Udp

open Bytes

/-- Where `msg` points. -/
inductive MsgAt where
  | argument
  | line

/-- What a command asks for: `cmd_type`, `msg`, `fp`, and the directory behind `fopen`. -/
structure Request where
  cmdType : UInt8
  msg : Option MsgAt
  fp : Option Stream
  disk : Disk

/-- The `if` chain over `_argv[0]`; `none` for `continue`. `ls` and `exit` leave `msg` as an
earlier command has set it. -/
def request (disk : Disk) (msg : Option MsgAt) (argc : Nat) (argv : Argv) : Option Request :=
  if argc = 0 then none
  else if argv.arg 0 = ascii "exit" then some ⟨CMD_EXIT, msg, none, disk⟩
  else if argv.arg 0 = ascii "ls" then some ⟨CMD_LS, msg, none, disk⟩
  else if argv.arg 0 = ascii "get" then
    if argc > 1 then
      let filename := setReceivedFilename (argv.arg 1)
      match disk.fopenWrite filename with
      | some (fp, disk) => some ⟨CMD_GET, some .argument, some (.writing filename fp), disk⟩
      | none => none
    else none
  else if argv.arg 0 = ascii "put" then
    if argc > 1 then
      match Stream.openRead disk (argv.arg 1) with
      | some fp => some ⟨CMD_PUT, some .argument, some fp, disk⟩
      | none => none
    else none
  else some ⟨CMD_UND, some .line, none, disk⟩

/-- The string that `msg` points to. -/
def MsgAt.text (argv : Argv) (cmdline : CString LINE_LEN_MAX) : MsgAt → Bytes
  | argument => argv.arg 1
  | line => cmdline.text

/-- `outpkt` -/
def Request.packet (request : Request) (argv : Argv) (cmdline : CString LINE_LEN_MAX) : Bytes :=
  let msg := request.msg.map (MsgAt.text argv cmdline)
  let length := match msg with
    | none => 0
    | some msg => msg.length
  buildMsgPacket request.cmdType msg (length % 2 ^ 16)

/-- The client between two lines. `remote` is where its packets go. -/
structure Client where
  disk : Disk
  argv : Argv
  msg : Option MsgAt
  remote : Address
  sent : List (Address × Bytes)
  inbox : List Datagram

/-- Where a line leaves the client: back at the prompt, in a `recvfrom` that nothing comes
for, or in `send_file` for ever. -/
inductive Turn where
  | prompt (client : Client)
  | waits (client : Client)
  | sends (client : Client)

def Turn.client : Turn → Client
  | prompt client => client
  | waits client => client
  | sends client => client

namespace Client

/-- `fclose(fp)` when there is an `fp`. -/
def fclose (client : Client) : Option Stream → Client
  | some (.writing path fp) => { client with disk := client.disk.close path fp }
  | _ => client

/-- `receive_file`. On a stream that was opened for reading each `fwrite` fails, and what it
holds does not matter. -/
def receive (client : Client) (fp : Stream) : Turn :=
  match fp with
  | .writing path fp =>
      let received := receiveFile fp client.remote client.inbox
      let client := { client with remote := received.addr, inbox := received.rest }
      if received.returned then .prompt { client with disk := client.disk.close path received.fp }
      else .waits { client with disk := client.disk.leave path received.fp }
  | _ =>
      let received := receiveFile (FILE.opened []) client.remote client.inbox
      let client := { client with remote := received.addr, inbox := received.rest }
      if received.returned then .prompt client else .waits client

/-- `send_file`. On a directory or a stream that was opened for writing each `fread` fails, and
no read meets the end of the file. -/
def send (client : Client) (fp : Stream) : Turn :=
  match fp with
  | .reading fp =>
      .prompt { client with
        sent := client.sent ++ (sendFile fp).1.map (fun pkt => (client.remote, pkt)) }
  | _ => .sends client

def reply (client : Client) (fp : Option Stream) (mpkt : Bytes) : Turn :=
  if msgType mpkt = MSG_RESP then .prompt (client.fclose fp)
  else
    match fp with
    | none => .prompt client
    | some stream =>
        if msgType mpkt = GET_START then client.receive stream
        else if msgType mpkt = PUT_START then client.send stream
        else .prompt (client.fclose fp)

/-- One round of the loop, on the line that `fgets` reads; `none` where the line has more
words than `argv`. -/
def turn (client : Client) (cmdline : CString LINE_LEN_MAX) : Option Turn :=
  match parseLine cmdline client.argv with
  | none => none
  | some (argc, argv) =>
      let client := { client with argv }
      match request client.disk client.msg argc argv with
      | none => some (.prompt client)
      | some request =>
          let outpkt := request.packet argv cmdline
          let client := { client with
            disk := request.disk
            msg := request.msg
            sent := client.sent ++ [(client.remote, outpkt)] }
          match client.inbox with
          | [] => some (.waits client)
          | datagram :: rest =>
              let client := { client with remote := datagram.addr, inbox := rest }
              some (client.reply request.fp (recvfrom (zeros PACKET_SIZE) datagram.bytes))

/-- The loop on the lines of a session; behind the last one it asks for ever. -/
def session (client : Client) : List (CString LINE_LEN_MAX) → Option Turn
  | [] => some (.prompt client)
  | cmdline :: rest =>
      match client.turn cmdline with
      | some (.prompt client) => client.session rest
      | stopped => stopped

end Client

/-- The answer to the name of a file that the server does not have. -/
def cannotOpen : Message := ⟨MSG_RESP, ascii "server: get: Cannot open the file\n", by decide⟩

theorem answer_missing (disk : Disk) (addr : Address) (pkt : Bytes)
    (command : msgType pkt = CMD_GET) (named : (msgText pkt).length > 0)
    (missing : disk.fopen (msgText pkt) = none) :
    answer addr (runCommand disk pkt) = [(addr, cannotOpen.packet)] := by
  have apart : CMD_GET ≠ CMD_LS ∧ CMD_GET ≠ CMD_EXIT := by decide
  rw [runCommand, command, if_neg apart.1, if_neg apart.2, if_pos rfl, if_pos named,
    Stream.openRead, missing]
  rfl

theorem request_get (disk : Disk) (msg : Option MsgAt) (argc : Nat) (argv : Argv)
    (command : argv.arg 0 = ascii "get") (operand : 1 < argc) :
    request disk msg argc argv =
      if disk.creatable (setReceivedFilename (argv.arg 1)) = true then
        some ⟨CMD_GET, some .argument,
          some (.writing (setReceivedFilename (argv.arg 1)) (FILE.opened [])),
          disk.save (setReceivedFilename (argv.arg 1)) []⟩
      else none := by
  have other : ascii "get" ≠ ascii "exit" ∧ ascii "get" ≠ ascii "ls" := by decide
  rw [request, if_neg (by omega), command, if_neg other.1, if_neg other.2, if_pos rfl,
    if_pos operand]
  simp only [Disk.fopenWrite]
  split_ifs <;> rfl

theorem reply_failed (client : Client) (path mpkt : Bytes)
    (other : msgType mpkt ≠ GET_START) (emptied : client.disk.files path = some []) :
    (client.reply (some (.writing path (FILE.opened []))) mpkt).client.disk.files =
      client.disk.files := by
  have closed : (client.fclose (some (.writing path (FILE.opened [])))).disk.files =
      client.disk.files := by
    change Function.update client.disk.files path (some []) = client.disk.files
    rw [← emptied, Function.update_eq_self]
  rw [Client.reply]
  split_ifs with message put
  · exact closed
  · rfl
  · exact closed

/-- A get that fails leaves the directory alone exactly when it cannot create the file, or
the file was there and had nothing in it. -/
theorem get_failure_keeps_files_iff (client : Client) (cmdline : CString LINE_LEN_MAX)
    (argc : Nat) (argv : Argv) (datagram : Datagram) (rest : List Datagram)
    (parsed : parseLine cmdline client.argv = some (argc, argv))
    (command : argv.arg 0 = ascii "get") (operand : 1 < argc)
    (arrived : client.inbox = datagram :: rest)
    (other : msgType (recvfrom (zeros PACKET_SIZE) datagram.bytes) ≠ GET_START) :
    (∃ turn, client.turn cmdline = some turn ∧ turn.client.disk.files = client.disk.files) ↔
      client.disk.creatable (setReceivedFilename (argv.arg 1)) = false ∨
        client.disk.files (setReceivedFilename (argv.arg 1)) = some [] := by
  generalize destination : setReceivedFilename (argv.arg 1) = path
  have asked := request_get client.disk client.msg argc argv command operand
  rw [destination] at asked
  rw [Client.turn, parsed]
  simp only [asked]
  cases creatable : client.disk.creatable path with
  | false =>
      simp only [Bool.false_eq_true, ↓reduceIte, Option.some.injEq, exists_eq_left', true_or,
        iff_true]
      rfl
  | true =>
      simp only [↓reduceIte, arrived, Option.some.injEq, exists_eq_left', reduceCtorEq, false_or]
      rw [reply_failed _ path _ other (Disk.save_files_self _ _ _)]
      constructor
      · intro same
        rw [← same]
        exact Disk.save_files_self _ _ _
      · intro empty
        change Function.update client.disk.files path (some []) = client.disk.files
        rw [← empty, Function.update_eq_self]

/-- A client that has received a file before, asks for it again, and gets the answer of a
server that does not have it any more. -/
def fetched : Client where
  disk := { longNames with
    files := fun path => if path = ascii "f.received" then some (ascii "kept") else none }
  argv := emptyArgv
  msg := none
  remote := ⟨0, 0⟩
  sent := []
  inbox := [⟨⟨0, 0⟩, cannotOpen.packet⟩]

def getLine : CString LINE_LEN_MAX := ⟨ascii "get f\n", by decide, by decide⟩

def getMessage : Message := ⟨CMD_GET, ascii "f", by decide⟩

/-- `argv` behind that line. -/
def getArgv : Argv := ⟨ascii "get" :: ascii "f" :: List.replicate 14 [], by decide⟩

theorem get_failure_keeps_files_iff_missing :
    (∃ turn, fetched.turn getLine = some turn ∧
      turn.client.disk.files = fetched.disk.files) ↔
    fetched.disk.creatable (setReceivedFilename (getArgv.arg 1)) = false ∨
      fetched.disk.files (setReceivedFilename (getArgv.arg 1)) = some [] := by
  have message : msgType (recvfrom (zeros PACKET_SIZE) cannotOpen.packet) ≠ GET_START := by
    rw [recvfrom_whole _ cannotOpen.length_packet, cannotOpen.msgType_packet]
    decide
  exact get_failure_keeps_files_iff fetched getLine 2 getArgv ⟨⟨0, 0⟩, cannotOpen.packet⟩ []
    (by decide +kernel) (by decide) (by decide) rfl message

theorem get_missing_empties :
    (∀ disk : Disk, disk.fopen (ascii "f") = none →
      answer ⟨0, 0⟩ (runCommand disk getMessage.packet) = [(⟨0, 0⟩, cannotOpen.packet)]) ∧
    ∃ turn, fetched.turn getLine = some turn ∧
      turn.client.sent = [(⟨0, 0⟩, getMessage.packet)] ∧
      turn.client.disk.files ≠ fetched.disk.files := by
  have text : msgText getMessage.packet = ascii "f" := getMessage.msgText_packet (by decide)
  refine ⟨fun disk missing => ?_, ?_⟩
  · apply answer_missing disk _ _ getMessage.msgType_packet
    · rw [text]
      decide
    · rw [text]
      exact missing
  · have parsed : parseLine getLine fetched.argv = some (2, getArgv) := by decide +kernel
    have asked := request_get fetched.disk fetched.msg 2 getArgv (by decide) (by decide)
    have creatable : fetched.disk.creatable (setReceivedFilename (getArgv.arg 1)) = true := rfl
    rw [if_pos creatable] at asked
    have message : msgType cannotOpen.packet = MSG_RESP := cannotOpen.msgType_packet
    have inbox : fetched.inbox = [⟨⟨0, 0⟩, cannotOpen.packet⟩] := rfl
    rw [Client.turn, parsed]
    simp only [asked, inbox, recvfrom_whole _ cannotOpen.length_packet]
    refine ⟨_, rfl, ?_, ?_⟩
    · rw [Client.reply, if_pos message]
      rfl
    · rw [Client.reply, if_pos message]
      intro same
      have emptied := congrFun same (ascii "f.received")
      have left : fetched.disk.files (ascii "f.received") = some (ascii "kept") := by decide
      have destination : setReceivedFilename (getArgv.arg 1) = ascii "f.received" := by decide
      rw [left, ← destination] at emptied
      exact absurd ((Disk.save_files_self _ _ _).symm.trans emptied) (by decide)

end NetworkSystem.Udp
