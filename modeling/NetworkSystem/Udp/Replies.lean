import NetworkSystem.Udp.Client
import NetworkSystem.Udp.Mirror

/-! The two ends of one line of a session: what the client asks for, what the server answers,
and what the client does with the reply. -/

namespace NetworkSystem.Udp

open Bytes Store

/-- The words that `parse_line` stores. -/
def pieces (cmdline : CString LINE_LEN_MAX) : List Bytes :=
  if inner cmdline.text = [] then [] else (inner cmdline.text).splitOn 32

/-- The `if` chain of `main` by the command. -/
def Command.asks (disk : Disk) (msg : Option MsgAt) : Command → Option Request
  | .idle => none
  | .ls => some ⟨CMD_LS, msg, none, disk⟩
  | .exit => some ⟨CMD_EXIT, msg, none, disk⟩
  | .get name =>
      if disk.creatable (setReceivedFilename name) then
        some ⟨CMD_GET, some .argument,
          some (.writing (setReceivedFilename name) (FILE.opened [])),
          disk.save (setReceivedFilename name) []⟩
      else none
  | .put name =>
      (Stream.openRead disk name).map (fun fp => ⟨CMD_PUT, some .argument, some fp, disk⟩)
  | .unknown => some ⟨CMD_UND, some .line, none, disk⟩

section line

variable {cmdline : CString LINE_LEN_MAX} {argv after : Argv} {argc : Nat}
  (parsed : parseLine cmdline argv = some (argc, after))

include parsed

theorem apart_of_parsed : Apart cmdline.text := by
  by_contra overlaps
  rw [parseLine_of_overlap cmdline argv overlaps] at parsed
  cases parsed

theorem take_pieces :
    argc = (pieces cmdline).length ∧ after.args.take argc = pieces cmdline := by
  have apart := apart_of_parsed parsed
  rw [pieces]
  by_cases empty : inner cmdline.text = []
  · rw [parseLine_of_empty cmdline argv apart empty, Option.some.injEq, Prod.mk.injEq] at parsed
    rw [if_pos empty, ← parsed.1]
    exact ⟨rfl, rfl⟩
  · rw [parseLine_of_full cmdline argv apart empty] at parsed
    have counted := storeArgs_eq_some (Nat.zero_le _) parsed
    rw [if_neg empty]
    constructor
    · rw [counted.1, Nat.zero_add]
    · rw [counted.2.2, List.take_zero, List.nil_append]

theorem arg_eq {i : Nat} (inside : i < argc) : after.arg i = (pieces cmdline).getD i [] := by
  rw [← (take_pieces parsed).2, Argv.arg]
  simp only [List.getD_eq_getElem?_getD, List.getElem?_take, inside, ↓reduceIte]

theorem request_eq (disk : Disk) (msg : Option MsgAt) :
    request disk msg argc after = (Command.read (pieces cmdline)).asks disk msg := by
  have count := (take_pieces parsed).1
  have args := fun i inside => arg_eq parsed (i := i) inside
  generalize pieces cmdline = found at count args ⊢
  rw [request, Command.read.eq_def]
  cases found with
  | nil =>
      rw [List.length_nil] at count
      rw [if_pos count]
      rfl
  | cons word operands =>
      rw [List.length_cons] at count
      have first := args 0 (by omega)
      rw [List.getD_cons_zero] at first
      rw [if_neg (by omega), first]
      dsimp only
      cases operands with
      | nil =>
          have single : ¬ argc > 1 := by
            rw [List.length_nil] at count
            omega
          simp only [if_neg single]
          split_ifs <;> rfl
      | cons name rest =>
          rw [List.length_cons] at count
          have second := args 1 (by omega)
          have more : argc > 1 := by omega
          rw [List.getD_cons_succ, List.getD_cons_zero] at second
          simp only [if_pos more, second]
          split_ifs
          · rfl
          · rfl
          · simp only [Disk.fopenWrite, Command.asks]
            split_ifs <;> rfl
          · simp only [Command.asks]
            cases Stream.openRead disk name <;> rfl
          · rfl

end line

theorem mem_pieces {cmdline : CString LINE_LEN_MAX} {p : Bytes} (member : p ∈ pieces cmdline) :
    p.length ≤ MSG_SIZE_MAX ∧ 0 ∉ p := by
  rw [pieces] at member
  split_ifs at member
  · cases member
  · constructor
    · exact Nat.le_of_lt (length_piece cmdline p member)
    · intro zero
      rw [List.splitOn_eq_splitOnP] at member
      have inside := (Fields.mem_piece _ _ p member).2 0 zero
      have stripped : 0 ∈ (removeEndl cmdline.text).dropWhile (· = 32) :=
        (List.rdropWhile_prefix _ _).subset inside
      have ended : 0 ∈ removeEndl cmdline.text := (List.dropWhile_sublist _).subset stripped
      apply cmdline.clean
      rw [removeEndl] at ended
      split_ifs at ended
      · exact (List.dropLast_prefix _).subset ended
      · exact ended

theorem name_mem {found : List Bytes} {name : Bytes}
    (copies : Command.read found = .get name ∨ Command.read found = .put name) :
    name ∈ found ∧ found.getD 1 [] = name ∧ 1 < found.length := by
  cases found with
  | nil => rcases copies with none_ | none_ <;> cases none_
  | cons word operands =>
      cases operands with
      | nil =>
          simp only [Command.read] at copies
          split_ifs at copies <;> rcases copies with none_ | none_ <;> cases none_
      | cons name' rest =>
          have same : name' = name := by
            simp only [Command.read] at copies
            split_ifs at copies <;> rcases copies with other | other <;> cases other <;> rfl
          subst same
          refine ⟨List.mem_cons_of_mem _ List.mem_cons_self, rfl, ?_⟩
          rw [List.length_cons, List.length_cons]
          omega

theorem length_buildMsgPacket (type : UInt8) (msg : Option Bytes) (msgLen : Nat) :
    (buildMsgPacket type msg msgLen).length = PACKET_SIZE := by
  have start : (zeros PACKET_SIZE).length = PACKET_SIZE := List.length_replicate
  have typed := length_le_store (0 : UInt8) (zeros PACKET_SIZE) 1 [MSG_TYPE]
  have named := length_le_store (0 : UInt8) (store 0 (zeros PACKET_SIZE) 1 [MSG_TYPE]) 3 [type]
  rw [buildMsgPacket.eq_def, List.length_take, Nat.min_eq_left]
  cases msg with
  | none =>
      dsimp only
      omega
  | some msg =>
      dsimp only
      have counted := length_le_store (0 : UInt8)
        (store 0 (store 0 (zeros PACKET_SIZE) 1 [MSG_TYPE]) 3 [type]) 4 (putLE 2 msgLen)
      have whole := length_le_store (0 : UInt8)
        (store 0 (store 0 (store 0 (zeros PACKET_SIZE) 1 [MSG_TYPE]) 3 [type]) 4
          (putLE 2 msgLen)) 6 (msg.take msgLen)
      omega

theorem msgType_buildMsgPacket (type : UInt8) (msg : Option Bytes) (msgLen : Nat) :
    msgType (buildMsgPacket type msg msgLen) = type := by
  have inside : 3 < PACKET_SIZE := by decide
  rw [msgType, buildMsgPacket.eq_def, getD_take (0 : UInt8) _ _ _ inside]
  cases msg <;> simp only [getD_store] <;> simp

def Verdict.reply (verdict : Verdict) : Bytes :=
  buildMsgPacket verdict.cmdType (some verdict.msg) (verdict.msg.length % 2 ^ 16)

theorem answer_head (addr : Address) (verdict : Verdict) :
    ∃ file, answer addr verdict = (addr, verdict.reply) :: file := by
  rw [answer]
  rcases verdict.fp with _ | ⟨path, fp⟩ | fp | _
  · exact ⟨[], rfl⟩
  · exact ⟨[], rfl⟩
  · dsimp only
    split_ifs
    · exact ⟨_, rfl⟩
    · exact ⟨[], rfl⟩
  · exact ⟨[], rfl⟩

theorem Request.length_packet (asked : Request) (argv : Argv) (cmdline : CString LINE_LEN_MAX) :
    (asked.packet argv cmdline).length = PACKET_SIZE := length_buildMsgPacket _ _ _

theorem Request.msgType_packet (asked : Request) (argv : Argv) (cmdline : CString LINE_LEN_MAX) :
    msgType (asked.packet argv cmdline) = asked.cmdType := msgType_buildMsgPacket _ _ _

theorem Verdict.length_reply (verdict : Verdict) : verdict.reply.length = PACKET_SIZE :=
  length_buildMsgPacket _ _ _

theorem Verdict.msgType_reply (verdict : Verdict) : msgType verdict.reply = verdict.cmdType :=
  msgType_buildMsgPacket _ _ _

theorem serverRun_cons (server : Server) (datagram : Datagram) (rest : List Datagram) :
    serverRun server (datagram :: rest) =
      ((serverRun (serverStep server datagram).1 rest).1,
        (serverStep server datagram).2 ++ (serverRun (serverStep server datagram).1 rest).2) := rfl

section idle

variable (disk : Disk) {pkt : Bytes} (addr : Address) (whole : pkt.length = PACKET_SIZE)

include whole

theorem serverStep_head :
    ∃ file, (serverStep ⟨disk, .idle⟩ ⟨addr, pkt⟩).2 =
      (addr, (runCommand disk pkt).reply) :: file := by
  simp only [serverStep, recvfrom_whole pkt whole]
  cases upload (runCommand disk pkt) with
  | none => exact answer_head addr _
  | some opened => exact answer_head addr _

theorem serverStep_plain
    (plain : msgType pkt = CMD_LS ∨ msgType pkt = CMD_EXIT ∨ msgType pkt = CMD_UND) :
    (runCommand disk pkt).cmdType = MSG_RESP ∧
      serverStep ⟨disk, .idle⟩ ⟨addr, pkt⟩ =
        (⟨disk, if msgType pkt = CMD_EXIT then .gone else .idle⟩,
          [(addr, (runCommand disk pkt).reply)]) := by
  simp only [serverStep, recvfrom_whole pkt whole]
  rcases plain with type | type | type
  · simp only [runCommand, type]
    exact ⟨rfl, rfl⟩
  · simp only [runCommand, type]
    exact ⟨rfl, rfl⟩
  · simp only [runCommand, type]
    exact ⟨rfl, rfl⟩

theorem serverStep_get (type : msgType pkt = CMD_GET) {content : Bytes}
    (named : msgText pkt ≠ []) (there : disk.files (msgText pkt) = some content) :
    (runCommand disk pkt).cmdType = GET_START ∧
      serverStep ⟨disk, .idle⟩ ⟨addr, pkt⟩ =
        (⟨disk, .idle⟩, (addr, (runCommand disk pkt).reply) ::
          (sendFile (FILE.opened content)).1.map (fun pkt => (addr, pkt))) := by
  have positive : (msgText pkt).length > 0 := List.length_pos_iff.mpr named
  have command : runCommand disk pkt =
      ⟨GET_START, [], some (.reading (FILE.opened content)), disk, false⟩ := by
    simp only [runCommand, type, positive, Stream.openRead, Disk.fopen_of_file there, ↓reduceIte]
    rfl
  simp only [serverStep, recvfrom_whole pkt whole, command]
  exact ⟨trivial, rfl⟩

theorem serverStep_get_none (type : msgType pkt = CMD_GET)
    (missing : msgText pkt = [] ∨ disk.fopen (msgText pkt) = none) :
    (runCommand disk pkt).cmdType = MSG_RESP ∧
      serverStep ⟨disk, .idle⟩ ⟨addr, pkt⟩ =
        (⟨disk, .idle⟩, [(addr, (runCommand disk pkt).reply)]) := by
  have apart : CMD_GET ≠ CMD_LS ∧ CMD_GET ≠ CMD_EXIT := by decide
  have command : ∃ msg, runCommand disk pkt = ⟨MSG_RESP, msg, none, disk, false⟩ := by
    rw [runCommand, type, if_neg apart.1, if_neg apart.2, if_pos rfl]
    by_cases positive : (msgText pkt).length > 0
    · have named : msgText pkt ≠ [] := List.length_pos_iff.mp positive
      rw [if_pos positive, Stream.openRead, missing.resolve_left named]
      exact ⟨_, rfl⟩
    · rw [if_neg positive]
      exact ⟨_, rfl⟩
  rcases command with ⟨msg, command⟩
  simp only [serverStep, recvfrom_whole pkt whole, command]
  exact ⟨trivial, rfl⟩

theorem serverStep_put (type : msgType pkt = CMD_PUT) (named : msgText pkt ≠ [])
    (may : disk.creatable (setReceivedFilename (msgText pkt)) = true) :
    let path := setReceivedFilename (msgText pkt)
    (runCommand disk pkt).cmdType = PUT_START ∧
      serverStep ⟨disk, .idle⟩ ⟨addr, pkt⟩ =
        (⟨(disk.save path []).leave path (FILE.opened []),
          .receiving path (Receiver.start (FILE.opened []))⟩,
          [(addr, (runCommand disk pkt).reply)]) := by
  have positive : (msgText pkt).length > 0 := List.length_pos_iff.mpr named
  have command : runCommand disk pkt = ⟨PUT_START, [],
      some (.writing (setReceivedFilename (msgText pkt)) (FILE.opened [])),
      disk.save (setReceivedFilename (msgText pkt)) [], false⟩ := by
    simp only [runCommand, type, positive, Disk.fopenWrite, may, ↓reduceIte]
    rfl
  simp only [serverStep, recvfrom_whole pkt whole, command]
  exact ⟨trivial, rfl⟩

theorem serverStep_put_none (type : msgType pkt = CMD_PUT)
    (refused : ¬ (msgText pkt ≠ [] ∧
      disk.creatable (setReceivedFilename (msgText pkt)) = true)) :
    (runCommand disk pkt).cmdType = MSG_RESP ∧
      serverStep ⟨disk, .idle⟩ ⟨addr, pkt⟩ =
        (⟨disk, .idle⟩, [(addr, (runCommand disk pkt).reply)]) := by
  have apart : CMD_PUT ≠ CMD_LS ∧ CMD_PUT ≠ CMD_EXIT ∧ CMD_PUT ≠ CMD_GET := by decide
  have command : ∃ msg, runCommand disk pkt = ⟨MSG_RESP, msg, none, disk, false⟩ := by
    rw [runCommand, type, if_neg apart.1, if_neg apart.2.1, if_neg apart.2.2, if_pos rfl]
    by_cases positive : (msgText pkt).length > 0
    · have locked : ¬ disk.creatable (setReceivedFilename (msgText pkt)) = true :=
        fun may => refused ⟨List.length_pos_iff.mp positive, may⟩
      simp only [if_pos positive, Disk.fopenWrite, if_neg locked]
      exact ⟨_, rfl⟩
    · rw [if_neg positive]
      exact ⟨_, rfl⟩
  rcases command with ⟨msg, command⟩
  simp only [serverStep, recvfrom_whole pkt whole, command]
  exact ⟨trivial, rfl⟩

end idle

namespace Client

theorem reply_none (client : Client) (mpkt : Bytes) : client.reply none mpkt = .prompt client := by
  rw [reply]
  split_ifs <;> rfl

theorem reply_response (client : Client) (fp : Option Stream) {mpkt : Bytes}
    (response : msgType mpkt = MSG_RESP) : client.reply fp mpkt = .prompt (client.fclose fp) := by
  rw [reply.eq_def, if_pos response]

theorem reply_download (client : Client) (fp : Stream) {mpkt : Bytes}
    (start : msgType mpkt = GET_START) : client.reply (some fp) mpkt = client.receive fp := by
  rw [reply, start, if_neg (by decide), if_pos rfl]

theorem reply_upload (client : Client) (fp : Stream) {mpkt : Bytes}
    (start : msgType mpkt = PUT_START) : client.reply (some fp) mpkt = client.send fp := by
  rw [reply, start, if_neg (by decide), if_neg (by decide), if_pos rfl]

theorem reply_sent (client : Client) (fp : Option Stream) (mpkt : Bytes) :
    ∃ more, (client.reply fp mpkt).client.sent = client.sent ++ more := by
  have same : ∀ turn : Turn, turn.client.sent = client.sent →
      ∃ more, turn.client.sent = client.sent ++ more := by
    intro turn kept
    exact ⟨[], by rw [kept, List.append_nil]⟩
  cases fp with
  | none =>
      rw [reply_none]
      exact same _ rfl
  | some stream =>
      have closed : (client.fclose (some stream)).sent = client.sent := by
        cases stream <;> rfl
      rw [reply]
      split_ifs
      · exact same _ closed
      · cases stream <;> simp only [receive] <;> split <;> exact same _ rfl
      · cases stream with
        | writing path fp => exact same _ rfl
        | reading fp => exact ⟨_, rfl⟩
        | directory => exact same _ rfl
      · exact same _ closed

/-- Behind `sendto`. -/
def asking (client : Client) (argv : Argv) (cmdline : CString LINE_LEN_MAX) (asked : Request) :
    Client :=
  { client with
    argv
    disk := asked.disk
    msg := asked.msg
    sent := client.sent ++ [(client.remote, asked.packet argv cmdline)] }

section turn

variable (client : Client) {cmdline : CString LINE_LEN_MAX} {argc : Nat} {argv : Argv}
  (parsed : parseLine cmdline client.argv = some (argc, argv))

include parsed

theorem turn_idle
    (nothing : (Command.read (pieces cmdline)).asks client.disk client.msg = none) :
    client.turn cmdline = some (.prompt { client with argv }) := by
  rw [turn, parsed]
  dsimp only
  rw [request_eq parsed, nothing]

theorem turn_asking {asked : Request}
    (something : (Command.read (pieces cmdline)).asks client.disk client.msg = some asked) :
    client.turn cmdline = some (match client.inbox with
      | [] => .waits (client.asking argv cmdline asked)
      | datagram :: rest =>
          { client.asking argv cmdline asked with remote := datagram.addr, inbox := rest }.reply
            asked.fp (recvfrom (zeros PACKET_SIZE) datagram.bytes)) := by
  rw [turn, parsed]
  dsimp only
  rw [request_eq parsed, something]
  cases arrived : client.inbox with
  | nil => simp only [asking, arrived]
  | cons datagram rest => simp only [asking]

end turn

end Client

end NetworkSystem.Udp
