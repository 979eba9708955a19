import NetworkSystem.Udp.Transfer

/-! The UDP server: the command loop of `main` with the file transfers inside, and
the same server as a machine that takes one datagram after the other. One socket
serves every client. -/

namespace NetworkSystem.Udp

open Bytes Store

/-- `set_received_filename`: what stands behind the last `/`, with a suffix. -/
def setReceivedFilename (path : Bytes) : Bytes :=
  (path.reverse.takeWhile (· ≠ 47)).reverse ++ ascii ".received"

/-- `list_dir`; a directory that cannot be opened gives the empty string. -/
def listDir (disk : Disk) (dirName : Bytes) (delimiter : UInt8) : Bytes :=
  match disk.readdir disk.files dirName with
  | none => []
  | some entries =>
      (entries.filter (fun entry => entry.name ≠ ascii "." ∧ entry.name ≠ ascii "..")).flatMap
        (fun entry => entry.name ++ [delimiter])

/-- `fp`, as a command has opened it. -/
inductive Stream where
  | writing (path : Bytes) (fp : FILE)
  | reading (fp : FILE)
  | directory

/-- `fopen(path, "rb")` -/
def Stream.openRead (disk : Disk) (path : Bytes) : Option Stream :=
  match disk.fopen path with
  | some (.file fp) => some (.reading fp)
  | some .directory => some .directory
  | none => none

/-- What the command loop holds when it builds its reply: `cmd_type`, `msg`, `fp` and
`exit_flag`. -/
structure Verdict where
  cmdType : UInt8
  msg : Bytes
  fp : Option Stream
  disk : Disk
  exitFlag : Bool

/-- The `switch` over `msg_type`. -/
def runCommand (disk : Disk) (pkt : Bytes) : Verdict :=
  if msgType pkt = CMD_LS then ⟨MSG_RESP, listDir disk (ascii ".") 10, none, disk, false⟩
  else if msgType pkt = CMD_EXIT then ⟨MSG_RESP, ascii "Server will exit.\n", none, disk, true⟩
  else if msgType pkt = CMD_GET then
    if (msgText pkt).length > 0 then
      match Stream.openRead disk (msgText pkt) with
      | some fp => ⟨GET_START, [], some fp, disk, false⟩
      | none => ⟨MSG_RESP, ascii "server: get: Cannot open the file\n", none, disk, false⟩
    else ⟨MSG_RESP, ascii "server: get: Missing file operand\n", none, disk, false⟩
  else if msgType pkt = CMD_PUT then
    if (msgText pkt).length > 0 then
      let filename := setReceivedFilename (msgText pkt)
      match disk.fopenWrite filename with
      | some (fp, disk) => ⟨PUT_START, [], some (.writing filename fp), disk, false⟩
      | none => ⟨MSG_RESP, ascii "server: put: Cannot create the file\n", none, disk, false⟩
    else ⟨MSG_RESP, ascii "server: get: Missing file operand\n", none, disk, false⟩
  else ⟨MSG_RESP, msgText pkt, none, disk, false⟩

/-- What goes to the client for one request: the reply, and the file of a GET. The packets
without data that a directory gives for ever are left out. -/
def answer (addr : Address) (verdict : Verdict) : List (Address × Bytes) :=
  let reply := buildMsgPacket verdict.cmdType (some verdict.msg) (verdict.msg.length % 2 ^ 16)
  match verdict.fp with
  | some (.reading fp) =>
      if verdict.cmdType = GET_START then
        (addr, reply) :: (sendFile fp).1.map (fun pkt => (addr, pkt))
      else [(addr, reply)]
  | _ => [(addr, reply)]

/-- The stream that `receive_file` is called with, if it is called. -/
def upload (verdict : Verdict) : Option (Bytes × FILE) :=
  match verdict.fp with
  | some (.writing path fp) => if verdict.cmdType = PUT_START then some (path, fp) else none
  | _ => none

/-- The server comes to no `recvfrom` behind the request: it leaves, or `send_file` reads a
directory. -/
def Verdict.ends (verdict : Verdict) : Bool :=
  verdict.exitFlag ||
    match verdict.fp with
    | some .directory => true
    | _ => false

/-! The nested loops of the source. -/

/-- The server between two rounds of the command loop. -/
structure Main where
  disk : Disk
  remote : Address
  sent : List (Address × Bytes)
  inbox : List Datagram

/-- One round of the command loop; the loop ends when the server exits, sends for ever, or waits
in `recvfrom` for ever. -/
def mainBody (state : Main) : Main ⊕ Main :=
  match state.inbox with
  | [] => .inr state
  | datagram :: rest =>
      let verdict := runCommand state.disk (recvfrom (zeros PACKET_SIZE) datagram.bytes)
      let sent := state.sent ++ answer datagram.addr verdict
      match upload verdict with
      | some (path, fp) =>
          let received := receiveFile fp datagram.addr rest
          let disk := if received.returned then verdict.disk.close path received.fp
            else verdict.disk.leave path received.fp
          .inl ⟨disk, received.addr, sent, received.rest⟩
      | none =>
          if verdict.ends then .inr ⟨verdict.disk, datagram.addr, sent, rest⟩
          else .inl ⟨verdict.disk, datagram.addr, sent, rest⟩

theorem receiveLoop_shrinks (receiver : Receiver) (addr : Address) (datagrams : List Datagram) :
    (receiveLoop receiver addr datagrams).rest.length ≤ datagrams.length := by
  induction datagrams generalizing receiver addr with
  | nil => exact Nat.le_refl 0
  | cons datagram rest ih =>
      simp only [receiveLoop]
      split
      · exact Nat.le_succ _
      · exact Nat.le_succ_of_le (ih _ _)

theorem mainBody_decreases (state next : Main) (continued : mainBody state = .inl next) :
    next.inbox.length < state.inbox.length := by
  simp only [mainBody] at continued
  cases arrived : state.inbox with
  | nil =>
      rw [arrived] at continued
      cases continued
  | cons datagram rest =>
      simp only [arrived] at continued
      split at continued
      · rename_i path fp opened
        rw [← Sum.inl.inj continued]
        exact Nat.lt_succ_of_le (receiveLoop_shrinks _ _ _)
      · split at continued
        · cases continued
        · rw [← Sum.inl.inj continued]
          exact Nat.lt_succ_self _

/-- `main` behind the set-up of its socket, on all that the socket delivers. -/
def serverMain (state : Main) : Main :=
  Loop.run mainBody (fun state => state.inbox.length) mainBody_decreases state

/-! The same server, one datagram at a time. -/

/-- Where `main` waits in `recvfrom`, or that it does not any more. -/
inductive Mode where
  | idle
  | receiving (path : Bytes) (receiver : Receiver)
  | gone

structure Server where
  disk : Disk
  mode : Mode

def serverStep (server : Server) (datagram : Datagram) : Server × List (Address × Bytes) :=
  let buffer := recvfrom (zeros PACKET_SIZE) datagram.bytes
  match server.mode with
  | .gone => (server, [])
  | .idle =>
      let verdict := runCommand server.disk buffer
      match upload verdict with
      | some (path, fp) =>
          (⟨verdict.disk.leave path fp, .receiving path (Receiver.start fp)⟩,
            answer datagram.addr verdict)
      | none =>
          (⟨verdict.disk, if verdict.ends then .gone else .idle⟩,
            answer datagram.addr verdict)
  | .receiving path receiver =>
      if dataLayout.eof buffer = 1 then (⟨server.disk.close path receiver.fp, .idle⟩, [])
      else
        let receiver := receiver.storePacket dataLayout none buffer
        (⟨server.disk.leave path receiver.fp, .receiving path receiver⟩, [])

def serverRun (server : Server) : List Datagram → Server × List (Address × Bytes)
  | [] => (server, [])
  | datagram :: rest =>
      let (server, sent) := serverStep server datagram
      let (last, later) := serverRun server rest
      (last, sent ++ later)

theorem serverRun_append (server : Server) (first second : List Datagram) :
    serverRun server (first ++ second) =
      let head := serverRun server first
      let tail := serverRun head.1 second
      (tail.1, head.2 ++ tail.2) := by
  induction first generalizing server with
  | nil => rfl
  | cons datagram rest ih =>
      simp only [List.cons_append, serverRun, ih, List.append_assoc]

theorem serverRun_gone (disk : Disk) (datagrams : List Datagram) :
    serverRun ⟨disk, .gone⟩ datagrams = (⟨disk, .gone⟩, []) := by
  induction datagrams with
  | nil => rfl
  | cons datagram rest ih =>
      simp only [serverRun, serverStep, ih, List.append_nil]

/-- An upload runs through `receive_file`: it either meets the packet that ends it,
or takes all that comes. -/
theorem serverRun_receiving (disk : Disk) (path : Bytes) (receiver : Receiver) (addr : Address)
    (datagrams : List Datagram) :
    let result := receiveLoop receiver addr datagrams
    let server : Server := ⟨disk.leave path receiver.fp, .receiving path receiver⟩
    (result.returned = true ∧ serverRun server datagrams =
      serverRun ⟨disk.close path result.fp, .idle⟩ result.rest) ∨
    (result.returned = false ∧ result.rest = [] ∧
      ∃ last : Receiver, serverRun server datagrams =
        (⟨disk.leave path result.fp, .receiving path last⟩, [])) := by
  induction datagrams generalizing receiver addr with
  | nil => exact Or.inr ⟨rfl, rfl, receiver, rfl⟩
  | cons datagram rest ih =>
      simp only [receiveLoop, serverRun, serverStep]
      by_cases ended : dataLayout.eof (recvfrom (zeros PACKET_SIZE) datagram.bytes) = 1
      · simp only [ended, ↓reduceIte, Disk.close_leave, List.nil_append]
        exact Or.inl ⟨trivial, trivial⟩
      · simp only [ended, ↓reduceIte, Disk.leave_leave, List.nil_append]
        exact ih _ _

/-- The server with its nested loops leaves the files and sends the packets of the
machine. -/
theorem serverMain_eq (state : Main) :
    let run := serverRun ⟨state.disk, .idle⟩ state.inbox
    (serverMain state).disk = run.1.disk ∧ (serverMain state).sent = state.sent ++ run.2 := by
  -- Induction over the rounds of the command loop, from the last one to the first.
  apply Loop.run_induction mainBody (fun state => state.inbox.length) mainBody_decreases
    (fun state result =>
      let run := serverRun ⟨state.disk, .idle⟩ state.inbox
      result.disk = run.1.disk ∧ result.sent = state.sent ++ run.2)
  · intro state result returned
    simp only [mainBody] at returned
    cases arrived : state.inbox with
    | nil =>
        rw [arrived] at returned
        rw [← Sum.inr.inj returned]
        exact ⟨rfl, (List.append_nil _).symm⟩
    | cons datagram rest =>
        rw [arrived] at returned
        simp only at returned
        split at returned
        · cases returned
        · rename_i closed
          split at returned
          · rename_i exits
            rw [← Sum.inr.inj returned]
            simp only [serverRun, serverStep, closed, exits, ↓reduceIte, serverRun_gone,
              List.append_nil, and_self]
          · cases returned
  · intro state next result continued ih
    simp only [mainBody] at continued
    cases arrived : state.inbox with
    | nil =>
        rw [arrived] at continued
        cases continued
    | cons datagram rest =>
        rw [arrived] at continued
        simp only at continued
        split at continued
        · rename_i path fp opened
          rw [← Sum.inl.inj continued] at ih
          simp only [receiveFile] at ih
          simp only [serverRun, serverStep, opened]
          -- `receive_file` meets the packet that ends the file, or takes all that is left.
          rcases serverRun_receiving
              (runCommand state.disk (recvfrom (zeros PACKET_SIZE) datagram.bytes)).disk path
              (Receiver.start fp) datagram.addr rest with ⟨ended, run⟩ | ⟨waits, left, last, run⟩
          · simp only [Receiver.start] at ended run ih ⊢
            rw [run]
            simp only [ended, ↓reduceIte] at ih
            rw [ih.1, ih.2, List.append_assoc]
            exact ⟨rfl, rfl⟩
          · simp only [Receiver.start] at waits left run ih ⊢
            rw [run]
            simp only [waits, left, Bool.false_eq_true, ↓reduceIte, serverRun, List.append_nil]
              at ih ⊢
            exact ih
        · rename_i closed
          split at continued
          · cases continued
          · rename_i stays
            rw [← Sum.inl.inj continued] at ih
            simp only at ih
            simp only [serverRun, serverStep, closed, stays, Bool.false_eq_true, ↓reduceIte]
            rw [ih.1, ih.2, List.append_assoc]
            exact ⟨rfl, rfl⟩

end NetworkSystem.Udp
