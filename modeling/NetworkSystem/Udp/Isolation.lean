import NetworkSystem.Udp.Server

/-! Two clients of one server. The server tells datagrams apart by their bytes only,
so what client B sends while A uploads a file ends up in A's file, in front of it, or
in its place. -/

namespace NetworkSystem.Udp

open Bytes Store Blocks

/-- A datagram of client B: a message as the programs build it. -/
def IsMessage (datagram : Datagram) : Prop := ∃ message : Message, datagram.bytes = message.packet

/-- A request that makes the server open a file for writing. -/
def OpensFile (disk : Disk) (pkt : Bytes) : Prop :=
  msgType pkt = CMD_PUT ∧ msgText pkt ≠ [] ∧
    disk.creatable (setReceivedFilename (msgText pkt)) = true

/-- A request that makes the server open a directory for reading. -/
def OpensDirectory (disk : Disk) (pkt : Bytes) : Prop :=
  msgType pkt = CMD_GET ∧ msgText pkt ≠ [] ∧ disk.IsDir (msgText pkt)

theorem IsMessage.whole {datagram : Datagram} (isMessage : IsMessage datagram) :
    datagram.bytes.length = PACKET_SIZE := by
  rcases isMessage with ⟨message, same⟩
  rw [same, message.length_packet]

/-- No message is taken for the packet that ends a file. -/
theorem IsMessage.eof {datagram : Datagram} (isMessage : IsMessage datagram) :
    dataLayout.eof datagram.bytes ≠ 1 := by
  rcases isMessage with ⟨message, same⟩
  rw [same, message.eof_packet]
  omega

theorem openRead_cases (disk : Disk) (path : Bytes) :
    (∃ fp, Stream.openRead disk path = some (.reading fp)) ∨
      (disk.IsDir path ∧ Stream.openRead disk path = some .directory) ∨
      (¬ disk.IsDir path ∧ Stream.openRead disk path = none) := by
  cases there : disk.files path with
  | some content =>
      left
      rw [Stream.openRead, Disk.fopen_of_file there]
      exact ⟨_, rfl⟩
  | none =>
      right
      by_cases isDir : disk.IsDir path
      · left
        rw [Stream.openRead, Disk.fopen_of_isDir isDir]
        exact ⟨isDir, rfl⟩
      · right
        rw [Stream.openRead, Disk.fopen_eq_none.mpr ⟨there, isDir⟩]
        exact ⟨isDir, rfl⟩

/-- A command that opens no file for writing leaves the files, and only CMD_EXIT and a GET of
a directory leave the loop. -/
theorem runCommand_closed (disk : Disk) (pkt : Bytes) (closed : ¬ OpensFile disk pkt) :
    (runCommand disk pkt).disk = disk ∧ upload (runCommand disk pkt) = none ∧
      ((runCommand disk pkt).ends = true → msgType pkt = CMD_EXIT ∨ OpensDirectory disk pkt) := by
  simp only [runCommand]
  split_ifs with ls exit get operand put operand'
  · simp [upload, Verdict.ends]
  · simp [upload, exit]
  · rcases openRead_cases disk (msgText pkt) with ⟨fp, opened⟩ | ⟨isDir, opened⟩ | ⟨-, opened⟩
    · simp [opened, upload, Verdict.ends]
    · simp only [opened, upload, true_and]
      intro _
      exact Or.inr ⟨get, List.length_pos_iff.mp operand, isDir⟩
    · simp [opened, upload, Verdict.ends]
  · simp [upload, Verdict.ends]
  · have locked : ¬ disk.creatable (setReceivedFilename (msgText pkt)) = true :=
      fun creatable => closed ⟨put, List.length_pos_iff.mp operand', creatable⟩
    simp [upload, Verdict.ends, Disk.fopenWrite, locked]
  · simp [upload, Verdict.ends]
  · simp [upload, Verdict.ends]

theorem runCommand_opens (disk : Disk) (pkt : Bytes) (opens : OpensFile disk pkt) :
    (runCommand disk pkt).disk = disk.save (setReceivedFilename (msgText pkt)) [] ∧
      upload (runCommand disk pkt) =
        some (setReceivedFilename (msgText pkt), FILE.opened []) := by
  rcases opens with ⟨put, named, creatable⟩
  have positive : (msgText pkt).length > 0 := List.length_pos_iff.mpr named
  simp only [runCommand, put, positive, Disk.fopenWrite, creatable, CMD_PUT, CMD_LS, CMD_EXIT,
    CMD_GET, ↓reduceIte]
  simp [upload]

/-- The server does not hold the file open. -/
def Elsewhere (path : Bytes) (server : Server) : Prop :=
  ∀ opened receiver, server.mode = .receiving opened receiver → opened ≠ path

theorem serverStep_elsewhere (path : Bytes) (server : Server) (datagram : Datagram)
    (elsewhere : Elsewhere path server) (whole : datagram.bytes.length = PACKET_SIZE)
    (other : OpensFile server.disk datagram.bytes →
      setReceivedFilename (msgText datagram.bytes) ≠ path) :
    let next := (serverStep server datagram).1
    next.disk.files path = server.disk.files path ∧
      next.disk.creatable = server.disk.creatable ∧ Elsewhere path next := by
  rcases server with ⟨disk, mode⟩
  cases mode with
  | gone => exact ⟨rfl, rfl, elsewhere⟩
  | idle =>
      simp only [serverStep, recvfrom_whole _ whole]
      by_cases opens : OpensFile disk datagram.bytes
      · have command := runCommand_opens disk datagram.bytes opens
        have different := other opens
        simp only [command.1, command.2]
        refine ⟨?_, rfl, ?_⟩
        · rw [Disk.leave, Disk.save_save]
          exact Disk.save_files_of_ne _ _ _ _ different.symm
        · intro opened receiver same
          cases same
          exact different
      · have command := runCommand_closed disk datagram.bytes opens
        simp only [command.1, command.2.1]
        refine ⟨trivial, trivial, ?_⟩
        intro opened receiver same
        split at same <;> cases same
  | receiving opened receiver =>
      have different : path ≠ opened := (elsewhere opened receiver rfl).symm
      simp only [serverStep]
      split
      · refine ⟨Disk.save_files_of_ne _ _ _ _ different, rfl, ?_⟩
        intro again other same
        cases same
      · refine ⟨Disk.save_files_of_ne _ _ _ _ different, rfl, ?_⟩
        intro again other same
        cases same
        exact different.symm

theorem serverRun_elsewhere (path : Bytes) (server : Server) (datagrams : List Datagram)
    (elsewhere : Elsewhere path server)
    (others : ∀ datagram ∈ datagrams, IsMessage datagram ∧
      (OpensFile server.disk datagram.bytes →
        setReceivedFilename (msgText datagram.bytes) ≠ path)) :
    (serverRun server datagrams).1.disk.files path = server.disk.files path := by
  induction datagrams generalizing server with
  | nil => rfl
  | cons datagram rest ih =>
      have head := others datagram List.mem_cons_self
      have step := serverStep_elsewhere path server datagram elsewhere head.1.whole head.2
      have tail := ih (serverStep server datagram).1 step.2.2 (by
        intro next member
        have known := others next (List.mem_cons_of_mem _ member)
        refine ⟨known.1, fun opens => known.2 ?_⟩
        rwa [OpensFile, step.2.1] at opens)
      exact tail.trans step.1

/-- Messages that neither stop the server nor make it open a file or a directory leave it
waiting. -/
theorem serverRun_quiet (disk : Disk) (datagrams : List Datagram)
    (quiet : ∀ datagram ∈ datagrams, IsMessage datagram ∧ msgType datagram.bytes ≠ CMD_EXIT ∧
      ¬ OpensFile disk datagram.bytes ∧ ¬ OpensDirectory disk datagram.bytes) :
    (serverRun ⟨disk, .idle⟩ datagrams).1 = ⟨disk, .idle⟩ := by
  induction datagrams with
  | nil => rfl
  | cons datagram rest ih =>
      have head := quiet datagram List.mem_cons_self
      have command := runCommand_closed disk datagram.bytes head.2.2.1
      have stays : ¬ (runCommand disk datagram.bytes).ends = true := by
        intro ends
        rcases command.2.2 ends with exit | directory
        · exact head.2.1 exit
        · exact head.2.2.2 directory
      have step : (serverStep ⟨disk, .idle⟩ datagram).1 = ⟨disk, .idle⟩ := by
        simp only [serverStep, recvfrom_whole _ head.1.whole, command.1, command.2.1, stays,
          Bool.false_eq_true, ↓reduceIte]
      have tail := ih (fun next member => quiet next (List.mem_cons_of_mem _ member))
      simp only [serverRun, step, tail]

/-- An upload with whatever comes between its packets: the file holds what all the
writes leave, until someone else opens it. -/
theorem serverRun_upload (disk : Disk) (put last : Datagram) (during after : List Datagram)
    (whole : put.bytes.length = PACKET_SIZE) (opens : OpensFile disk put.bytes)
    (data : ∀ datagram ∈ during, datagram.bytes.length = PACKET_SIZE ∧
      dataLayout.eof datagram.bytes ≠ 1)
    (isEof : last.bytes = dataLayout.eofPacket)
    (others : ∀ datagram ∈ after, IsMessage datagram ∧ (OpensFile disk datagram.bytes →
      setReceivedFilename (msgText datagram.bytes) ≠ setReceivedFilename (msgText put.bytes))) :
    (serverRun ⟨disk, .idle⟩ (put :: (during ++ last :: after))).1.disk.files
        (setReceivedFilename (msgText put.bytes)) =
      some (replay 0 [] ((during.map Datagram.bytes).map (Receiver.write dataLayout none))) := by
  have command := runCommand_opens disk put.bytes opens
  rcases receiveFile_replay (FILE.opened []) put.addr during after last rfl isEof data with
    ⟨returned, rest, content⟩
  simp only [receiveFile] at returned rest content
  simp only [serverRun, serverStep, recvfrom_whole _ whole, command.1, command.2]
  rcases serverRun_receiving (disk.save (setReceivedFilename (msgText put.bytes)) [])
      (setReceivedFilename (msgText put.bytes)) (Receiver.start (FILE.opened [])) put.addr
      (during ++ last :: after) with ⟨-, run⟩ | ⟨waits, -, -⟩
  · simp only [Receiver.start] at run returned rest content ⊢
    rw [run, rest, serverRun_elsewhere]
    · rw [Disk.close, Disk.save_files_self, content]
      rfl
    · intro opened receiver same
      cases same
    · exact others
  · rw [returned] at waits
    cases waits

/-- What arrives between the CMD_PUT of a client and the packet that ends its file:
the client's data packets in order, and messages of others. -/
structure Interleaved (client : Address) (source : FILE) (during : List Datagram) : Prop where
  own : (during.filter (fun datagram => datagram.addr = client)).map Datagram.bytes ++
    [dataLayout.eofPacket] = (sendFile source).1
  strangers : ∀ datagram ∈ during, datagram.addr ≠ client → IsMessage datagram

namespace Interleaved

variable {client : Address} {source : FILE} {during : List Datagram}
  (interleaved : Interleaved client source during)

include interleaved in
/-- The client's own datagrams are the packets of three passes. -/
theorem own_iff : ∃ chunks, (∀ chunk ∈ chunks, chunk.length ≤ DATA_SIZE_MAX) ∧
    chunks.flatten = source.content ∧
    ∀ pkt, (∃ datagram ∈ during, datagram.addr = client ∧ datagram.bytes = pkt) ↔
      pkt ∈ dataLayout.dataPackets none 0 chunks := by
  rcases sendFile_sent source with ⟨chunks, small, flat, sent⟩
  refine ⟨chunks, small, flat, fun pkt => ?_⟩
  have own := interleaved.own
  rw [sent] at own
  have data := List.append_cancel_right own
  have member : pkt ∈ (during.filter (fun datagram => datagram.addr = client)).map
      Datagram.bytes ↔ pkt ∈ dataLayout.dataPackets none 0 chunks := by
    rw [data]
    simp only [List.mem_flatten, List.mem_replicate]
    constructor
    · intro inside
      rcases inside with ⟨pass, ⟨-, rfl⟩, found⟩
      exact found
    · intro found
      exact ⟨_, ⟨by decide, rfl⟩, found⟩
  rw [← member]
  simp only [List.mem_map, List.mem_filter, decide_eq_true_eq, and_assoc]

include interleaved in
theorem data : ∀ datagram ∈ during, datagram.bytes.length = PACKET_SIZE ∧
    dataLayout.eof datagram.bytes ≠ 1 := by
  intro datagram member
  rcases interleaved.own_iff with ⟨chunks, small, -, own⟩
  by_cases mine : datagram.addr = client
  · exact dataLayout.dataPackets_whole none 0 chunks small _
      ((own _).mp ⟨datagram, member, mine, rfl⟩)
  · have message := interleaved.strangers datagram member mine
    exact ⟨message.whole, message.eof⟩

/-- Every byte that a message of another client overwrites is a byte of the file, and
what is written there last is the file's own. -/
def Mended (client : Address) (content : Bytes) (during : List Datagram) : Prop :=
  ∀ datagram ∈ during, datagram.addr ≠ client → ∀ index,
    Covers (Receiver.write dataLayout none datagram.bytes) index → index < content.length ∧
      lastValue 0 ((during.map Datagram.bytes).map (Receiver.write dataLayout none)) index =
        some (content.getD index 0)

include interleaved in
theorem replay_iff (bound : source.content.length < 2 ^ 32) :
    replay 0 [] ((during.map Datagram.bytes).map (Receiver.write dataLayout none)) =
      source.content ↔ Mended client source.content during := by
  rcases interleaved.own_iff with ⟨chunks, small, flat, own⟩
  have facts := dataPackets_file source.content chunks small flat bound
  let strangers := during.filter (fun datagram => datagram.addr ≠ client)
  have listed : ∀ datagram, datagram ∈ strangers ↔ datagram ∈ during ∧ datagram.addr ≠ client := by
    intro datagram
    simp only [strangers, List.mem_filter, decide_eq_true_eq]
  have rebuilt := replay_iff_of_cover (0 : UInt8) source.content
    ((during.map Datagram.bytes).map (Receiver.write dataLayout none))
    ((strangers.map Datagram.bytes).map (Receiver.write dataLayout none)) ?_ ?_ ?_
  · rw [rebuilt]
    constructor
    · intro mended datagram member stranger
      exact mended _ (List.mem_map_of_mem (List.mem_map_of_mem
        ((listed datagram).mpr ⟨member, stranger⟩)))
    · intro mended write member
      obtain ⟨pkt, sent, rfl⟩ := List.mem_map.mp member
      obtain ⟨datagram, inside, rfl⟩ := List.mem_map.mp sent
      have known := (listed datagram).mp inside
      exact mended datagram known.1 known.2
  · intro write member
    obtain ⟨pkt, sent, rfl⟩ := List.mem_map.mp member
    obtain ⟨datagram, inside, rfl⟩ := List.mem_map.mp sent
    exact List.mem_map_of_mem (List.mem_map_of_mem ((listed datagram).mp inside).1)
  · intro write member
    obtain ⟨pkt, sent, rfl⟩ := List.mem_map.mp member
    obtain ⟨datagram, inside, rfl⟩ := List.mem_map.mp sent
    by_cases mine : datagram.addr = client
    · exact Or.inr (facts.1 _ ((own _).mp ⟨datagram, inside, mine, rfl⟩))
    · apply Or.inl
      exact List.mem_map_of_mem (List.mem_map_of_mem ((listed datagram).mpr ⟨inside, mine⟩))
  · intro index inside
    rcases facts.2 index inside with ⟨pkt, member, covers⟩
    obtain ⟨datagram, arrived, -, rfl⟩ := (own pkt).mpr member
    exact ⟨_, List.mem_map_of_mem (List.mem_map_of_mem arrived), covers⟩

end Interleaved

def clientA : Address := ⟨1, 5000⟩

def clientB : Address := ⟨2, 5000⟩

def sampleDisk : Disk where
  files _ := none
  dirs _ := false
  allowed _ := true
  mkdirAllowed _ := true
  readdir _ _ := none
  flushed fp := fp.content

def sampleSource : FILE := FILE.opened [1, 2, 3]

def putA : Message := ⟨CMD_PUT, [97], by decide⟩

def putB : Message := ⟨CMD_PUT, [98], by decide⟩

def lineB : Message := ⟨CMD_UND, [120], by decide⟩

def fromB (message : Message) : Datagram := ⟨clientB, message.packet⟩

def passA : Datagram := ⟨clientA, dataLayout.buildDataPacket 0 (some [1, 2, 3]) 0⟩

abbrev endA : Datagram := ⟨clientA, dataLayout.eofPacket⟩

theorem isMessage_fromB (message : Message) : IsMessage (fromB message) := ⟨message, rfl⟩

/-- The datagrams of A are its whole session, those of others are messages, and yet
the server does not hold A's file. -/
def Disturbed (stream : List Datagram) : Prop :=
  (stream.filter (fun datagram => datagram.addr = clientA)).map Datagram.bytes =
      putA.packet :: (sendFile sampleSource).1 ∧
    (∀ datagram ∈ stream, datagram.addr ≠ clientA → IsMessage datagram) ∧
    (serverMain ⟨sampleDisk, clientA, [], stream⟩).disk.files (setReceivedFilename putA.text) ≠
      some sampleSource.content

theorem disturbed_of (stream : List Datagram)
    (own : (stream.filter (fun datagram => datagram.addr = clientA)).map Datagram.bytes =
      putA.packet :: (sendFile sampleSource).1)
    (known : ∀ datagram ∈ stream, datagram.addr ≠ clientA →
      datagram.bytes ∈ [putB, lineB, putA].map Message.packet)
    (lost : (serverMain ⟨sampleDisk, clientA, [], stream⟩).disk.files
      (setReceivedFilename putA.text) ≠ some sampleSource.content) : Disturbed stream := by
  refine ⟨own, ?_, lost⟩
  intro datagram member stranger
  obtain ⟨message, -, same⟩ := List.mem_map.mp (known datagram member stranger)
  exact ⟨message, same.symm⟩

end NetworkSystem.Udp
