import NetworkSystem.Udp.Isolation
import NetworkSystem.Paths

/-! Packets of an upload that reach the server late, twice, or not at all. Both loops
look at the bytes they expect without asking what kind of packet came, so a packet of
the file may be taken for a command and a command for a packet of the file. -/

namespace NetworkSystem.Udp

open Bytes Store

/-- A system call that takes a path. -/
inductive Access where
  | listDir (dirName : Bytes)
  | openRead (path : Bytes)
  | openWrite (path : Bytes)
  deriving DecidableEq

/-- The calls of `runCommand`. -/
def commandAccesses (pkt : Bytes) : List Access :=
  if msgType pkt = CMD_LS then [.listDir (ascii ".")]
  else if msgType pkt = CMD_EXIT then []
  else if msgType pkt = CMD_GET then
    if (msgText pkt).length > 0 then [.openRead (msgText pkt)] else []
  else if msgType pkt = CMD_PUT then
    if (msgText pkt).length > 0 then [.openWrite (setReceivedFilename (msgText pkt))] else []
  else []

/-- The calls of a step of the server; `receive_file` works on the stream it has. -/
def stepAccesses (server : Server) (datagram : Datagram) : List Access :=
  match server.mode with
  | .idle => commandAccesses (recvfrom (zeros PACKET_SIZE) datagram.bytes)
  | .receiving _ _ => []
  | .gone => []

def runAccesses (server : Server) : List Datagram → List Access
  | [] => []
  | datagram :: rest =>
      stepAccesses server datagram ++ runAccesses (serverStep server datagram).1 rest

theorem OpensFile.accesses {disk : Disk} {pkt : Bytes} (opens : OpensFile disk pkt) :
    commandAccesses pkt = [.openWrite (setReceivedFilename (msgText pkt))] := by
  obtain ⟨put, named, -⟩ := opens
  have positive : (msgText pkt).length > 0 := List.length_pos_iff.mpr named
  simp only [commandAccesses, put, positive, CMD_PUT, CMD_LS, CMD_EXIT, CMD_GET, ↓reduceIte]
  simp

/-- A command that writes a stream has opened its path, and no other is changed. -/
theorem runCommand_untouched (disk : Disk) (pkt path : Bytes)
    (other : Access.openWrite path ∉ commandAccesses pkt) :
    (runCommand disk pkt).disk.files path = disk.files path ∧
      ∀ opened fp, upload (runCommand disk pkt) = some (opened, fp) → opened ≠ path := by
  by_cases opens : OpensFile disk pkt
  · have command := runCommand_opens disk pkt opens
    have different : setReceivedFilename (msgText pkt) ≠ path := by
      intro same
      rw [← same, opens.accesses] at other
      exact other (List.mem_singleton_self _)
    rw [command.1, command.2]
    refine ⟨Disk.save_files_of_ne _ _ _ _ different.symm, ?_⟩
    intro opened fp found
    rwa [← (Prod.mk.inj (Option.some.inj found)).1]
  · have command := runCommand_closed disk pkt opens
    rw [command.1, command.2.1]
    exact ⟨rfl, by simp⟩

def Mode.Spares (path : Bytes) : Mode → Prop
  | .idle => True
  | .receiving written _ => written ≠ path
  | .gone => True

theorem serverStep_untouched (server : Server) (datagram : Datagram) (path : Bytes)
    (spares : server.mode.Spares path)
    (other : Access.openWrite path ∉ stepAccesses server datagram) :
    (serverStep server datagram).1.disk.files path = server.disk.files path ∧
      (serverStep server datagram).1.mode.Spares path := by
  obtain ⟨disk, mode⟩ := server
  cases mode with
  | idle =>
      simp only [stepAccesses] at other
      have command := runCommand_untouched disk _ path other
      simp only [serverStep]
      split
      · rename_i opened fp found
        have spared := command.2 opened fp found
        exact ⟨(Disk.save_files_of_ne _ _ _ _ spared.symm).trans command.1, spared⟩
      · simp only
        refine ⟨command.1, ?_⟩
        cases (runCommand disk (recvfrom (zeros PACKET_SIZE) datagram.bytes)).ends with
        | false => exact trivial
        | true => exact trivial
  | receiving written receiver =>
      change written ≠ path at spares
      have spared := spares.symm
      simp only [serverStep]
      split
      · exact ⟨Disk.save_files_of_ne _ _ _ _ spared, trivial⟩
      · exact ⟨Disk.save_files_of_ne _ _ _ _ spared, spares⟩
  | gone => exact ⟨rfl, trivial⟩

theorem serverRun_untouched (server : Server) (datagrams : List Datagram) (path : Bytes)
    (spares : server.mode.Spares path)
    (other : Access.openWrite path ∉ runAccesses server datagrams) :
    (serverRun server datagrams).1.disk.files path = server.disk.files path := by
  induction datagrams generalizing server with
  | nil => rfl
  | cons datagram rest ih =>
      simp only [runAccesses, List.mem_append, not_or] at other
      have step := serverStep_untouched server datagram path spares other.1
      have tail := ih (serverStep server datagram).1 step.2 other.2
      exact tail.trans step.1

theorem eof_eq (pkt : Bytes) (whole : pkt.length = PACKET_SIZE) :
    dataLayout.eof pkt = (pkt.getD 2 0).toNat + 256 * (msgType pkt).toNat := by
  have size : PACKET_SIZE = 496 := rfl
  have field : load pkt 2 2 = [pkt.getD 2 0, msgType pkt] := by
    have lengths : (load pkt 2 2).length = 2 := by
      rw [length_load, whole, size]
      rfl
    apply ext_getD (0 : UInt8) lengths
    intro index inside
    rw [lengths] at inside
    rw [getD_load (0 : UInt8) _ _ _ _ inside]
    have either : index = 0 ∨ index = 1 := by omega
    cases either with
    | inl first => rw [first]; rfl
    | inr second => rw [second]; rfl
  change getLE (load pkt 2 2) = _
  rw [field]
  simp [getLE]

theorem msgType_of_eof (pkt : Bytes) (whole : pkt.length = PACKET_SIZE)
    (small : dataLayout.eof pkt < 256) : msgType pkt = 0 := by
  rw [eof_eq pkt whole] at small
  have high : (msgType pkt).toNat = 0 := by omega
  exact UInt8.toNat_inj.mp high

/-- What the command loop makes of a packet of the upload of `name`. -/
structure Harmless (name pkt : Bytes) : Prop where
  whole : pkt.length = PACKET_SIZE
  command : msgType pkt = CMD_PUT ∧ msgText pkt = name ∨ msgType pkt = 0

theorem harmless_of_mem_sendFile (name : Bytes) (source : FILE) (pkt : Bytes)
    (sent : pkt ∈ (sendFile source).1) : Harmless name pkt := by
  obtain ⟨chunks, small, -, packets⟩ := sendFile_sent source
  rw [packets] at sent
  rcases List.mem_append.mp sent with data | last
  · obtain ⟨pass, repeated, inside⟩ := List.mem_flatten.mp data
    rw [List.eq_of_mem_replicate repeated] at inside
    have facts := dataLayout.dataPackets_eof none 0 chunks small pkt inside
    exact ⟨facts.1, Or.inr (msgType_of_eof pkt facts.1 (by rw [facts.2]; decide))⟩
  · rw [List.mem_singleton.mp last]
    have whole : dataLayout.eofPacket.length = PACKET_SIZE := dataLayout.length_eofPacket
    refine ⟨whole, Or.inr (msgType_of_eof _ whole ?_)⟩
    rw [DataLayout.eof_eofPacket]
    decide

theorem harmless_packet (request : Message) (isPut : request.type = CMD_PUT)
    (clean : 0 ∉ request.text) : Harmless request.text request.packet :=
  ⟨request.length_packet,
    Or.inl ⟨request.msgType_packet.trans isPut, request.msgText_packet clean⟩⟩

theorem Harmless.ne {name pkt : Bytes} (harmless : Harmless name pkt) (type : UInt8)
    (other : CMD_PUT ≠ type) (some_ : 0 ≠ type) : msgType pkt ≠ type := by
  rcases harmless.command with ⟨put, -⟩ | data
  · rwa [put]
  · rwa [data]

theorem Harmless.accesses {name pkt : Bytes} (harmless : Harmless name pkt) :
    ∀ access ∈ commandAccesses pkt, access = .openWrite (lastPart name ++ ascii ".received") := by
  have ls : msgType pkt ≠ CMD_LS := harmless.ne _ (by decide) (by decide)
  have exit : msgType pkt ≠ CMD_EXIT := harmless.ne _ (by decide) (by decide)
  have get : msgType pkt ≠ CMD_GET := harmless.ne _ (by decide) (by decide)
  intro access member
  simp only [commandAccesses, ls, exit, get, ↓reduceIte] at member
  split_ifs at member with put named
  · rcases harmless.command with ⟨-, text⟩ | data
    · rw [text] at member
      exact List.mem_singleton.mp member
    · rw [data] at put
      exact absurd put (by decide)
  · cases member
  · cases member

theorem Harmless.stays {name pkt : Bytes} (harmless : Harmless name pkt) (disk : Disk) :
    (runCommand disk pkt).ends = false := by
  have exit : msgType pkt ≠ CMD_EXIT := harmless.ne _ (by decide) (by decide)
  have get : msgType pkt ≠ CMD_GET := harmless.ne _ (by decide) (by decide)
  simp only [runCommand, exit, get, ↓reduceIte]
  split_ifs
  · rfl
  · cases disk.fopenWrite (setReceivedFilename (msgText pkt)) with
    | none => rfl
    | some opened => rfl
  · rfl
  · rfl

theorem serverStep_harmless (server : Server) (datagram : Datagram) (name : Bytes)
    (running : server.mode ≠ .gone) (harmless : Harmless name datagram.bytes) :
    (∀ access ∈ stepAccesses server datagram,
      access = .openWrite (lastPart name ++ ascii ".received")) ∧
      (serverStep server datagram).1.mode ≠ .gone := by
  obtain ⟨disk, mode⟩ := server
  cases mode with
  | idle =>
      simp only [stepAccesses, serverStep, recvfrom_whole _ harmless.whole, harmless.stays,
        Bool.false_eq_true, ↓reduceIte]
      refine ⟨harmless.accesses, ?_⟩
      split
      · simp
      · simp
  | receiving written receiver =>
      refine ⟨by simp [stepAccesses], ?_⟩
      simp only [serverStep]
      split
      · simp
      · simp
  | gone => exact absurd rfl running

theorem serverRun_harmless (server : Server) (datagrams : List Datagram) (name : Bytes)
    (running : server.mode ≠ .gone)
    (harmless : ∀ datagram ∈ datagrams, Harmless name datagram.bytes) :
    (∀ access ∈ runAccesses server datagrams,
      access = .openWrite (lastPart name ++ ascii ".received")) ∧
      (serverRun server datagrams).1.mode ≠ .gone := by
  induction datagrams generalizing server with
  | nil => exact ⟨by simp [runAccesses], running⟩
  | cons datagram rest ih =>
      have step := serverStep_harmless server datagram name running
        (harmless datagram List.mem_cons_self)
      have tail := ih (serverStep server datagram).1 step.2
        (fun next member => harmless next (List.mem_cons_of_mem _ member))
      refine ⟨?_, tail.2⟩
      intro access member
      rcases List.mem_append.mp member with here | later
      · exact step.1 access here
      · exact tail.1 access later

/-- Whatever arrives of one upload, in any order and any number, the server waiting
for a command or for data opens only the file of that upload, goes on, and changes no other
file than the one it has open. -/
theorem put_packets_harmless (server : Server) (request : Message) (source : FILE)
    (datagrams : List Datagram) (isPut : request.type = CMD_PUT) (clean : 0 ∉ request.text)
    (running : server.mode ≠ .gone)
    (drawn : ∀ datagram ∈ datagrams,
      datagram.bytes = request.packet ∨ datagram.bytes ∈ (sendFile source).1) :
    (∀ access ∈ runAccesses server datagrams,
      access = .openWrite (lastPart request.text ++ ascii ".received")) ∧
      (serverRun server datagrams).1.mode ≠ .gone ∧
      ∀ path, path ≠ lastPart request.text ++ ascii ".received" → server.mode.Spares path →
        (serverRun server datagrams).1.disk.files path = server.disk.files path := by
  have harmless : ∀ datagram ∈ datagrams, Harmless request.text datagram.bytes := by
    intro datagram member
    rcases drawn datagram member with command | data
    · rw [command]
      exact harmless_packet request isPut clean
    · exact harmless_of_mem_sendFile _ source _ data
  rcases serverRun_harmless server datagrams request.text running harmless with ⟨only, goes⟩
  refine ⟨only, goes, ?_⟩
  intro path other spares
  apply serverRun_untouched server datagrams path spares
  intro opened
  exact other (Access.openWrite.inj (only _ opened))

def strayPut : Message := ⟨CMD_PUT, ascii "x/a", by decide⟩

def strayPackets : List Datagram :=
  [⟨sampleAddress, dataLayout.eofPacket⟩, ⟨sampleAddress, strayPut.packet⟩,
    ⟨sampleAddress, strayPut.packet⟩, ⟨sampleAddress, dataLayout.eofPacket⟩,
    ⟨sampleAddress, dataLayout.eofPacket⟩, ⟨sampleAddress, strayPut.packet⟩]

theorem put_packets_harmless_stray :
    (∀ access ∈ runAccesses ⟨sampleDisk, .idle⟩ strayPackets,
      access = .openWrite (ascii "a.received")) ∧
      (serverRun ⟨sampleDisk, .idle⟩ strayPackets).1.mode ≠ .gone ∧
      ∀ path, path ≠ ascii "a.received" → Mode.idle.Spares path →
        (serverRun ⟨sampleDisk, .idle⟩ strayPackets).1.disk.files path = none := by
  have last : dataLayout.eofPacket ∈ (sendFile sampleFile).1 := by
    obtain ⟨chunks, -, -, packets⟩ := sendFile_sent sampleFile
    rw [packets]
    exact List.mem_append_right _ (List.mem_singleton_self _)
  have drawn : ∀ datagram ∈ strayPackets,
      datagram.bytes = strayPut.packet ∨ datagram.bytes ∈ (sendFile sampleFile).1 := by
    intro datagram member
    simp only [strayPackets, List.mem_cons, List.not_mem_nil, or_false] at member
    rcases member with rfl | rfl | rfl | rfl | rfl | rfl
    · exact Or.inr last
    · exact Or.inl rfl
    · exact Or.inl rfl
    · exact Or.inr last
    · exact Or.inr last
    · exact Or.inl rfl
  exact put_packets_harmless ⟨sampleDisk, .idle⟩ strayPut sampleFile strayPackets rfl (by decide)
    (by simp) drawn

end NetworkSystem.Udp
