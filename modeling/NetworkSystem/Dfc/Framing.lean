import NetworkSystem.Dfc.Failover

/-! Packets over TCP. `recv` returns what has arrived, and neither loop of the
server puts a packet together again: every result, filled up with zeros, is read as
a packet. What follows from that for a stream that TCP cuts at other places. -/

namespace NetworkSystem.Dfc

open Bytes Store

/-- What the server reads after one `recv`. -/
def padded (bytes : Bytes) : Bytes := recvInto (zeros PACKET_SIZE) bytes

/-- A stream of packets and the `recv` results that TCP makes of it. -/
structure Cut (packets cuts : List Bytes) : Prop where
  whole : ∀ pkt ∈ packets, pkt.length = PACKET_SIZE
  stream : cuts.flatten = packets.flatten
  sizes : ∀ bytes ∈ cuts, 0 < bytes.length ∧ bytes.length ≤ PACKET_SIZE

theorem length_flatten_le (size : Nat) (cuts : List Bytes)
    (sizes : ∀ bytes ∈ cuts, bytes.length ≤ size) : cuts.flatten.length ≤ size * cuts.length := by
  induction cuts with
  | nil => exact Nat.le_refl 0
  | cons bytes rest ih =>
      have head := sizes bytes List.mem_cons_self
      have tail := ih (fun other member => sizes other (List.mem_cons_of_mem _ member))
      rw [List.flatten_cons, List.length_append, List.length_cons, Nat.mul_succ]
      omega

theorem lengths_of_flatten (size : Nat) (cuts : List Bytes)
    (sizes : ∀ bytes ∈ cuts, bytes.length ≤ size)
    (total : cuts.flatten.length = size * cuts.length) :
    cuts.map List.length = List.replicate cuts.length size := by
  induction cuts with
  | nil => rfl
  | cons bytes rest ih =>
      have head := sizes bytes List.mem_cons_self
      have others : ∀ other ∈ rest, other.length ≤ size :=
        fun other member => sizes other (List.mem_cons_of_mem _ member)
      have tail := length_flatten_le size rest others
      rw [List.flatten_cons, List.length_append, List.length_cons, Nat.mul_succ] at total
      rw [List.map_cons, List.length_cons, List.replicate_succ, ih others (by omega)]
      congr 1
      omega

namespace Cut

variable {packets cuts : List Bytes} (cut : Cut packets cuts)

include cut in
theorem lengths : packets.map List.length = List.replicate packets.length PACKET_SIZE := by
  apply List.eq_replicate_iff.mpr
  refine ⟨List.length_map _, ?_⟩
  intro size member
  obtain ⟨pkt, inside, rfl⟩ := List.mem_map.mp member
  exact cut.whole pkt inside

include cut in
theorem length_stream : cuts.flatten.length = PACKET_SIZE * packets.length := by
  rw [cut.stream, List.length_flatten, cut.lengths, List.sum_replicate_nat, Nat.mul_comm]

include cut in
theorem packets_le : packets.length ≤ cuts.length := by
  have stream := length_flatten_le PACKET_SIZE cuts (fun bytes member => (cut.sizes bytes member).2)
  rw [cut.length_stream] at stream
  exact Nat.le_of_mul_le_mul_left stream (by decide)

include cut in
theorem eq_of_length (same : cuts.length = packets.length) : cuts = packets := by
  have total := cut.length_stream
  rw [← same] at total
  have sizes := lengths_of_flatten PACKET_SIZE cuts
    (fun bytes member => (cut.sizes bytes member).2) total
  rw [same, ← cut.lengths] at sizes
  exact List.eq_iff_flatten_eq.mpr ⟨cut.stream, sizes⟩

end Cut

def pktType (pkt : Bytes) : UInt8 := pkt.getD 1 0

def isReply (pkt : Bytes) : Bool := pktType pkt = MSG_TYPE

theorem isReply_replyPacket (pkt : Bytes) (verdict : Verdict) :
    isReply (replyPacket pkt verdict) = true := by
  have inside : 1 < PACKET_SIZE := by decide
  simp only [isReply, pktType, replyPacket, buildMsgPacket, getD_take (0 : UInt8) _ _ _ inside,
    getD_store]
  simp

theorem pktType_buildDataPacket (offset : Nat) (data : Option Bytes) (eof : Nat) :
    pktType (dataLayout.buildDataPacket offset data eof) = DATA_TYPE := by
  cases data <;>
    simp only [pktType, DataLayout.buildDataPacket, getD_store] <;>
    simp [dataLayout]

theorem sendFile_no_reply (accepts : Nat → Bool) (fp : FILE) (offset n : Int)
    (key : Option Bytes) :
    ∀ pkt ∈ (sendFile accepts fp offset n key).sent, pktType pkt = DATA_TYPE := by
  -- The invariant of the loop: what has been sent so far are data packets.
  have body : ∀ state : SendState, (∀ pkt ∈ state.sent, pktType pkt = DATA_TYPE) →
      match sendBody accepts key state with
      | .inl next => ∀ pkt ∈ next.sent, pktType pkt = DATA_TYPE
      | .inr (_, last) => ∀ pkt ∈ last.sent, pktType pkt = DATA_TYPE := by
    intro state before
    by_cases more : state.fp.eof = false ∧ (state.n = -1 ∨ state.n > 0)
    · by_cases accepted : accepts state.sent.length = true
      · simp only [sendBody, more, and_self, ↓reduceIte, accepted]
        intro pkt member
        rcases List.mem_append.mp member with old | new
        · exact before pkt old
        · rw [List.mem_singleton.mp new]
          exact pktType_buildDataPacket _ _ _
      · simp only [sendBody, more, and_self, ↓reduceIte, accepted]
        exact before
    · simp only [sendBody, more, ↓reduceIte]
      exact before
  have loop := Loop.run_induction (sendBody accepts key) SendState.measure
    (sendBody_decreases accepts key)
    (motive := fun state result => (∀ pkt ∈ state.sent, pktType pkt = DATA_TYPE) →
      ∀ pkt ∈ result.2.sent, pktType pkt = DATA_TYPE)
    (by
      intro state result returned before
      have kept := body state before
      rw [returned] at kept
      exact kept)
    (by
      intro state next result continued ih before
      have kept := body state before
      rw [continued] at kept
      exact ih kept)
    ⟨fp.fseek offset, n, 0, []⟩ (fun pkt member => absurd member List.not_mem_nil)
  simp only [sendFile]
  split_ifs
  · intro pkt member
    rcases List.mem_append.mp member with old | new
    · exact loop pkt old
    · rw [List.mem_singleton.mp new]
      exact pktType_buildDataPacket _ _ _
  · exact loop
  · exact loop

section replies

variable (users : Users) (accepts : Nat → Nat → Bool)

theorem replies_answer (outcomes : Nat → Bool) (accepted : outcomes 0 = true) (pkt : Bytes)
    (verdict : Verdict) : (answer outcomes pkt verdict).countP isReply = 1 := by
  have reply := isReply_replyPacket pkt verdict
  have alone : [replyPacket pkt verdict].countP isReply = 1 := by
    rw [List.countP_cons_of_pos reply, List.countP_nil]
  simp only [answer, accepted, ↓reduceIte]
  cases verdict.fp with
  | none => exact alone
  | some stream =>
      simp only
      split
      · have data : ∀ pkt ∈ (sendFile (fun k => outcomes (k + 1)) stream.2 0 (-1) none).sent,
            ¬ isReply pkt = true := by
          intro pkt member
          have kind := sendFile_no_reply _ _ _ _ _ pkt member
          rw [isReply, kind]
          decide
        rw [List.countP_cons_of_pos reply, List.countP_eq_zero.mpr data]
      · exact alone

theorem served_step (accepted : ∀ request, accepts request 0 = true) (server : Server)
    (bytes : Bytes) :
    (serverStep users accepts server bytes).1.served =
        server.served + (serverStep users accepts server bytes).2.countP isReply ∧
      (serverStep users accepts server bytes).1.served ≤ server.served + 1 := by
  cases mode : server.mode with
  | idle =>
      have one := replies_answer (accepts server.served) (accepted server.served)
        (recvInto (zeros PACKET_SIZE) bytes)
        (handleRequest users server.disk (recvInto (zeros PACKET_SIZE) bytes))
      simp only [serverStep, mode]
      split
      · exact ⟨by rw [one], Nat.le_refl _⟩
      · exact ⟨by rw [one], Nat.le_refl _⟩
  | receiving path receiver =>
      simp only [serverStep, mode]
      split
      · exact ⟨rfl, Nat.le_succ _⟩
      · exact ⟨rfl, Nat.le_succ _⟩

theorem served_run (accepted : ∀ request, accepts request 0 = true) (server : Server)
    (cuts : List Bytes) :
    (serverRun users accepts server cuts).1.served =
        server.served + (serverRun users accepts server cuts).2.countP isReply ∧
      (serverRun users accepts server cuts).1.served ≤ server.served + cuts.length := by
  induction cuts generalizing server with
  | nil => exact ⟨rfl, Nat.le_refl _⟩
  | cons bytes rest ih =>
      have step := served_step users accepts accepted server bytes
      have tail := ih (serverStep users accepts server bytes).1
      simp only [serverRun, List.countP_append, List.length_cons]
      omega

theorem served_commands (server : Server) (idle : server.mode = .idle) (cuts : List Bytes)
    (commands : ∀ bytes ∈ cuts, msgType (padded bytes) ≠ CMD_PUT) :
    (serverRun users accepts server cuts).1.served = server.served + cuts.length := by
  induction cuts generalizing server with
  | nil => rfl
  | cons bytes rest ih =>
      have noUpload : upload (accepts server.served) (recvInto (zeros PACKET_SIZE) bytes)
          (handleRequest users server.disk (recvInto (zeros PACKET_SIZE) bytes)) = none :=
        if_neg (fun isPut => commands bytes List.mem_cons_self isPut.2)
      have step : (serverStep users accepts server bytes).1 =
          ⟨(handleRequest users server.disk (recvInto (zeros PACKET_SIZE) bytes)).disk, .idle,
            server.served + 1⟩ := by
        simp only [serverStep, idle, noUpload]
      have tail := ih (serverStep users accepts server bytes).1 (by rw [step])
        (fun other member => commands other (List.mem_cons_of_mem _ member))
      simp only [serverRun, List.length_cons]
      rw [tail, step, Nat.add_assoc, Nat.add_comm 1]

/-- At most one reply for each `recv` result, and exactly one where nothing is
uploaded. -/
theorem replies_run (accepted : ∀ request, accepts request 0 = true) (server : Server)
    (idle : server.mode = .idle) (cuts : List Bytes) :
    (serverRun users accepts server cuts).2.countP isReply ≤ cuts.length ∧
      ((∀ bytes ∈ cuts, msgType (padded bytes) ≠ CMD_PUT) →
        (serverRun users accepts server cuts).2.countP isReply = cuts.length) := by
  have served := served_run users accepts accepted server cuts
  refine ⟨by omega, fun commands => ?_⟩
  have all := served_commands users accepts server idle cuts commands
  omega

end replies

/-! A packet of an upload that comes in pieces. -/

/-- The first piece reads as the packet it is the front of, and the others read as
packets without data. -/
structure Split (pkt first : Bytes) (others : List Bytes) : Prop where
  pieces : first ++ others.flatten = pkt
  data : dataLayout.eof pkt ≠ 1
  front : dataLayout.eof (padded first) ≠ 1
  write : Receiver.write dataLayout none (padded first) =
    Receiver.write dataLayout none (padded pkt)
  empty : ∀ piece ∈ others, dataLayout.eof (padded piece) ≠ 1 ∧
    dataLayout.dataLen (padded piece) = 0

theorem padded_zeros (count : Nat) (bound : count ≤ PACKET_SIZE) :
    padded (zeros count) = zeros PACKET_SIZE := by
  have sum : count + (PACKET_SIZE - count) = PACKET_SIZE := by omega
  simp only [padded, recvInto, zeros, List.length_replicate, List.drop_replicate,
    List.replicate_append_replicate, sum]

theorem getLE_load_zeros (size pos count : Nat) : getLE (load (zeros size) pos count) = 0 := by
  simp only [load, zeros, List.drop_replicate, List.take_replicate]
  exact getLE_zeros _

theorem split_zeros (pkt : Bytes) (others : List Bytes) (front : Nat)
    (whole : pkt.length = PACKET_SIZE) (data : dataLayout.eof pkt ≠ 1)
    (tail : pkt.drop front = zeros (PACKET_SIZE - front)) (pieces : others.flatten = pkt.drop front)
    (sizes : ∀ piece ∈ others, piece.length ≤ PACKET_SIZE) :
    Split pkt (pkt.take front) others := by
  have filled : padded (pkt.take front) = pkt := by
    by_cases inside : front ≤ PACKET_SIZE
    · have size : (pkt.take front).length = front := by rw [List.length_take]; omega
      have rest : (zeros PACKET_SIZE).drop front = pkt.drop front := by
        rw [tail, zeros, List.drop_replicate, zeros]
      rw [padded, recvInto, size, rest, List.take_append_drop]
    · rw [List.take_of_length_le (by omega), padded, recvInto_whole pkt whole]
  refine ⟨?_, data, ?_, ?_, ?_⟩
  · rw [pieces, List.take_append_drop]
  · rwa [filled]
  · rw [filled, padded, recvInto_whole pkt whole]
  · intro piece member
    have zero : piece = zeros piece.length := by
      apply List.eq_replicate_iff.mpr
      refine ⟨rfl, fun byte inside => ?_⟩
      have inTail : byte ∈ pkt.drop front := by
        rw [← pieces]
        exact List.mem_flatten.mpr ⟨piece, member, inside⟩
      rw [tail] at inTail
      exact List.eq_of_mem_replicate inTail
    rw [zero, padded_zeros _ (sizes piece member), DataLayout.eof, DataLayout.dataLen,
      getLE_load_zeros, getLE_load_zeros]
    exact ⟨by decide, rfl⟩

theorem drop_buildDataPacket (offset front : Nat) (chunk : Bytes)
    (fits : chunk.length ≤ DATA_SIZE_MAX) (behind : dataLayout.dataAt + chunk.length ≤ front) :
    (dataLayout.buildDataPacket offset (some chunk) 0).drop front =
      zeros (PACKET_SIZE - front) := by
  have size := dataLayout.length_buildDataPacket offset chunk fits
  have layout : dataLayout.packetSize = PACKET_SIZE := rfl
  rw [layout] at size
  apply ext_getD (0 : UInt8)
  · rw [List.length_drop, size, zeros, List.length_replicate]
  · intro index inside
    have dataAt : dataLayout.dataAt = 44 := rfl
    have offsetAt : dataLayout.offsetAt = 40 := rfl
    have lenAt : dataLayout.lenAt = 36 := rfl
    have eofAt : dataLayout.eofAt = 34 := rfl
    simp only [List.getD_eq_getElem?_getD, List.getElem?_drop]
    rw [← List.getD_eq_getElem?_getD, ← List.getD_eq_getElem?_getD]
    simp only [DataLayout.buildDataPacket, getD_store, length_putLE, List.length_singleton]
    rw [if_neg (by omega), if_neg (by omega), if_neg (by omega), if_neg (by omega),
      if_neg (by omega), getD_zeros, getD_zeros]

theorem split_behind_data (offset front : Nat) (chunk : Bytes) (others : List Bytes)
    (fits : chunk.length ≤ DATA_SIZE_MAX) (behind : dataLayout.dataAt + chunk.length ≤ front)
    (pieces : others.flatten = (dataLayout.buildDataPacket offset (some chunk) 0).drop front)
    (sizes : ∀ piece ∈ others, piece.length ≤ PACKET_SIZE) :
    Split (dataLayout.buildDataPacket offset (some chunk) 0)
      ((dataLayout.buildDataPacket offset (some chunk) 0).take front) others := by
  apply split_zeros _ _ _ (dataLayout.length_buildDataPacket offset chunk fits) _
    (drop_buildDataPacket offset front chunk fits behind) pieces sizes
  rw [DataLayout.eof_buildDataPacket]
  decide

/-- Streams of one file that hold the same and know where they are. -/
structure SameFile (one two : Receiver) : Prop where
  first : one.InStep
  second : two.InStep
  content : one.fp.content = two.fp.content

theorem SameFile.store {one two : Receiver} (same : SameFile one two) (pkt other : Bytes)
    (write : Receiver.write dataLayout none other = Receiver.write dataLayout none pkt) :
    SameFile (one.storePacket dataLayout none pkt) (two.storePacket dataLayout none other) := by
  refine ⟨Receiver.storePacket_inStep _ _ _ _ same.first,
    Receiver.storePacket_inStep _ _ _ _ same.second, ?_⟩
  rw [Receiver.storePacket_content _ _ _ _ same.first,
    Receiver.storePacket_content _ _ _ _ same.second, same.content, write]

theorem SameFile.skip {one two : Receiver} (same : SameFile one two) (piece : Bytes)
    (empty : dataLayout.dataLen piece = 0) :
    SameFile one (two.storePacket dataLayout none piece) := by
  have nothing : (Receiver.write dataLayout none piece).2 = [] := by
    apply List.eq_nil_of_length_eq_zero
    rw [Receiver.write, length_applyKey, DataLayout.length_data, empty]
  refine ⟨same.first, Receiver.storePacket_inStep _ _ _ _ same.second, ?_⟩
  rw [Receiver.storePacket_content _ _ _ _ same.second, nothing, store_nil, same.content]

theorem SameFile.close {one two : Receiver} (same : SameFile one two) (disk : Disk) (path : Bytes) :
    (disk.leave path one.fp).close path one.fp = (disk.leave path two.fp).close path two.fp := by
  rw [Disk.close_leave, Disk.close_leave, Disk.close, Disk.close, same.content]

/-- Servers that differ at most in where an open stream stands. -/
inductive Alike : Server → Server → Prop
  | idle (disk : Disk) (served : Nat) : Alike ⟨disk, .idle, served⟩ ⟨disk, .idle, served⟩
  | receiving (disk : Disk) (path : Bytes) (served : Nat) (one two : Receiver)
      (same : SameFile one two) :
      Alike ⟨disk.leave path one.fp, .receiving path one, served⟩
        ⟨disk.leave path two.fp, .receiving path two, served⟩

theorem runCommand_fp (disk : Disk) (pkt path : Bytes) (fp : FILE)
    (opened : (runCommand disk pkt).fp = some (path, fp)) : fp.pos = 0 := by
  simp only [runCommand, Disk.fopenRead, Disk.fopenWrite] at opened
  split_ifs at opened
  · cases stored : disk.files (setPath (msgUsername pkt) (msgText pkt)) with
    | none =>
        rw [stored] at opened
        cases opened
    | some content =>
        rw [stored] at opened
        cases opened
        rfl
  · cases opened
    rfl

theorem upload_fp (users : Users) (outcomes : Nat → Bool) (disk : Disk) (pkt path : Bytes)
    (fp : FILE) (opened : upload outcomes pkt (handleRequest users disk pkt) = some (path, fp)) :
    fp.pos = 0 := by
  simp only [upload] at opened
  split_ifs at opened
  simp only [handleRequest] at opened
  split_ifs at opened
  exact runCommand_fp _ pkt path fp opened

section alike

variable (users : Users) (accepts : Nat → Nat → Bool)

/-- Alike servers answer a packet with the same replies and stay alike. -/
theorem Alike.step {one two : Server} (alike : Alike one two) (bytes : Bytes) :
    (serverStep users accepts one bytes).2 = (serverStep users accepts two bytes).2 ∧
      Alike (serverStep users accepts one bytes).1 (serverStep users accepts two bytes).1 := by
  cases alike with
  | idle disk served =>
      refine ⟨rfl, ?_⟩
      simp only [serverStep]
      generalize buffered : recvInto (zeros PACKET_SIZE) bytes = buffer
      cases opened : upload (accepts served) buffer (handleRequest users disk buffer) with
      | none => exact Alike.idle _ _
      | some stream =>
          have atStart : (Receiver.start stream.2).InStep :=
            upload_fp users (accepts served) disk buffer stream.1 stream.2 opened
          exact Alike.receiving _ _ _ _ _ ⟨atStart, atStart, rfl⟩
  | receiving disk path served first second same =>
      simp only [serverStep]
      by_cases ended : dataLayout.eof (recvInto (zeros PACKET_SIZE) bytes) = 1
      · simp only [ended, ↓reduceIte, same.close disk path]
        exact ⟨trivial, Alike.idle _ _⟩
      · simp only [ended, ↓reduceIte, Disk.leave_leave]
        exact ⟨trivial, Alike.receiving _ _ _ _ _ (same.store _ _ rfl)⟩

theorem serverRun_append (server : Server) (first second : List Bytes) :
    serverRun users accepts server (first ++ second) =
      let head := serverRun users accepts server first
      let tail := serverRun users accepts head.1 second
      (tail.1, head.2 ++ tail.2) := by
  induction first generalizing server with
  | nil => rfl
  | cons bytes rest ih =>
      simp only [List.cons_append, serverRun, ih, List.append_assoc]

theorem Alike.empties (disk : Disk) (path : Bytes) (served : Nat) (first second : Receiver)
    (same : SameFile first second) (others : List Bytes)
    (empty : ∀ piece ∈ others, dataLayout.eof (padded piece) ≠ 1 ∧
      dataLayout.dataLen (padded piece) = 0) :
    let run := serverRun users accepts
      ⟨disk.leave path second.fp, .receiving path second, served⟩ others
    run.2 = [] ∧ Alike ⟨disk.leave path first.fp, .receiving path first, served⟩ run.1 := by
  induction others generalizing second with
  | nil => exact ⟨rfl, Alike.receiving _ _ _ _ _ same⟩
  | cons piece rest ih =>
      have head := empty piece List.mem_cons_self
      have open_ : ¬ dataLayout.eof (recvInto (zeros PACKET_SIZE) piece) = 1 := head.1
      simp only [serverRun, serverStep, open_, ↓reduceIte, Disk.leave_leave, List.nil_append]
      exact ih _ (same.skip (padded piece) head.2)
        (fun other member => empty other (List.mem_cons_of_mem _ member))

/-- A packet of an upload and its pieces leave the servers alike. -/
theorem Alike.split {disk : Disk} {path : Bytes} {served : Nat} {receiver : Receiver}
    {two : Server} (alike : Alike ⟨disk, .receiving path receiver, served⟩ two)
    {pkt first : Bytes} {others : List Bytes} (split : Split pkt first others)
    (whole : pkt.length = PACKET_SIZE) :
    let server : Server := ⟨disk, .receiving path receiver, served⟩
    let run := serverRun users accepts two (first :: others)
    (serverStep users accepts server pkt).2 = run.2 ∧
      Alike (serverStep users accepts server pkt).1 run.1 := by
  cases alike with
  | receiving disk path served one two same =>
      have front : ¬ dataLayout.eof (recvInto (zeros PACKET_SIZE) first) = 1 := split.front
      have data : ¬ dataLayout.eof (recvInto (zeros PACKET_SIZE) pkt) = 1 := by
        rw [recvInto_whole pkt whole]
        exact split.data
      have rest := Alike.empties users accepts disk path served _ _
        (same.store (padded pkt) (padded first) split.write) others split.empty
      simp only [serverRun, serverStep, front, data, ↓reduceIte, Disk.leave_leave, List.nil_append]
      exact ⟨rest.1.symm, rest.2⟩

/-- The streams that the server reads as it reads whole packets: what the command
loop takes comes whole, and a packet of an upload comes whole or in the pieces of a
`Split`. -/
inductive Framed : Server → List Bytes → List Bytes → Prop
  | nil (server : Server) : Framed server [] []
  | whole (server : Server) (pkt : Bytes) (packets cuts : List Bytes)
      (rest : Framed (serverStep users accepts server pkt).1 packets cuts) :
      Framed server (pkt :: packets) (pkt :: cuts)
  | split (disk : Disk) (path : Bytes) (receiver : Receiver) (served : Nat) (pkt first : Bytes)
      (others packets cuts : List Bytes) (pieces : Split pkt first others)
      (size : pkt.length = PACKET_SIZE)
      (rest : Framed
        (serverStep users accepts ⟨disk, .receiving path receiver, served⟩ pkt).1 packets cuts) :
      Framed ⟨disk, .receiving path receiver, served⟩ (pkt :: packets) (first :: others ++ cuts)

theorem Framed.run {server other : Server} {packets cuts : List Bytes}
    (framed : Framed users accepts server packets cuts) (alike : Alike server other) :
    (serverRun users accepts server packets).2 = (serverRun users accepts other cuts).2 ∧
      Alike (serverRun users accepts server packets).1 (serverRun users accepts other cuts).1 := by
  induction framed generalizing other with
  | nil server => exact ⟨rfl, alike⟩
  | whole server pkt packets cuts rest ih =>
      have step := alike.step users accepts pkt
      have tail := ih step.2
      simp only [serverRun]
      rw [step.1, tail.1]
      exact ⟨rfl, tail.2⟩
  | split disk path receiver served pkt first others packets cuts pieces size rest ih =>
      have step := alike.split users accepts pieces size
      have tail := ih step.2
      rw [serverRun_append]
      simp only [serverRun] at step tail ⊢
      rw [step.1, tail.1]
      exact ⟨rfl, tail.2⟩

theorem Alike.ended {one two : Server} (alike : Alike one two) (fault : Fault) :
    serverEnd (some fault) one = serverEnd (some fault) two := by
  cases alike with
  | idle disk served => rfl
  | receiving disk path served first second same =>
      exact same.close disk path

end alike

/-- How the cuts of TCP matter to a connection: a stream that is `Framed` is served
as if every packet came whole, and a stream without uploads only if every packet does
come whole. -/
theorem connection_framing (users : Users) (accepts : Nat → Nat → Bool) (disk : Disk)
    (ending : Option Fault) (packets cuts : List Bytes) (cut : Cut packets cuts) :
    let whole := connectionHandler users accepts ⟨disk, 0, [], ⟨packets, ending⟩⟩
    let pieces := connectionHandler users accepts ⟨disk, 0, [], ⟨cuts, ending⟩⟩
    (Framed users accepts ⟨disk, .idle, 0⟩ packets cuts →
      pieces.sent = whole.sent ∧ (ending ≠ none → pieces.disk = whole.disk)) ∧
    ((∀ request, accepts request 0 = true) →
      (∀ bytes ∈ cuts, msgType (padded bytes) ≠ CMD_PUT) →
      (pieces.sent = whole.sent ↔ cuts = packets)) := by
  simp only [connectionHandler_eq, List.nil_append]
  constructor
  · intro framed
    have run := framed.run users accepts (Alike.idle disk 0)
    refine ⟨run.1.symm, fun closed => ?_⟩
    cases ending with
    | none => exact absurd rfl closed
    | some fault => exact (run.2.ended fault).symm
  · intro accepted commands
    constructor
    · intro same
      have atMost := (replies_run users accepts accepted ⟨disk, .idle, 0⟩ rfl packets).1
      have taken := (replies_run users accepts accepted ⟨disk, .idle, 0⟩ rfl cuts).2 commands
      have atLeast := cut.packets_le
      rw [same] at taken
      exact cut.eq_of_length (by omega)
    · intro same
      rw [same]

def sampleUsers : Users := [(sampleUser.username, sampleUser.password)]

def putRequest : Bytes := buildMsgPacket CMD_PUT 0 (some [102]) (some sampleUser)

def dataPacket : Bytes := dataLayout.buildDataPacket 0 (some [1, 2, 3]) 0

def uploadCuts : List Bytes :=
  [putRequest, dataPacket.take 100, (dataPacket.drop 100).take 60, dataPacket.drop 160,
    dataLayout.eofPacket]

theorem connection_framing_upload :
    let whole := connectionHandler sampleUsers (fun _ _ => true)
      ⟨sampleDisk, 0, [], ⟨[putRequest, dataPacket, dataLayout.eofPacket], some .closed⟩⟩
    let pieces := connectionHandler sampleUsers (fun _ _ => true)
      ⟨sampleDisk, 0, [], ⟨uploadCuts, some .closed⟩⟩
    pieces.sent = whole.sent ∧ pieces.disk = whole.disk := by
  have cut : Cut [putRequest, dataPacket, dataLayout.eofPacket] uploadCuts :=
    ⟨by decide +kernel, by decide +kernel, by decide +kernel⟩
  have text : msgText putRequest = [102] := by decide +kernel
  have step : ∃ disk path receiver served, serverStep sampleUsers (fun _ _ => true)
      ⟨sampleDisk, .idle, 0⟩ putRequest = (⟨disk, .receiving path receiver, served⟩,
        (serverStep sampleUsers (fun _ _ => true) ⟨sampleDisk, .idle, 0⟩ putRequest).2) := by
    have admits : Admits sampleUsers sampleDisk sampleUser := ⟨by decide, by decide⟩
    have carries : Carries sampleUser CMD_PUT putRequest := carries_build _ _ _ _
    rcases serverStep_put 0 admits carries (by rw [text]; decide) rfl rfl with ⟨reply, -, -, run⟩
    rw [run]
    exact ⟨_, _, _, _, rfl⟩
  have framed : Framed sampleUsers (fun _ _ => true) ⟨sampleDisk, .idle, 0⟩
      [putRequest, dataPacket, dataLayout.eofPacket] uploadCuts := by
    apply Framed.whole
    rcases step with ⟨disk, path, receiver, served, run⟩
    rw [run]
    apply Framed.split _ _ _ _ _ _ [(dataPacket.drop 100).take 60, dataPacket.drop 160]
    · exact split_behind_data 0 100 [1, 2, 3] _ (by decide) (by decide) (by decide +kernel)
        (by decide +kernel)
    · decide +kernel
    · exact Framed.whole _ _ _ _ (Framed.nil _)
  have framing := (connection_framing sampleUsers (fun _ _ => true) sampleDisk (some .closed) _ _
    cut).1 framed
  exact ⟨framing.1, framing.2 (by decide)⟩

def lsRequest : Bytes := buildMsgPacket CMD_LS 0 (some []) (some sampleUser)

/-- A request that comes in two pieces is answered twice. -/
theorem request_in_pieces :
    let whole := connectionHandler sampleUsers (fun _ _ => true)
      ⟨sampleDisk, 0, [], ⟨[lsRequest], some .closed⟩⟩
    let pieces := connectionHandler sampleUsers (fun _ _ => true)
      ⟨sampleDisk, 0, [], ⟨[lsRequest.take 100, lsRequest.drop 100], some .closed⟩⟩
    Cut [lsRequest] [lsRequest.take 100, lsRequest.drop 100] ∧
      whole.sent.countP isReply = 1 ∧ pieces.sent.countP isReply = 2 := by
  simp only [connectionHandler_eq, List.nil_append]
  refine ⟨⟨by decide +kernel, by decide +kernel, by decide +kernel⟩, ?_, ?_⟩
  · exact (replies_run sampleUsers _ (fun _ => rfl) _ rfl _).2 (by decide +kernel)
  · exact (replies_run sampleUsers _ (fun _ => rfl) _ rfl _).2 (by decide +kernel)

end NetworkSystem.Dfc
