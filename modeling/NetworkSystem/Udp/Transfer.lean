import NetworkSystem.Lib.Loop
import NetworkSystem.Udp.Packet

/-! The file transfer over datagrams: `send_file` and `receive_file` of `util.c`.
Nothing is acknowledged; the file is sent three times. -/

namespace NetworkSystem.Udp

open Bytes Store Blocks

/-- `struct sockaddr_in`, as far as it tells two clients apart. -/
structure Address where
  host : UInt32
  port : UInt16
  deriving DecidableEq, Repr

/-- What one `recvfrom` takes from the socket. -/
structure Datagram where
  addr : Address
  bytes : Bytes

/-- `recvfrom` fills the front of the buffer and drops what does not fit. -/
def recvfrom (buffer bytes : Bytes) : Bytes := bytes.take buffer.length ++ buffer.drop bytes.length

/-- The variables of one pass of `send_file` and the packets it has sent. -/
structure PassState where
  fp : FILE
  offset : Nat
  sent : List Bytes

def PassState.measure (state : PassState) : Nat :=
  (state.fp.content.length - state.fp.pos) + (if state.fp.eof then 0 else 1)

def PassState.remaining (state : PassState) : Bytes :=
  if state.fp.eof then [] else state.fp.content.drop state.fp.pos

/-- The body of the `feof` loop. What `sendto` returns is ignored. -/
def passBody (state : PassState) : PassState ⊕ PassState :=
  if state.fp.eof = false then
    let (data, fp) := state.fp.fread DATA_SIZE_MAX
    .inl { fp
           offset := (state.offset + data.length) % 2 ^ 32
           sent := state.sent ++ [dataLayout.buildDataPacket state.offset (some data) 0] }
  else .inr state

theorem passBody_decreases (state next : PassState) (continued : passBody state = .inl next) :
    next.measure < state.measure := by
  simp only [passBody] at continued
  split at continued
  · rename_i open_
    rw [← Sum.inl.inj continued]
    simp only [PassState.measure, FILE.fread, length_load, open_, Bool.false_or,
      Bool.false_eq_true, ↓reduceIte, decide_eq_true_eq, DATA_SIZE_MAX]
    split <;> omega
  · cases continued

/-- One run of the `for` loop. -/
def sendPass (fp : FILE) : PassState :=
  Loop.run passBody PassState.measure passBody_decreases ⟨fp.fseek 0, 0, []⟩

def sendPasses : Nat → FILE → List Bytes × FILE
  | 0, fp => ([], fp)
  | passes + 1, fp =>
      let pass := sendPass fp
      let (later, last) := sendPasses passes pass.fp
      (pass.sent ++ later, last)

/-- `send_file` on an opened stream: the packets it sends, and the stream. -/
def sendFile (fp : FILE) : List Bytes × FILE :=
  let (packets, fp) := sendPasses 3 fp
  (packets ++ [dataLayout.eofPacket], fp)

structure ReceiveResult where
  /-- Whether the call has returned; otherwise it waits in `recvfrom`. -/
  returned : Bool
  fp : FILE
  addr : Address
  rest : List Datagram

def receiveLoop : Receiver → Address → List Datagram → ReceiveResult
  | receiver, addr, [] => ⟨false, receiver.fp, addr, []⟩
  | receiver, _, datagram :: rest =>
      let buffer := recvfrom (zeros PACKET_SIZE) datagram.bytes
      if dataLayout.eof buffer = 1 then ⟨true, receiver.fp, datagram.addr, rest⟩
      else receiveLoop (receiver.storePacket dataLayout none buffer) datagram.addr rest

/-- `receive_file` on an opened stream. -/
def receiveFile (fp : FILE) (addr : Address) (datagrams : List Datagram) : ReceiveResult :=
  receiveLoop (Receiver.start fp) addr datagrams

theorem passBody_remaining (state next : PassState) (continued : passBody state = .inl next) :
    ∃ chunk, chunk.length ≤ DATA_SIZE_MAX ∧ state.remaining = chunk ++ next.remaining ∧
      next.sent = state.sent ++ [dataLayout.buildDataPacket state.offset (some chunk) 0] ∧
      next.offset = (state.offset + chunk.length) % 2 ^ 32 ∧
      next.fp.content = state.fp.content := by
  simp only [passBody] at continued
  split at continued
  case isFalse => cases continued
  case isTrue open_ =>
    let chunk := load state.fp.content state.fp.pos DATA_SIZE_MAX
    have size : chunk.length = min DATA_SIZE_MAX (state.fp.content.length - state.fp.pos) :=
      length_load _ _ _
    rw [← Sum.inl.inj continued]
    refine ⟨chunk, by omega, ?_, rfl, rfl, rfl⟩
    have parts : chunk ++ state.fp.content.drop (state.fp.pos + chunk.length) =
        state.fp.content.drop state.fp.pos :=
      (drop_of_load (load_of_length state.fp.content state.fp.pos DATA_SIZE_MAX)).symm
    simp only [PassState.remaining, FILE.fread, open_, Bool.false_eq_true, ↓reduceIte,
      Bool.false_or, decide_eq_true_eq]
    split
    · rename_i short
      change chunk.length < DATA_SIZE_MAX at short
      rw [← parts, List.drop_eq_nil_of_le (by omega : state.fp.content.length ≤
        state.fp.pos + chunk.length)]
    · exact parts.symm

theorem sendPass_sent (fp : FILE) :
    ∃ chunks, (∀ chunk ∈ chunks, chunk.length ≤ DATA_SIZE_MAX) ∧ chunks.flatten = fp.content ∧
      (sendPass fp).sent = dataLayout.dataPackets none 0 chunks ∧
      (sendPass fp).fp.content = fp.content := by
  have loop := Loop.run_induction passBody PassState.measure passBody_decreases
    (fun state result => ∃ chunks, (∀ chunk ∈ chunks, chunk.length ≤ DATA_SIZE_MAX) ∧
      chunks.flatten = state.remaining ∧
      result.sent = state.sent ++ dataLayout.dataPackets none state.offset chunks ∧
      result.fp.content = state.fp.content)
    (by
      intro state result returned
      simp only [passBody] at returned
      split at returned
      · cases returned
      · rename_i ended
        rw [← Sum.inr.inj returned]
        refine ⟨[], by simp, ?_, by simp [DataLayout.dataPackets], rfl⟩
        simp only [PassState.remaining, List.flatten_nil]
        rw [if_pos (by simpa using ended)])
    (by
      intro state next result continued ih
      rcases passBody_remaining state next continued with ⟨chunk, small, parts, sent, offset, same⟩
      rcases ih with ⟨chunks, bounds, flat, later, content⟩
      refine ⟨chunk :: chunks, ?_, ?_, ?_, content.trans same⟩
      · intro other member
        rcases List.mem_cons.mp member with rfl | member
        · exact small
        · exact bounds other member
      · rw [List.flatten_cons, flat, parts]
      · rw [later, sent, offset, DataLayout.dataPackets, List.append_assoc,
          List.singleton_append]
        rfl)
    ⟨fp.fseek 0, 0, []⟩
  rcases loop with ⟨chunks, small, flat, sent, content⟩
  refine ⟨chunks, small, ?_, sent, content.trans (FILE.fseek_content fp 0)⟩
  rw [flat]
  rfl

theorem sendPass_congr (one two : FILE) (same : one.content = two.content) :
    (sendPass one).sent = (sendPass two).sent := by
  have start : one.fseek 0 = two.fseek 0 := by
    simp only [FILE.fseek, same]
    rfl
  rw [sendPass, sendPass, start]

theorem sendPasses_sent (passes : Nat) (fp : FILE) :
    (sendPasses passes fp).1 = (List.replicate passes (sendPass fp).sent).flatten := by
  induction passes generalizing fp with
  | zero => rfl
  | succ passes ih =>
      rcases sendPass_sent fp with ⟨-, -, -, -, content⟩
      simp only [sendPasses]
      rw [ih, sendPass_congr _ _ content, List.replicate_succ, List.flatten_cons]

/-- `send_file` sends the data packets of the chunks three times, then the packet
that ends the file. -/
theorem sendFile_sent (fp : FILE) :
    ∃ chunks, (∀ chunk ∈ chunks, chunk.length ≤ DATA_SIZE_MAX) ∧ chunks.flatten = fp.content ∧
      (sendFile fp).1 = (List.replicate 3 (dataLayout.dataPackets none 0 chunks)).flatten ++
        [dataLayout.eofPacket] := by
  rcases sendPass_sent fp with ⟨chunks, small, flat, sent, -⟩
  refine ⟨chunks, small, flat, ?_⟩
  simp only [sendFile, sendPasses_sent, sent]

theorem recvfrom_whole (pkt : Bytes) (whole : pkt.length = PACKET_SIZE) :
    recvfrom (zeros PACKET_SIZE) pkt = pkt := by
  have size : (zeros PACKET_SIZE).length = PACKET_SIZE := List.length_replicate
  rw [recvfrom, size, whole, List.take_of_length_le (Nat.le_of_eq whole),
    List.drop_eq_nil_of_le (Nat.le_of_eq size), List.append_nil]

theorem receiveLoop_append (receiver : Receiver) (addr : Address) (datagrams rest : List Datagram)
    (data : ∀ datagram ∈ datagrams, datagram.bytes.length = PACKET_SIZE ∧
      dataLayout.eof datagram.bytes ≠ 1) :
    ∃ last, receiveLoop receiver addr (datagrams ++ rest) =
      receiveLoop (receiver.storePackets dataLayout none (datagrams.map Datagram.bytes)) last
        rest := by
  induction datagrams generalizing receiver addr with
  | nil => exact ⟨addr, rfl⟩
  | cons datagram datagrams ih =>
      have head := data datagram List.mem_cons_self
      rw [List.cons_append, receiveLoop, recvfrom_whole _ head.1]
      simp only [head.2, ↓reduceIte]
      exact ih _ _ (fun next member => data next (List.mem_cons_of_mem _ member))

theorem receiveLoop_eof (receiver : Receiver) (addr : Address) (datagram : Datagram)
    (rest : List Datagram) (isEof : datagram.bytes = dataLayout.eofPacket) :
    receiveLoop receiver addr (datagram :: rest) = ⟨true, receiver.fp, datagram.addr, rest⟩ := by
  rw [receiveLoop, isEof, recvfrom_whole _ dataLayout.length_eofPacket, DataLayout.eof_eofPacket,
    if_pos rfl]

/-- Whatever data packets come before the packet that ends the file, the file is
what their writes leave. -/
theorem receiveFile_replay (fp : FILE) (addr : Address) (datagrams rest : List Datagram)
    (last : Datagram) (atStart : fp.pos = 0) (isEof : last.bytes = dataLayout.eofPacket)
    (data : ∀ datagram ∈ datagrams, datagram.bytes.length = PACKET_SIZE ∧
      dataLayout.eof datagram.bytes ≠ 1) :
    let result := receiveFile fp addr (datagrams ++ last :: rest)
    result.returned = true ∧ result.rest = rest ∧
      result.fp.content = replay 0 fp.content
        ((datagrams.map Datagram.bytes).map (Receiver.write dataLayout none)) := by
  rcases receiveLoop_append (Receiver.start fp) addr datagrams (last :: rest) data with
    ⟨before, run⟩
  simp only [receiveFile]
  rw [run, receiveLoop_eof _ _ _ _ isEof]
  exact ⟨rfl, rfl, Receiver.storePackets_content dataLayout none _ _ atStart⟩

/-- The packets of a file write what the file has at their places, and together they
reach every place. -/
theorem dataPackets_file (content : Bytes) (chunks : List Bytes)
    (small : ∀ chunk ∈ chunks, chunk.length ≤ DATA_SIZE_MAX) (flat : chunks.flatten = content)
    (bound : content.length < 2 ^ 32) :
    (∀ pkt ∈ dataLayout.dataPackets none 0 chunks,
      Agrees content (Receiver.write dataLayout none pkt)) ∧
    ∀ index, index < content.length → ∃ pkt ∈ dataLayout.dataPackets none 0 chunks,
      Covers (Receiver.write dataLayout none pkt) index := by
  have size : chunks.flatten.length = content.length := congrArg List.length flat
  have writes := dataLayout.dataPackets_writes none none 0 chunks small (by omega)
  have plain : chunks.map (fun chunk => applyKey none (applyKey none chunk)) = chunks :=
    List.map_id chunks
  rw [plain] at writes
  constructor
  · intro pkt member
    apply placed_agrees content 0 chunks flat.symm
    rw [← writes]
    exact List.mem_map_of_mem member
  · intro index inside
    rcases placed_covers 0 chunks index (Nat.zero_le _) (by omega) with ⟨write, member, covers⟩
    rw [← writes] at member
    obtain ⟨pkt, sent, rfl⟩ := List.mem_map.mp member
    exact ⟨pkt, sent, covers⟩

/-- The packets of a file bring the file, as long as it is not longer than the offsets
reach. -/
theorem replay_of_drawn (source : FILE) (bound : source.content.length < 2 ^ 32)
    {data : List Bytes}
    (drawn : ∀ pkt ∈ data, pkt ∈ (sendFile source).1 ∧ dataLayout.eof pkt ≠ 1)
    (complete : ∀ pkt ∈ (sendFile source).1, dataLayout.eof pkt ≠ 1 →
      dataLayout.dataLen pkt ≠ 0 → pkt ∈ data) :
    (∀ pkt ∈ data, pkt.length = PACKET_SIZE ∧ dataLayout.eof pkt ≠ 1) ∧
      replay 0 [] (data.map (Receiver.write dataLayout none)) = source.content := by
  rcases sendFile_sent source with ⟨blocks, small, flat, sent⟩
  have facts := dataPackets_file source.content blocks small flat bound
  have whole := dataLayout.dataPackets_whole none 0 blocks small
  have inPass : ∀ pkt ∈ data, pkt ∈ dataLayout.dataPackets none 0 blocks := by
    intro pkt member
    have known := drawn pkt member
    rw [sent] at known
    rcases List.mem_append.mp known.1 with inside | ended
    · obtain ⟨pass, repeated, inside⟩ := List.mem_flatten.mp inside
      rwa [List.eq_of_mem_replicate repeated] at inside
    · rw [List.mem_singleton.mp ended] at known
      exact absurd dataLayout.eof_eofPacket known.2
  have inSent : ∀ pkt ∈ dataLayout.dataPackets none 0 blocks, pkt ∈ (sendFile source).1 := by
    intro pkt member
    rw [sent]
    apply List.mem_append_left
    exact List.mem_flatten.mpr ⟨_, List.mem_replicate.mpr ⟨by decide, rfl⟩, member⟩
  constructor
  · intro pkt member
    exact whole pkt (inPass pkt member)
  · -- What arrives agrees with the source and covers it, so its order does not matter.
    apply replay_of_cover
    · intro write member
      obtain ⟨pkt, inside, rfl⟩ := List.mem_map.mp member
      exact facts.1 pkt (inPass pkt inside)
    · intro index inside
      rcases facts.2 index inside with ⟨pkt, member, covers⟩
      have filled : dataLayout.dataLen pkt ≠ 0 := by
        intro empty
        simp only [Covers, Receiver.write, length_applyKey, DataLayout.length_data, empty] at covers
        omega
      have arrived := complete pkt (inSent pkt member) (whole pkt member).2 filled
      exact ⟨_, List.mem_map_of_mem arrived, covers⟩

/-- Loss, duplication and reordering: as long as every chunk comes before the packet
that ends the file, the received file is the sent one. -/
theorem receive_any_order (source : FILE) (addr : Address) (delivered rest : List Datagram)
    (last : Datagram) (bound : source.content.length < 2 ^ 32)
    (emitted : ∀ datagram ∈ delivered,
      datagram.bytes ∈ (sendFile source).1 ∧ dataLayout.eof datagram.bytes ≠ 1)
    (chunks : ∀ pkt ∈ (sendFile source).1, dataLayout.eof pkt ≠ 1 → dataLayout.dataLen pkt ≠ 0 →
      ∃ datagram ∈ delivered, datagram.bytes = pkt)
    (isEof : last.bytes = dataLayout.eofPacket) :
    let result := receiveFile (FILE.opened []) addr (delivered ++ last :: rest)
    result.returned = true ∧ result.rest = rest ∧ result.fp.content = source.content := by
  have facts : (∀ pkt ∈ delivered.map Datagram.bytes,
      pkt.length = PACKET_SIZE ∧ dataLayout.eof pkt ≠ 1) ∧
        replay 0 [] ((delivered.map Datagram.bytes).map (Receiver.write dataLayout none)) =
          source.content := by
    apply replay_of_drawn source bound
    · intro pkt member
      obtain ⟨datagram, inside, rfl⟩ := List.mem_map.mp member
      exact emitted datagram inside
    · intro pkt sent notEof filled
      obtain ⟨datagram, arrived, rfl⟩ := chunks pkt sent notEof filled
      exact List.mem_map_of_mem arrived
  rcases receiveFile_replay (FILE.opened []) addr delivered rest last rfl isEof
    (fun datagram member => facts.1 _ (List.mem_map_of_mem member)) with ⟨returned, left, content⟩
  exact ⟨returned, left, content.trans facts.2⟩

def sampleFile : FILE := FILE.opened (List.replicate 401 7)

def sampleAddress : Address := ⟨1, 2⟩

def samplePacket (offset count : Nat) : Datagram :=
  ⟨sampleAddress, dataLayout.buildDataPacket offset (some (List.replicate count 7)) 0⟩

def sampleDelivery : List Datagram := [samplePacket 400 1, samplePacket 0 400, samplePacket 400 1]

theorem receive_any_order_swapped :
    (receiveFile (FILE.opened []) sampleAddress
      (sampleDelivery ++ [⟨sampleAddress, dataLayout.eofPacket⟩])).fp.content =
        sampleFile.content := by
  have received := receive_any_order sampleFile sampleAddress sampleDelivery []
    ⟨sampleAddress, dataLayout.eofPacket⟩ (by decide +kernel) (by decide +kernel)
    (by decide +kernel) rfl
  exact received.2.2

end NetworkSystem.Udp
