import NetworkSystem.DataLengths

/-! The seeks of both `receive_file`: a position that is kept beside the stream against
a seek before every write. -/

namespace NetworkSystem

open Bytes Store

def placePacket (layout : DataLayout) (key : Option Bytes) (fp : FILE) (pkt : Bytes) : FILE :=
  (fp.fseek (layout.offset pkt : Int)).fwrite (applyKey key (layout.data pkt))

def placePackets (layout : DataLayout) (key : Option Bytes) (fp : FILE)
    (pkts : List Bytes) : FILE :=
  pkts.foldl (placePacket layout key) fp

namespace DataLayout

variable (layout : DataLayout)

theorem offset_lt (pkt : Bytes) : layout.offset pkt < 2 ^ 32 := by
  have short : (load pkt layout.offsetAt 4).length ≤ 4 := List.length_take_le _ _
  calc layout.offset pkt < 256 ^ (load pkt layout.offsetAt 4).length := getLE_lt _
    _ ≤ 256 ^ 4 := Nat.pow_le_pow_right (by decide) short

theorem dataLen_lt (pkt : Bytes) : layout.dataLen pkt < 2 ^ 16 := by
  have short : (load pkt layout.lenAt 2).length ≤ 2 := List.length_take_le _ _
  calc layout.dataLen pkt < 256 ^ (load pkt layout.lenAt 2).length := getLE_lt _
    _ ≤ 256 ^ 2 := Nat.pow_le_pow_right (by decide) short

end DataLayout

namespace Receiver

/-- The receiver's position is that of its own stream, and both streams are on the same
file at the same place; they may differ in the end-of-file indicator. -/
structure Follows (receiver : Receiver) (fp : FILE) : Prop where
  inStep : receiver.InStep
  content : receiver.fp.content = fp.content
  pos : receiver.fp.pos = fp.pos

variable (layout : DataLayout) (key : Option Bytes)

theorem Follows.storePacket {receiver : Receiver} {fp : FILE} (follows : Follows receiver fp)
    (pkt : Bytes) :
    Follows (receiver.storePacket layout key pkt) (placePacket layout key fp pkt) where
  inStep := storePacket_inStep layout key receiver pkt follows.inStep
  content := by
    rw [storePacket_content layout key receiver pkt follows.inStep, follows.content, placePacket,
      FILE.fseek_natCast]
    rfl
  pos := by
    have inStep := storePacket_inStep layout key receiver pkt follows.inStep
    have moved : (receiver.storePacket layout key pkt).pos =
        layout.offset pkt + layout.dataLen pkt := by
      by_cases same : layout.offset pkt = receiver.pos
      · simp only [Receiver.storePacket, same, ne_eq, not_true_eq_false, ↓reduceIte]
      · simp only [Receiver.storePacket, same, ne_eq, not_false_eq_true, ↓reduceIte]
    calc (receiver.storePacket layout key pkt).fp.pos
        = (receiver.storePacket layout key pkt).pos := inStep
      _ = layout.offset pkt + layout.dataLen pkt := moved
      _ = (placePacket layout key fp pkt).pos := by
          simp only [placePacket, FILE.fseek_natCast, FILE.fwrite, length_applyKey,
            DataLayout.length_data]

theorem Follows.storePackets {receiver : Receiver} {fp : FILE} (follows : Follows receiver fp)
    (pkts : List Bytes) :
    Follows (receiver.storePackets layout key pkts) (placePackets layout key fp pkts) := by
  induction pkts generalizing receiver fp with
  | nil => exact follows
  | cons pkt rest ih => exact ih (follows.storePacket layout key pkt)

variable (layout : DataLayout) (key : Option Bytes)

theorem pos_storePackets_lt (fp : FILE) (pkts : List Bytes) :
    ((Receiver.start fp).storePackets layout key pkts).pos < 2 ^ 64 := by
  have step : ∀ receiver pkt, receiver.pos < 2 ^ 64 →
      (Receiver.storePacket layout key receiver pkt).pos < 2 ^ 64 := by
    intro receiver pkt bound
    have offset := layout.offset_lt pkt
    have size := layout.dataLen_lt pkt
    by_cases same : layout.offset pkt = receiver.pos
    · simp only [storePacket, same, ne_eq, not_true_eq_false, ↓reduceIte]
      omega
    · simp only [storePacket, same, ne_eq, not_false_eq_true, ↓reduceIte]
      omega
  exact List.foldlRecOn pkts (storePacket layout key) (Nat.two_pow_pos 64)
    (fun receiver bound pkt _ => step receiver pkt bound)

end Receiver

/-- What seeking before every write leaves of the packets is left, and behind each of them
the cached position was the stream's and had room in its 64 bits. -/
structure Positioned (layout : DataLayout) (key : Option Bytes) (fp : FILE) (pkts : List Bytes)
    (left : FILE) : Prop where
  content : left.content = (placePackets layout key fp pkts).content
  pos : left.pos = (placePackets layout key fp pkts).pos
  cached : ∀ front, front <+: pkts →
    ((Receiver.start fp).storePackets layout key front).InStep ∧
      ((Receiver.start fp).storePackets layout key front).pos < 2 ^ 64

theorem positioned_storePackets (layout : DataLayout) (key : Option Bytes) (fp : FILE)
    (start : fp.pos = 0) (pkts : List Bytes) :
    Positioned layout key fp pkts ((Receiver.start fp).storePackets layout key pkts).fp := by
  have first : (Receiver.start fp).Follows fp := ⟨start, rfl, rfl⟩
  have last := first.storePackets layout key pkts
  refine ⟨last.content, last.pos, ?_⟩
  intro front _
  have inStep := (first.storePackets layout key front).inStep
  exact ⟨inStep, Receiver.pos_storePackets_lt layout key fp front⟩

namespace Dfc

theorem receiveLoop_ended (key : Option Bytes) (ending : Option Fault) (receiver : Receiver)
    (packets : List Bytes) (last : Bytes) (rest : List Bytes)
    (data : ∀ pkt ∈ buffers packets, dataLayout.eof pkt ≠ 1)
    (ended : dataLayout.eof (recvInto (zeros PACKET_SIZE) last) = 1) :
    receiveLoop key ending receiver (packets ++ last :: rest) =
      ⟨some 0, (receiver.storePackets dataLayout key (buffers packets)).fp, ⟨rest, ending⟩⟩ := by
  induction packets generalizing receiver with
  | nil =>
      rw [List.nil_append, receiveLoop, if_pos ended]
      rfl
  | cons bytes packets ih =>
      rw [buffers, List.map_cons] at data ⊢
      rw [List.cons_append, receiveLoop]
      generalize recvInto (zeros PACKET_SIZE) bytes = buffer at data ⊢
      rw [List.forall_mem_cons] at data
      rw [if_neg data.1]
      exact ih _ data.2

end Dfc

namespace Udp

theorem receiveLoop_ended (receiver : Receiver) (addr : Address) (datagrams : List Datagram)
    (last : Datagram) (rest : List Datagram)
    (data : ∀ pkt ∈ buffers datagrams, dataLayout.eof pkt ≠ 1)
    (ended : dataLayout.eof (recvfrom (zeros PACKET_SIZE) last.bytes) = 1) :
    receiveLoop receiver addr (datagrams ++ last :: rest) =
      ⟨true, (receiver.storePackets dataLayout none (buffers datagrams)).fp, last.addr, rest⟩ := by
  induction datagrams generalizing receiver addr with
  | nil =>
      rw [List.nil_append, receiveLoop, if_pos ended]
      rfl
  | cons datagram datagrams ih =>
      rw [buffers, List.map_cons] at data ⊢
      rw [List.cons_append, receiveLoop]
      generalize recvfrom (zeros PACKET_SIZE) datagram.bytes = buffer at data ⊢
      rw [List.forall_mem_cons] at data
      rw [if_neg data.1]
      exact ih _ _ data.2

end Udp

/-- Whatever the offsets and lengths of the data packets in front of the one that ends the
file, both programs leave the file that a seek before every write leaves. -/
theorem receiveFile_positioned (fp : FILE) (start : fp.pos = 0) :
    (∀ (key : Option Key) (packets : List Bytes) (last : Bytes) (rest : List Bytes)
        (ending : Option Dfc.Fault),
      (∀ pkt ∈ Dfc.buffers packets, Dfc.dataLayout.eof pkt ≠ 1) →
      Dfc.dataLayout.eof (Dfc.recvInto (zeros Dfc.PACKET_SIZE) last) = 1 →
        let result := Dfc.receiveFile fp ⟨packets ++ last :: rest, ending⟩ (key.map Subtype.val)
        result.code = some 0 ∧ result.inbox = ⟨rest, ending⟩ ∧
          Positioned Dfc.dataLayout (key.map Subtype.val) fp (Dfc.buffers packets) result.fp) ∧
    ∀ (addr : Udp.Address) (datagrams : List Udp.Datagram) (last : Udp.Datagram)
        (rest : List Udp.Datagram),
      (∀ pkt ∈ Udp.buffers datagrams, Udp.dataLayout.eof pkt ≠ 1) →
      Udp.dataLayout.eof (Udp.recvfrom (zeros Udp.PACKET_SIZE) last.bytes) = 1 →
        let result := Udp.receiveFile fp addr (datagrams ++ last :: rest)
        result.returned = true ∧ result.rest = rest ∧
          Positioned Udp.dataLayout none fp (Udp.buffers datagrams) result.fp := by
  constructor
  · intro key packets last rest ending data ended
    have loop := Dfc.receiveLoop_ended (key.map Subtype.val) ending (Receiver.start fp) packets last
      rest data ended
    simp only [Dfc.receiveFile, loop, true_and]
    exact positioned_storePackets Dfc.dataLayout _ fp start (Dfc.buffers packets)
  · intro addr datagrams last rest data ended
    have loop := Udp.receiveLoop_ended (Receiver.start fp) addr datagrams last rest data ended
    simp only [Udp.receiveFile, loop, true_and]
    exact positioned_storePackets Udp.dataLayout none fp start (Udp.buffers datagrams)

/-- A chunk behind a gap, one before it that overlaps nothing, an empty one and the first
chunk again. -/
def scattered (layout : DataLayout) : List Bytes :=
  [layout.buildDataPacket 5 (some [1, 2]) 0, layout.buildDataPacket 0 (some [3]) 0,
    layout.buildDataPacket 9 (some []) 0, layout.buildDataPacket 5 (some [4, 2]) 0]

theorem receiveFile_positioned_scattered :
    (Dfc.receiveFile (FILE.opened []) ⟨scattered Dfc.dataLayout ++ [Dfc.dataLayout.eofPacket], none⟩
        none).fp.content = [3, 0, 0, 0, 0, 4, 2] ∧
      (Udp.receiveFile (FILE.opened []) ⟨1, 2⟩
        ((scattered Udp.dataLayout ++ [Udp.dataLayout.eofPacket]).map (fun pkt => ⟨⟨1, 2⟩, pkt⟩))
          ).fp.content = [3, 0, 0, 0, 0, 4, 2] := by
  have both := receiveFile_positioned (FILE.opened []) rfl
  constructor
  · have dfc := both.1 none (scattered Dfc.dataLayout) Dfc.dataLayout.eofPacket [] none
      (by decide +kernel) (by decide +kernel)
    rw [Option.map_none] at dfc
    rw [dfc.2.2.content]
    decide +kernel
  · have udp := both.2 ⟨1, 2⟩ ((scattered Udp.dataLayout).map (fun pkt => ⟨⟨1, 2⟩, pkt⟩))
      ⟨⟨1, 2⟩, Udp.dataLayout.eofPacket⟩ [] (by decide +kernel) (by decide +kernel)
    rw [List.map_append, List.map_singleton, udp.2.2.content]
    decide +kernel

end NetworkSystem
