import NetworkSystem.Dfc.Transfer
import NetworkSystem.Udp.Transfer

/-! The lengths in received data packets: which indices into the data of a packet both
`receive_file` use. -/

namespace NetworkSystem

open Bytes

namespace DataLayout

variable (layout : DataLayout) (key : Option Bytes)

/-- The indices into `data` that the loop body uses behind its `eof` test: those of the XOR
loop, when there is a key, and those of `fwrite`. -/
def usedIndices (pkt : Bytes) : List Nat :=
  let loop := if key.isSome then List.range (layout.dataLen pkt) else []
  loop ++ List.range (layout.dataLen pkt)

/-- The packets whose data is taken: those in front of the first with `eof`. -/
def taken (buffers : List Bytes) : List Bytes := buffers.takeWhile (fun pkt => layout.eof pkt ≠ 1)

theorem taken_of_eof {pkt : Bytes} (rest : List Bytes) (ended : layout.eof pkt = 1) :
    layout.taken (pkt :: rest) = [] :=
  List.takeWhile_cons_of_neg (by simpa using ended)

theorem taken_of_data {pkt : Bytes} (rest : List Bytes) (open_ : layout.eof pkt ≠ 1) :
    layout.taken (pkt :: rest) = pkt :: layout.taken rest :=
  List.takeWhile_cons_of_pos (decide_eq_true open_)

/-- The indices that the whole loop uses. -/
def loopIndices : List Bytes → List Nat
  | [] => []
  | pkt :: rest =>
      if layout.eof pkt = 1 then [] else layout.usedIndices key pkt ++ loopIndices rest

theorem loopIndices_eq (buffers : List Bytes) :
    layout.loopIndices key buffers = (layout.taken buffers).flatMap (layout.usedIndices key) := by
  induction buffers with
  | nil => rfl
  | cons pkt rest ih =>
      by_cases ended : layout.eof pkt = 1
      · rw [loopIndices, if_pos ended, layout.taken_of_eof rest ended, List.flatMap_nil]
      · rw [loopIndices, if_neg ended, ih, layout.taken_of_data rest ended, List.flatMap_cons]

theorem usedIndices_inside_iff (pkt : Bytes) :
    (∀ index ∈ layout.usedIndices key pkt, index < layout.dataSizeMax) ↔
      layout.dataLen pkt ≤ layout.dataSizeMax := by
  constructor
  · intro inside
    by_contra longer
    have used : layout.dataSizeMax ∈ layout.usedIndices key pkt :=
      List.mem_append_right _ (List.mem_range.mpr (Nat.lt_of_not_le longer))
    exact Nat.lt_irrefl _ (inside _ used)
  · intro short index used
    have less : index < layout.dataLen pkt := by
      rcases List.mem_append.mp used with loop | write
      · split_ifs at loop
        · exact List.mem_range.mp loop
        · cases loop
      · exact List.mem_range.mp write
    omega

theorem mem_taken_iff (buffers : List Bytes) (holds : Bytes → Prop) :
    (∀ pkt ∈ layout.taken buffers, holds pkt) ↔
      ∀ (k : Nat) (inside : k < buffers.length),
        (∀ (j : Nat) (le : j ≤ k), layout.eof buffers[j] ≠ 1) → holds buffers[k] := by
  induction buffers with
  | nil => exact ⟨fun _ k inside => absurd inside (Nat.not_lt_zero k), nofun⟩
  | cons pkt rest ih =>
      by_cases ended : layout.eof pkt = 1
      · rw [layout.taken_of_eof rest ended]
        refine ⟨fun _ k inside open_ => absurd ended (open_ 0 (Nat.zero_le k)), fun _ => nofun⟩
      · rw [layout.taken_of_data rest ended, List.forall_mem_cons, ih]
        constructor
        · intro both k inside open_
          cases k with
          | zero => exact both.1
          | succ k =>
              exact both.2 k (Nat.lt_of_succ_lt_succ inside)
                (fun j le => open_ (j + 1) (Nat.succ_le_succ le))
        · intro all
          refine ⟨all 0 (Nat.zero_lt_succ _) ?_, ?_⟩
          · intro j le
            rw [Nat.le_zero] at le
            subst le
            exact ended
          · intro k inside open_
            apply all (k + 1) (Nat.succ_lt_succ inside)
            intro j le
            cases j with
            | zero => exact ended
            | succ j => exact open_ j (Nat.le_of_succ_le_succ le)

theorem loopIndices_inside_iff (buffers : List Bytes) :
    (∀ index ∈ layout.loopIndices key buffers, index < layout.dataSizeMax) ↔
      ∀ (k : Nat) (inside : k < buffers.length),
        (∀ (j : Nat) (le : j ≤ k), layout.eof buffers[j] ≠ 1) →
          layout.dataLen buffers[k] ≤ layout.dataSizeMax := by
  rw [← layout.mem_taken_iff buffers (fun pkt => layout.dataLen pkt ≤ layout.dataSizeMax),
    loopIndices_eq]
  simp only [List.mem_flatMap, forall_exists_index, and_imp, ← layout.usedIndices_inside_iff key]
  exact ⟨fun all pkt member index used => all index pkt member used,
    fun all index pkt member used => all pkt member index used⟩

end DataLayout

namespace Dfc

/-- What the calls of `recv` leave in the buffer. -/
def buffers (packets : List Bytes) : List Bytes := packets.map (recvInto (zeros PACKET_SIZE))

theorem receiveLoop_taken (key : Option Bytes) (ending : Option Fault) (receiver : Receiver)
    (packets : List Bytes) :
    (receiveLoop key ending receiver packets).fp =
      (receiver.storePackets dataLayout key (dataLayout.taken (buffers packets))).fp := by
  induction packets generalizing receiver with
  | nil => rfl
  | cons bytes rest ih =>
      rw [buffers, List.map_cons, receiveLoop]
      generalize recvInto (zeros PACKET_SIZE) bytes = buffer
      by_cases ended : dataLayout.eof buffer = 1
      · rw [dataLayout.taken_of_eof _ ended, if_pos ended]
        rfl
      · rw [dataLayout.taken_of_data _ ended, if_neg ended]
        exact ih _

end Dfc

namespace Udp

/-- What the calls of `recvfrom` leave in the buffer. -/
def buffers (datagrams : List Datagram) : List Bytes :=
  datagrams.map (fun datagram => recvfrom (zeros PACKET_SIZE) datagram.bytes)

theorem receiveLoop_taken (receiver : Receiver) (addr : Address) (datagrams : List Datagram) :
    (receiveLoop receiver addr datagrams).fp =
      (receiver.storePackets dataLayout none (dataLayout.taken (buffers datagrams))).fp := by
  induction datagrams generalizing receiver addr with
  | nil => rfl
  | cons datagram rest ih =>
      rw [buffers, List.map_cons, receiveLoop]
      generalize recvfrom (zeros PACKET_SIZE) datagram.bytes = buffer
      by_cases ended : dataLayout.eof buffer = 1
      · rw [dataLayout.taken_of_eof _ ended, if_pos ended]
        rfl
      · rw [dataLayout.taken_of_data _ ended, if_neg ended]
        exact ih _ _

end Udp

/-- Both programs stay in the data of a packet exactly when every packet that comes with no
`eof` before it has a length that fits. -/
theorem received_lengths_iff (fp : FILE) (key : Option Key) (inbox : Dfc.Inbox)
    (addr : Udp.Address) (datagrams : List Udp.Datagram) :
    let key := key.map Subtype.val
    ((Dfc.receiveFile fp inbox key).fp = ((Receiver.start fp).storePackets Dfc.dataLayout key
        (Dfc.dataLayout.taken (Dfc.buffers inbox.packets))).fp ∧
      ((∀ index ∈ Dfc.dataLayout.loopIndices key (Dfc.buffers inbox.packets),
          index < Dfc.DATA_SIZE_MAX) ↔
        ∀ (k : Nat) (inside : k < (Dfc.buffers inbox.packets).length),
          (∀ (j : Nat) (le : j ≤ k), Dfc.dataLayout.eof (Dfc.buffers inbox.packets)[j] ≠ 1) →
            Dfc.dataLayout.dataLen (Dfc.buffers inbox.packets)[k] ≤ Dfc.DATA_SIZE_MAX)) ∧
    (Udp.receiveFile fp addr datagrams).fp = ((Receiver.start fp).storePackets Udp.dataLayout none
        (Udp.dataLayout.taken (Udp.buffers datagrams))).fp ∧
      ((∀ index ∈ Udp.dataLayout.loopIndices none (Udp.buffers datagrams),
          index < Udp.DATA_SIZE_MAX) ↔
        ∀ (k : Nat) (inside : k < (Udp.buffers datagrams).length),
          (∀ (j : Nat) (le : j ≤ k), Udp.dataLayout.eof (Udp.buffers datagrams)[j] ≠ 1) →
            Udp.dataLayout.dataLen (Udp.buffers datagrams)[k] ≤ Udp.DATA_SIZE_MAX) :=
  ⟨⟨Dfc.receiveLoop_taken _ inbox.ending (Receiver.start fp) inbox.packets,
      Dfc.dataLayout.loopIndices_inside_iff _ (Dfc.buffers inbox.packets)⟩,
    Udp.receiveLoop_taken (Receiver.start fp) addr datagrams,
    Udp.dataLayout.loopIndices_inside_iff none (Udp.buffers datagrams)⟩

/-- A data packet that promises one byte more than it has room for. -/
def DataLayout.longPacket (layout : DataLayout) : Bytes :=
  Store.store 0 (zeros layout.packetSize) layout.lenAt (putLE 2 (layout.dataSizeMax + 1))

theorem received_length_beyond :
    (¬ ∀ key : Option Key, ∀ index ∈ Dfc.dataLayout.loopIndices (key.map Subtype.val)
        (Dfc.buffers [Dfc.dataLayout.longPacket]), index < Dfc.DATA_SIZE_MAX) ∧
    ¬ ∀ index ∈ Udp.dataLayout.loopIndices none
        (Udp.buffers [⟨⟨0, 0⟩, Udp.dataLayout.longPacket⟩]), index < Udp.DATA_SIZE_MAX := by
  constructor
  · intro inside
    exact absurd (inside none 500 (by decide +kernel)) (by decide)
  · intro inside
    exact absurd (inside 400 (by decide +kernel)) (by decide)

end NetworkSystem
