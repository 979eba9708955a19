import NetworkSystem.Wire

/-! The packets of the UDP file transfer: `util.h` and the packet builders of
`util.c`. -/

namespace NetworkSystem.Udp

open Bytes Store

def CMD_LS : UInt8 := 1
def CMD_PUT : UInt8 := 2
def CMD_GET : UInt8 := 3
def CMD_EXIT : UInt8 := 4
def CMD_UND : UInt8 := 5
def MSG_RESP : UInt8 := 6
def GET_START : UInt8 := 7
def PUT_START : UInt8 := 8

def PACKET_SIZE : Nat := 496
def DATA_SIZE_MAX : Nat := 400
def MSG_SIZE_MAX : Nat := 256

/-- `data_packet_t`: the header takes 2 bytes, `offset` is aligned to 8. -/
def dataLayout : DataLayout where
  packetSize := PACKET_SIZE
  eofAt := 2
  lenAt := 4
  offsetAt := 8
  dataAt := 12
  dataSizeMax := DATA_SIZE_MAX
  header_before := by decide
  eof_before := by decide
  len_before := by decide
  offset_before := by decide
  data_inside := by decide
  data_positive := by decide
  data_counted := by decide

/-- The fields of `msg_packet_t` that are read; `msg` as a string. -/
def msgType (pkt : Bytes) : UInt8 := pkt.getD 3 0
def msgText (pkt : Bytes) : Bytes := cstr (pkt.drop 6)

/-- `build_msg_packet`, as the `PACKET_SIZE` bytes that are sent. -/
def buildMsgPacket (type : UInt8) (msg : Option Bytes) (msgLen : Nat) : Bytes :=
  let pkt := zeros PACKET_SIZE
  let pkt := store 0 pkt 1 [MSG_TYPE]
  let pkt := store 0 pkt 3 [type]
  let pkt := match msg with
    | none => pkt
    | some msg =>
        let pkt := store 0 pkt 4 (putLE 2 msgLen)
        store 0 pkt 6 (msg.take msgLen)
  pkt.take PACKET_SIZE

/-- A message as the programs build it: the length counts the text, which fits. -/
structure Message where
  type : UInt8
  text : Bytes
  fits : text.length ≤ MSG_SIZE_MAX

namespace Message

def packet (message : Message) : Bytes :=
  buildMsgPacket message.type (some message.text) message.text.length

variable (message : Message)

theorem packet_eq : message.packet =
    store 0 (store 0 (store 0 (store 0 (zeros PACKET_SIZE) 1 [MSG_TYPE]) 3 [message.type]) 4
      (putLE 2 message.text.length)) 6 message.text := by
  have fits := message.fits
  have limit : MSG_SIZE_MAX = 256 := rfl
  have size : PACKET_SIZE = 496 := rfl
  simp only [packet, buildMsgPacket, List.take_length]
  apply List.take_of_length_le
  rw [length_store_inside, length_store_inside, length_store_inside, length_store_inside]
  all_goals simp only [length_store, length_putLE, List.length_singleton, zeros,
    List.length_replicate]
  all_goals grind

theorem length_packet : message.packet.length = PACKET_SIZE := by
  have fits := message.fits
  have limit : MSG_SIZE_MAX = 256 := rfl
  have size : PACKET_SIZE = 496 := rfl
  rw [packet_eq, length_store_inside, length_store_inside, length_store_inside,
    length_store_inside]
  all_goals simp only [length_store, length_putLE, List.length_singleton, zeros,
    List.length_replicate]
  all_goals grind

@[simp] theorem msgType_packet : msgType message.packet = message.type := by
  rw [msgType, packet_eq]
  simp only [getD_store, length_putLE]
  simp

theorem getD_behind (index : Nat) (behind : 6 + message.text.length ≤ index) :
    message.packet.getD index 0 = 0 := by
  rw [packet_eq]
  simp only [getD_store, length_putLE, List.length_singleton]
  rw [if_neg (by omega), if_neg (by omega), if_neg (by omega), if_neg (by omega), getD_zeros]

theorem msgText_packet (clean : 0 ∉ message.text) : msgText message.packet = message.text := by
  have fits := message.fits
  have limit : MSG_SIZE_MAX = 256 := rfl
  have size : PACKET_SIZE = 496 := rfl
  have whole := length_packet message
  apply cstr_of_getD clean
  · omega
  · intro index inside
    rw [packet_eq, getD_store, if_pos (by omega), Nat.add_sub_cancel_left]
  · exact getD_behind message _ (Nat.le_refl _)

/-- Read as a data packet, the type is the high byte of `eof`. -/
theorem eof_packet : dataLayout.eof message.packet = 256 * message.type.toNat := by
  have size : PACKET_SIZE = 496 := rfl
  have field : load message.packet 2 2 = [0, message.type] := by
    have lengths : (load message.packet 2 2).length = 2 := by
      rw [length_load, length_packet, size]
      rfl
    apply ext_getD (0 : UInt8) lengths
    intro index inside
    rw [lengths] at inside
    rw [getD_load (0 : UInt8) _ _ _ _ inside, packet_eq]
    simp only [getD_store, length_putLE, List.length_singleton]
    rw [if_neg (by omega), if_neg (by omega)]
    by_cases first : index = 0
    · rw [if_neg (by omega), if_neg (by omega), getD_zeros, first]
      rfl
    · have second : index = 1 := by omega
      subst second
      simp
  change getLE (load message.packet 2 2) = 256 * message.type.toNat
  rw [field]
  simp [getLE]

end Message

end NetworkSystem.Udp
