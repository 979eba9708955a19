import NetworkSystem.Stdio
import NetworkSystem.Lib.Blocks

/-! Data packets as bytes. The file transfer of both programs puts the same four
fields into a packet of its own size, at its own places. -/

namespace NetworkSystem

open Bytes Store

/-- Where the compiler places the fields of `data_packet_t` on a little-endian
host, with the alignment of `offset`. The fields do not overlap. -/
structure DataLayout where
  packetSize : Nat
  eofAt : Nat
  lenAt : Nat
  offsetAt : Nat
  dataAt : Nat
  dataSizeMax : Nat
  header_before : 2 ≤ eofAt
  eof_before : eofAt + 2 ≤ lenAt
  len_before : lenAt + 2 ≤ offsetAt
  offset_before : offsetAt + 4 ≤ dataAt
  data_inside : dataAt + dataSizeMax ≤ packetSize
  data_positive : 0 < dataSizeMax
  data_counted : dataSizeMax < 2 ^ 16

def MSG_TYPE : UInt8 := 1
def DATA_TYPE : UInt8 := 2

namespace DataLayout

variable (layout : DataLayout)

def eof (pkt : Bytes) : Nat := getLE (load pkt layout.eofAt 2)

def dataLen (pkt : Bytes) : Nat := getLE (load pkt layout.lenAt 2)

def offset (pkt : Bytes) : Nat := getLE (load pkt layout.offsetAt 4)

/-- The `data_len` bytes from `data` on. What lies behind the packet buffer in
memory is not modelled and reads as zero. -/
def data (pkt : Bytes) : Bytes :=
  let inside := load pkt layout.dataAt (layout.dataLen pkt)
  inside ++ zeros (layout.dataLen pkt - inside.length)

/-- `build_data_packet`, with `none` for a null `_data`. -/
def buildDataPacket (offset : Nat) (data : Option Bytes) (eof : Nat) : Bytes :=
  let pkt := zeros layout.packetSize
  let pkt := store 0 pkt 1 [DATA_TYPE]
  let pkt := store 0 pkt layout.eofAt (putLE 2 eof)
  match data with
  | none => pkt
  | some data =>
      let pkt := store 0 pkt layout.offsetAt (putLE 4 offset)
      let pkt := store 0 pkt layout.lenAt (putLE 2 data.length)
      store 0 pkt layout.dataAt data

def eofPacket : Bytes := layout.buildDataPacket 0 none 1

variable (at_ : Nat) (chunk : Bytes) (fits : chunk.length ≤ layout.dataSizeMax)

include fits in
theorem length_buildDataPacket :
    (layout.buildDataPacket at_ (some chunk) 0).length = layout.packetSize := by
  have := layout.header_before
  have := layout.eof_before
  have := layout.len_before
  have := layout.offset_before
  have := layout.data_inside
  have base : (zeros layout.packetSize).length = layout.packetSize := by simp [zeros]
  simp only [buildDataPacket]
  rw [length_store_inside, length_store_inside, length_store_inside, length_store_inside,
    length_store_inside, base]
  all_goals simp only [length_store, length_putLE, List.length_singleton, base]
  all_goals grind

/-- The packet up to and including its `eof` field. -/
def headed (eof : Nat) : Bytes :=
  store 0 (store 0 (zeros layout.packetSize) 1 [DATA_TYPE]) layout.eofAt (putLE 2 eof)

theorem eof_headed (value : Nat) (bound : value < 256 ^ 2) :
    layout.eof (layout.headed value) = value := by
  have field : load (layout.headed value) layout.eofAt 2 = putLE 2 value := by
    simpa only [headed, length_putLE] using load_store 0 _ layout.eofAt (putLE 2 value)
  rw [eof, field, getLE_putLE_of_lt 2 value bound]

theorem headed_length (eof : Nat) : layout.eofAt + 2 ≤ (layout.headed eof).length := by
  have reach := le_length_store (0 : UInt8)
    (store 0 (zeros layout.packetSize) 1 [DATA_TYPE]) layout.eofAt (putLE 2 eof) (by simp [putLE])
  simpa only [headed, length_putLE] using reach

theorem length_eofPacket : layout.eofPacket.length = layout.packetSize := by
  have := layout.header_before
  have := layout.eof_before
  have := layout.len_before
  have := layout.offset_before
  have := layout.data_inside
  have base : (zeros layout.packetSize).length = layout.packetSize := by simp [zeros]
  change (layout.headed 1).length = layout.packetSize
  rw [headed, length_store_inside, length_store_inside, base]
  all_goals simp only [length_store, length_putLE, List.length_singleton, base]
  all_goals grind

@[simp] theorem eof_eofPacket : layout.eof layout.eofPacket = 1 :=
  layout.eof_headed 1 (by decide)

@[simp] theorem eof_buildDataPacket :
    layout.eof (layout.buildDataPacket at_ (some chunk) 0) = 0 := by
  have := layout.eof_before
  have := layout.len_before
  have := layout.offset_before
  have head := layout.headed_length 0
  have grown := length_le_store (0 : UInt8) (layout.headed 0) layout.offsetAt (putLE 4 at_)
  have grown' := length_le_store (0 : UInt8)
    (store 0 (layout.headed 0) layout.offsetAt (putLE 4 at_)) layout.lenAt (putLE 2 chunk.length)
  change getLE (load (store 0 (store 0 (store 0 (layout.headed 0) layout.offsetAt (putLE 4 at_))
    layout.lenAt (putLE 2 chunk.length)) layout.dataAt chunk) layout.eofAt 2) = 0
  rw [load_store_of_disjoint 0 _ _ _ _ _ (by omega) (by omega),
    load_store_of_disjoint 0 _ _ _ _ _ (by omega) (by omega),
    load_store_of_disjoint 0 _ _ _ _ _ (by omega) (by omega)]
  exact layout.eof_headed 0 (by decide)

@[simp] theorem offset_buildDataPacket :
    layout.offset (layout.buildDataPacket at_ (some chunk) 0) = at_ % 2 ^ 32 := by
  have := layout.len_before
  have := layout.offset_before
  have reach := le_length_store (0 : UInt8) (layout.headed 0) layout.offsetAt (putLE 4 at_)
    (by simp [putLE])
  have grown := length_le_store (0 : UInt8)
    (store 0 (layout.headed 0) layout.offsetAt (putLE 4 at_)) layout.lenAt (putLE 2 chunk.length)
  have field := load_store (0 : UInt8) (layout.headed 0) layout.offsetAt (putLE 4 at_)
  rw [length_putLE] at reach field
  change getLE (load (store 0 (store 0 (store 0 (layout.headed 0) layout.offsetAt (putLE 4 at_))
    layout.lenAt (putLE 2 chunk.length)) layout.dataAt chunk) layout.offsetAt 4) = at_ % 2 ^ 32
  rw [load_store_of_disjoint 0 _ _ _ _ _ (by omega) (by omega),
    load_store_of_disjoint 0 _ _ _ _ _ (by omega) (by rw [length_putLE]; omega), field]
  exact getLE_putLE 4 at_

include fits in
theorem dataLen_buildDataPacket :
    layout.dataLen (layout.buildDataPacket at_ (some chunk) 0) = chunk.length := by
  have := layout.len_before
  have := layout.offset_before
  have := layout.data_counted
  let pkt := store 0 (layout.headed 0) layout.offsetAt (putLE 4 at_)
  have reach := le_length_store (0 : UInt8) pkt layout.lenAt (putLE 2 chunk.length)
    (by simp [putLE])
  have field := load_store (0 : UInt8) pkt layout.lenAt (putLE 2 chunk.length)
  rw [length_putLE] at reach field
  change getLE (load (store 0 (store 0 pkt layout.lenAt (putLE 2 chunk.length))
    layout.dataAt chunk) layout.lenAt 2) = chunk.length
  rw [load_store_of_disjoint 0 _ _ _ _ _ (by omega) (by omega), field]
  exact getLE_putLE_of_lt 2 chunk.length (by omega)

include fits in
theorem data_buildDataPacket :
    layout.data (layout.buildDataPacket at_ (some chunk) 0) = chunk := by
  have field : load (layout.buildDataPacket at_ (some chunk) 0) layout.dataAt chunk.length = chunk :=
    load_store _ _ _ _
  simp only [data, layout.dataLen_buildDataPacket at_ chunk fits, field, Nat.sub_self, zeros,
    List.replicate_zero, List.append_nil]

theorem length_data (pkt : Bytes) : (layout.data pkt).length = layout.dataLen pkt := by
  simp only [data, List.length_append, length_load, zeros, List.length_replicate]
  omega

end DataLayout

/-- A key that C can use, which divides by `strlen(key)`. -/
abbrev Key := { key : Bytes // key ≠ [] }

/-- XOR with the key, restarted at every packet; an absent key leaves the data as
it is. Of an empty one nothing is known in C. -/
def applyKey (key : Option Bytes) (chunk : Bytes) : Bytes :=
  match key with
  | none => chunk
  | some key => chunk.mapIdx (fun index byte => byte ^^^ key.getD (index % key.length) 0)

@[simp] theorem length_applyKey (key : Option Bytes) (chunk : Bytes) :
    (applyKey key chunk).length = chunk.length := by
  cases key <;> simp [applyKey]

/-- The key as it falls on a whole file that travels in packets of `size` bytes. -/
def cipher (size : Nat) (key : Bytes) (content : Bytes) : Bytes :=
  content.mapIdx (fun index byte => byte ^^^ key.getD (index % size % key.length) 0)

@[simp] theorem length_cipher (size : Nat) (key content : Bytes) :
    (cipher size key content).length = content.length := by
  simp [cipher]

theorem cipher_cipher (size : Nat) (key content : Bytes) :
    cipher size key (cipher size key content) = content := by
  apply List.ext_getElem
  · simp
  · intro index inFirst inSecond
    simp only [cipher, List.getElem_mapIdx, UInt8.xor_assoc, UInt8.xor_self, UInt8.xor_zero]

theorem flatten_map_applyKey (size : Nat) (key : Bytes) (chunks : List Bytes)
    (blocked : Blocks.Blocked size chunks) :
    (chunks.map (applyKey (some key))).flatten = cipher size key chunks.flatten :=
  Blocks.flatten_map_mapIdx size _ chunks blocked

/-- The receiving side of a transfer: the stream and the position the loop
believes it is at. -/
structure Receiver where
  fp : FILE
  pos : Nat

namespace Receiver

def start (fp : FILE) : Receiver := ⟨fp, 0⟩

/-- The loop body of `receive_file` behind its `eof` test. -/
def storePacket (layout : DataLayout) (key : Option Bytes) (receiver : Receiver)
    (pkt : Bytes) : Receiver :=
  let moved : Receiver :=
    if layout.offset pkt ≠ receiver.pos then
      ⟨receiver.fp.fseek (layout.offset pkt : Int), layout.offset pkt⟩
    else receiver
  ⟨moved.fp.fwrite (applyKey key (layout.data pkt)), moved.pos + layout.dataLen pkt⟩

def write (layout : DataLayout) (key : Option Bytes) (pkt : Bytes) : Write UInt8 :=
  (layout.offset pkt, applyKey key (layout.data pkt))

/-- The cached position is the stream's. -/
def InStep (receiver : Receiver) : Prop := receiver.fp.pos = receiver.pos

variable (layout : DataLayout) (key : Option Bytes)

theorem storePacket_inStep (receiver : Receiver) (pkt : Bytes) (inStep : receiver.InStep) :
    (receiver.storePacket layout key pkt).InStep := by
  simp only [InStep] at inStep
  by_cases same : layout.offset pkt = receiver.pos
  · simp only [InStep, storePacket, same, ne_eq, not_true_eq_false, ↓reduceIte, FILE.fwrite,
      length_applyKey, DataLayout.length_data, inStep]
  · simp only [InStep, storePacket, same, ne_eq, not_false_eq_true, ↓reduceIte, FILE.fwrite,
      length_applyKey, DataLayout.length_data, FILE.fseek_natCast]

theorem storePacket_content (receiver : Receiver) (pkt : Bytes) (inStep : receiver.InStep) :
    (receiver.storePacket layout key pkt).fp.content =
      store 0 receiver.fp.content (write layout key pkt).1 (write layout key pkt).2 := by
  simp only [InStep] at inStep
  by_cases same : layout.offset pkt = receiver.pos
  · simp only [storePacket, same, ne_eq, not_true_eq_false, ↓reduceIte, FILE.fwrite, write, inStep]
  · simp only [storePacket, same, ne_eq, not_false_eq_true, ↓reduceIte, FILE.fwrite, write,
      FILE.fseek_natCast]

def storePackets (receiver : Receiver) (pkts : List Bytes) : Receiver :=
  pkts.foldl (storePacket layout key) receiver

/-- Seeking only when the offset is not the expected one amounts to writing every
packet at its own offset. -/
theorem storePackets_content (receiver : Receiver) (pkts : List Bytes)
    (inStep : receiver.InStep) :
    (receiver.storePackets layout key pkts).fp.content =
      replay 0 receiver.fp.content (pkts.map (write layout key)) := by
  induction pkts generalizing receiver with
  | nil => rfl
  | cons pkt rest ih =>
      have tail := ih _ (storePacket_inStep layout key receiver pkt inStep)
      rw [storePacket_content layout key receiver pkt inStep] at tail
      exact tail

end Receiver

namespace DataLayout

open Blocks

variable (layout : DataLayout) (key back : Option Bytes)

/-- The chunks in packets, the first at offset `c`, a 32-bit counter. -/
def dataPackets : Nat → List Bytes → List Bytes
  | _, [] => []
  | c, chunk :: rest =>
      layout.buildDataPacket c (some (applyKey key chunk)) 0 ::
        dataPackets ((c + chunk.length) % 2 ^ 32) rest

theorem dataPackets_eof (c : Nat) (chunks : List Bytes)
    (small : ∀ chunk ∈ chunks, chunk.length ≤ layout.dataSizeMax) :
    ∀ pkt ∈ layout.dataPackets key c chunks,
      pkt.length = layout.packetSize ∧ layout.eof pkt = 0 := by
  induction chunks generalizing c with
  | nil => intro pkt member; cases member
  | cons chunk rest ih =>
      intro pkt member
      rcases List.mem_cons.mp member with rfl | member
      · have fits : (applyKey key chunk).length ≤ layout.dataSizeMax := by
          rw [length_applyKey]
          exact small chunk List.mem_cons_self
        exact ⟨layout.length_buildDataPacket _ _ fits, layout.eof_buildDataPacket _ _⟩
      · exact ih _ (fun next inside => small next (List.mem_cons_of_mem _ inside)) pkt member

theorem dataPackets_whole (c : Nat) (chunks : List Bytes)
    (small : ∀ chunk ∈ chunks, chunk.length ≤ layout.dataSizeMax) :
    ∀ pkt ∈ layout.dataPackets key c chunks,
      pkt.length = layout.packetSize ∧ layout.eof pkt ≠ 1 := by
  intro pkt member
  have facts := layout.dataPackets_eof key c chunks small pkt member
  refine ⟨facts.1, ?_⟩
  rw [facts.2]
  decide

theorem dataPackets_writes (c : Nat) (chunks : List Bytes)
    (small : ∀ chunk ∈ chunks, chunk.length ≤ layout.dataSizeMax)
    (bound : c + chunks.flatten.length < 2 ^ 32) :
    (layout.dataPackets key c chunks).map (Receiver.write layout back) =
      placed c (chunks.map (fun chunk => applyKey back (applyKey key chunk))) := by
  induction chunks generalizing c with
  | nil => rfl
  | cons chunk rest ih =>
      rw [List.flatten_cons, List.length_append] at bound
      have here : (c + chunk.length) % 2 ^ 32 = c + chunk.length := Nat.mod_eq_of_lt (by omega)
      have fits : (applyKey key chunk).length ≤ layout.dataSizeMax := by
        rw [length_applyKey]
        exact small chunk List.mem_cons_self
      simp only [dataPackets, List.map_cons, placed, length_applyKey, here, Receiver.write,
        DataLayout.offset_buildDataPacket, DataLayout.data_buildDataPacket _ _ _ fits]
      rw [Nat.mod_eq_of_lt (by omega)]
      congr 1
      exact ih _ (fun next member => small next (List.mem_cons_of_mem _ member)) (by omega)

end DataLayout

end NetworkSystem
