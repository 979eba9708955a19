import NetworkSystem.Lib.Loop
import NetworkSystem.Dfc.Packet

/-! The file transfer of the distributed file system: `send_file` and
`receive_file` of `trans.c`. -/

namespace NetworkSystem.Dfc

open Bytes Store Blocks

/-- The variables of the `send_file` loop and the packets sent so far. -/
structure SendState where
  fp : FILE
  n : Int
  c : Nat
  sent : List Bytes

namespace SendState

/-- Bytes the loop can still read, and one more run to meet the end of the file. -/
def measure (state : SendState) : Nat :=
  2 * (state.fp.content.length - state.fp.pos) + (if state.fp.eof then 0 else 1)

def remaining (state : SendState) : Bytes :=
  if state.fp.eof then []
  else if state.n = -1 then state.fp.content.drop state.fp.pos
  else (state.fp.content.drop state.fp.pos).take state.n.toNat

def Finished (state : SendState) : Prop :=
  state.fp.eof = true ∨ (state.n ≠ -1 ∧ state.n ≤ 0)

end SendState

/-- How many bytes the next `fread` asks for. -/
def wanted (n : Int) : Nat :=
  if n ≠ -1 then (min n DATA_SIZE_MAX).toNat else DATA_SIZE_MAX

/-- The body of the `send_file` loop. `accepts k` tells whether the `k`-th send of
this call succeeds. -/
def sendBody (accepts : Nat → Bool) (key : Option Bytes) (state : SendState) :
    SendState ⊕ (Int × SendState) :=
  if state.fp.eof = false ∧ (state.n = -1 ∨ state.n > 0) then
    let (data, fp) := state.fp.fread (wanted state.n)
    let data := applyKey key data
    let outpkt := dataLayout.buildDataPacket state.c (some data) 0
    if accepts state.sent.length then
      .inl { fp
             n := if state.n ≠ -1 then state.n - data.length else state.n
             c := (state.c + data.length) % 2 ^ 32
             sent := state.sent ++ [outpkt] }
    else .inr (-1, { state with fp })
  else .inr (0, state)

theorem sendBody_decreases (accepts : Nat → Bool) (key : Option Bytes) (state next : SendState)
    (continued : sendBody accepts key state = .inl next) : next.measure < state.measure := by
  simp only [sendBody] at continued
  split at continued
  · rename_i guard
    split at continued
    · rw [← Sum.inl.inj continued]
      have asked : 0 < wanted state.n := by
        simp only [wanted, DATA_SIZE_MAX]
        split <;> omega
      simp only [SendState.measure, FILE.fread, length_load, guard.1, Bool.false_or,
        Bool.false_eq_true, ↓reduceIte, decide_eq_true_eq]
      split <;> omega
    · cases continued
  · cases continued

structure SendResult where
  code : Int
  sent : List Bytes
  fp : FILE

/-- `send_file` on an opened stream. The outcome of the last send is ignored, as
in the source. -/
def sendFile (accepts : Nat → Bool) (fp : FILE) (offset n : Int) (key : Option Bytes) :
    SendResult :=
  let (code, state) := Loop.run (sendBody accepts key) SendState.measure
    (sendBody_decreases accepts key) ⟨fp.fseek offset, n, 0, []⟩
  if code = 0 then
    let sent := if accepts state.sent.length then state.sent ++ [dataLayout.eofPacket]
      else state.sent
    ⟨0, sent, state.fp⟩
  else ⟨code, state.sent, state.fp⟩

/-- What `recv` reports when no more data comes. -/
inductive Fault where
  | closed
  | error
  deriving DecidableEq, Repr

/-- The receiving side of a socket: what the coming calls of `recv` return, and
what they report behind that; without a fault they block. -/
structure Inbox where
  packets : List Bytes
  ending : Option Fault

/-- `recv` into a buffer overwrites its front. -/
def recvInto (buffer bytes : Bytes) : Bytes := bytes ++ buffer.drop bytes.length

structure ReceiveResult where
  /-- `none` while the call still waits in `recv`. -/
  code : Option Int
  fp : FILE
  inbox : Inbox

def receiveLoop (key : Option Bytes) (ending : Option Fault) :
    Receiver → List Bytes → ReceiveResult
  | receiver, [] => ⟨ending.map (fun _ => -1), receiver.fp, ⟨[], ending⟩⟩
  | receiver, bytes :: rest =>
      let buffer := recvInto (zeros PACKET_SIZE) bytes
      if dataLayout.eof buffer = 1 then ⟨some 0, receiver.fp, ⟨rest, ending⟩⟩
      else receiveLoop key ending (receiver.storePacket dataLayout key buffer) rest

/-- `receive_file` on an opened stream. -/
def receiveFile (fp : FILE) (inbox : Inbox) (key : Option Bytes) : ReceiveResult :=
  receiveLoop key inbox.ending (Receiver.start fp) inbox.packets

theorem load_append_rest (content : Bytes) (pos want limit : Nat) (within : want ≤ limit) :
    load content pos want ++
        (content.drop (pos + (load content pos want).length)).take
          (limit - (load content pos want).length) =
      (content.drop pos).take limit := by
  rw [length_load]
  by_cases short : content.length - pos ≤ want
  · have whole : (content.drop pos).length ≤ want := by rw [List.length_drop]; omega
    have beyond : content.length ≤ pos + min want (content.length - pos) := by omega
    rw [load, List.take_of_length_le whole, List.drop_eq_nil_of_le beyond, List.take_nil,
      List.append_nil, List.take_of_length_le (by omega)]
  · have exact_ : min want (content.length - pos) = want := by omega
    rw [exact_, load, ← List.drop_drop, ← List.take_add]
    congr 1
    omega

theorem wanted_le (n : Int) : wanted n ≤ DATA_SIZE_MAX := by
  simp only [wanted, DATA_SIZE_MAX]
  split <;> omega

namespace SendState

def chunk (state : SendState) : Bytes := load state.fp.content state.fp.pos (wanted state.n)

theorem length_chunk (state : SendState) :
    state.chunk.length = min (wanted state.n) (state.fp.content.length - state.fp.pos) :=
  length_load _ _ _

structure Follows (state next : SendState) : Prop where
  fp : next.fp = (state.fp.fread (wanted state.n)).2
  n : next.n = if state.n ≠ -1 then state.n - state.chunk.length else state.n

variable {state next : SendState} (open_ : state.fp.eof = false) (follows : Follows state next)

include open_ follows

theorem remaining_of_whole (whole : state.n = -1) :
    state.remaining = state.chunk ++ next.remaining := by
  have size := state.length_chunk
  have asked : wanted state.n = DATA_SIZE_MAX := by simp [wanted, whole]
  have stays : next.n = -1 := by simp [follows.n, whole]
  have split_ : state.fp.content.drop state.fp.pos =
      state.chunk ++ state.fp.content.drop (state.fp.pos + state.chunk.length) := by
    have parts := load_append_rest state.fp.content state.fp.pos (wanted state.n)
      (wanted state.n + state.fp.content.length) (by omega)
    rw [List.take_of_length_le (by simp only [List.length_drop]; omega),
      List.take_of_length_le (by simp only [List.length_drop]; omega)] at parts
    exact parts.symm
  simp only [remaining, open_, whole, stays, follows.fp, FILE.fread, Bool.false_eq_true, ↓reduceIte,
    Bool.false_or, decide_eq_true_eq]
  rw [split_]
  congr 1
  split
  · rename_i short
    rw [← whole] at short
    change state.chunk.length < wanted state.n at short
    exact List.drop_eq_nil_of_le (by omega)
  · rw [← whole]
    rfl

theorem remaining_of_counted (more : 0 < state.n) :
    state.remaining = state.chunk ++ next.remaining := by
  have size := state.length_chunk
  have counted : state.n ≠ -1 := by omega
  have asked : wanted state.n ≤ state.n.toNat := by
    simp only [wanted, counted, ne_eq, not_false_eq_true, ↓reduceIte]
    omega
  have parts := load_append_rest state.fp.content state.fp.pos (wanted state.n) state.n.toNat asked
  have stays : next.n = state.n - state.chunk.length := by simp [follows.n, counted]
  have left : state.n - (state.chunk.length : Int) ≠ -1 := by omega
  have cast : (state.n - (state.chunk.length : Int)).toNat = state.n.toNat - state.chunk.length := by
    omega
  simp only [remaining, open_, counted, stays, follows.fp, FILE.fread, Bool.false_eq_true,
    ↓reduceIte, Bool.false_or, decide_eq_true_eq]
  rw [if_neg left, cast, ← parts]
  congr 1
  split
  · rename_i short
    change state.chunk.length < wanted state.n at short
    rw [List.drop_eq_nil_of_le (by change _ ≤ state.fp.pos + state.chunk.length; omega),
      List.take_nil]
  · rfl

theorem finished_of_short (short : state.chunk.length ≠ DATA_SIZE_MAX) : next.Finished := by
  have size := state.length_chunk
  by_cases ended : state.chunk.length < wanted state.n
  · left
    simp only [follows.fp, FILE.fread, open_, Bool.false_or, decide_eq_true_eq]
    exact ended
  · right
    have counted : state.n ≠ -1 := by
      intro whole
      simp only [wanted, whole, ne_eq, not_true_eq_false, ↓reduceIte] at ended size
      omega
    have asked : wanted state.n = (min state.n DATA_SIZE_MAX).toNat := by
      simp only [wanted, counted, ne_eq, not_false_eq_true, ↓reduceIte]
    have stays : next.n = state.n - state.chunk.length := by simp [follows.n, counted]
    rw [stays]
    omega

end SendState

section send

variable (key : Option Bytes)

theorem sendBody_remaining (state next : SendState)
    (continued : sendBody (fun _ => true) key state = .inl next) :
    ∃ chunk, state.remaining = chunk ++ next.remaining ∧
      next.sent = state.sent ++ [dataLayout.buildDataPacket state.c (some (applyKey key chunk)) 0] ∧
      next.c = (state.c + chunk.length) % 2 ^ 32 ∧
      chunk.length ≤ DATA_SIZE_MAX ∧
      (chunk.length = DATA_SIZE_MAX ∨ next.Finished) ∧ ¬ state.Finished := by
  simp only [sendBody] at continued
  split at continued
  case isFalse => cases continued
  case isTrue guard =>
    simp only [↓reduceIte, Sum.inl.injEq] at continued
    have follows : SendState.Follows state next := by
      rw [← continued]
      exact ⟨rfl, by rw [length_applyKey]; rfl⟩
    subst continued
    rcases guard with ⟨open_, more⟩
    have size := state.length_chunk
    have bound := wanted_le state.n
    refine ⟨state.chunk, ?_, rfl, by rw [length_applyKey]; rfl, by omega, ?_, ?_⟩
    · rcases more with whole | more
      · exact SendState.remaining_of_whole open_ follows whole
      · exact SendState.remaining_of_counted open_ follows more
    · by_cases full : state.chunk.length = DATA_SIZE_MAX
      · exact Or.inl full
      · right
        exact SendState.finished_of_short open_ follows full
    · intro finished
      rcases finished with ended | exhausted
      · rw [open_] at ended
        cases ended
      · omega

theorem sendBody_returns (accepts : Nat → Bool) (state : SendState) (finished : state.Finished) :
    sendBody accepts key state = .inr (0, state) := by
  have guard : ¬ (state.fp.eof = false ∧ (state.n = -1 ∨ state.n > 0)) := by
    intro running
    rcases running with ⟨open_, more⟩
    rcases finished with ended | ⟨bounded, exhausted⟩
    · rw [open_] at ended
      cases ended
    · omega
  rw [sendBody, if_neg guard]

theorem finished_of_returns (state : SendState) (result : Int × SendState)
    (returned : sendBody (fun _ => true) key state = .inr result) :
    state.Finished ∧ result = (0, state) := by
  by_cases finished : state.Finished
  · rw [sendBody_returns key _ state finished] at returned
    exact ⟨finished, (Sum.inr.inj returned).symm⟩
  · have guard : state.fp.eof = false ∧ (state.n = -1 ∨ state.n > 0) := by
      simp only [SendState.Finished, not_or, Bool.not_eq_true] at finished
      exact ⟨finished.1, by omega⟩
    simp only [sendBody, guard, and_self, ↓reduceIte, reduceCtorEq] at returned

theorem remaining_of_finished (state : SendState) (finished : state.Finished) :
    state.remaining = [] := by
  rcases finished with ended | ⟨bounded, exhausted⟩
  · simp only [SendState.remaining, ended, ↓reduceIte]
  · have none_ : state.n.toNat = 0 := by omega
    simp only [SendState.remaining, bounded, none_, ↓reduceIte, List.take_zero, ite_self]

theorem sendLoop_sent (state : SendState) :
    let result := Loop.run (sendBody (fun _ => true) key) SendState.measure
      (sendBody_decreases _ key) state
    result.1 = 0 ∧ ∃ chunks, Blocked DATA_SIZE_MAX chunks ∧ chunks.flatten = state.remaining ∧
      result.2.sent = state.sent ++ dataLayout.dataPackets key state.c chunks ∧
      (state.Finished → chunks = []) := by
  apply Loop.run_induction (sendBody (fun _ => true) key) SendState.measure
    (sendBody_decreases _ key) (motive := fun state result =>
      result.1 = 0 ∧ ∃ chunks, Blocked DATA_SIZE_MAX chunks ∧ chunks.flatten = state.remaining ∧
        result.2.sent = state.sent ++ dataLayout.dataPackets key state.c chunks ∧
        (state.Finished → chunks = []))
  · intro state result returned
    rcases finished_of_returns key state result returned with ⟨finished, rfl⟩
    refine ⟨rfl, [], trivial, ?_, by simp [DataLayout.dataPackets], fun _ => rfl⟩
    rw [remaining_of_finished state finished, List.flatten_nil]
  · intro state next result continued ih
    rcases ih with ⟨code, chunks, blocked, rest, sent, last⟩
    rcases sendBody_remaining key state next continued with
        ⟨chunk, parts, one, offset, small, full, running⟩
    refine ⟨code, chunk :: chunks, ?_, ?_, ?_, fun finished => absurd finished running⟩
    · rcases full with full | finished
      · exact Blocked.cons full blocked
      · rw [last finished]
        exact small
    · rw [List.flatten_cons, rest, parts]
    · rw [sent, one, offset, DataLayout.dataPackets, List.append_assoc, List.singleton_append]

/-- The bytes of a file that `send_file(fp, offset, n, ..)` transmits. -/
def segment (content : Bytes) (offset : Nat) (n : Int) : Bytes :=
  if n = -1 then content.drop offset else (content.drop offset).take n.toNat

theorem sendFile_sent (fp : FILE) (offset : Nat) (n : Int) :
    let result := sendFile (fun _ => true) fp offset n key
    result.code = 0 ∧ ∃ chunks, Blocked DATA_SIZE_MAX chunks ∧
      chunks.flatten = segment fp.content offset n ∧
      result.sent = dataLayout.dataPackets key 0 chunks ++ [dataLayout.eofPacket] := by
  rcases sendLoop_sent key ⟨fp.fseek (offset : Int), n, 0, []⟩ with
      ⟨code, chunks, blocked, flat, sent, -⟩
  have start : SendState.remaining ⟨fp.fseek (offset : Int), n, 0, []⟩ =
      segment fp.content offset n := by
    simp only [SendState.remaining, FILE.fseek_natCast, Bool.false_eq_true, ↓reduceIte, segment]
  simp only [sendFile, code, ↓reduceIte]
  refine ⟨trivial, chunks, blocked, flat.trans start, ?_⟩
  rw [sent, List.nil_append]

theorem sendFile_content (accepts : Nat → Bool) (fp : FILE) (offset n : Int) :
    (sendFile accepts fp offset n key).fp.content = fp.content := by
  have body : ∀ state, match sendBody accepts key state with
      | .inl next => next.fp.content = state.fp.content
      | .inr (_, last) => last.fp.content = state.fp.content := by
    intro state
    simp only [sendBody]
    split_ifs <;> rfl
  have loop := Loop.run_induction (sendBody accepts key) SendState.measure
    (sendBody_decreases accepts key)
    (motive := fun state result => result.2.fp.content = state.fp.content)
    (by
      intro state result returned
      have kept := body state
      rw [returned] at kept
      exact kept)
    (by
      intro state next result continued ih
      have kept := body state
      rw [continued] at kept
      exact ih.trans kept)
    ⟨fp.fseek offset, n, 0, []⟩
  rw [FILE.fseek_content] at loop
  simp only [sendFile]
  split_ifs <;> exact loop

end send

theorem recvInto_whole (pkt : Bytes) (whole : pkt.length = PACKET_SIZE) :
    recvInto (zeros PACKET_SIZE) pkt = pkt := by
  rw [recvInto, whole, zeros, List.drop_eq_nil_of_le (by simp), List.append_nil]

theorem msgErrno_recvInto (buffer reply : Bytes) (whole : reply.length = PACKET_SIZE) :
    msgErrno (recvInto buffer reply) = msgErrno reply := by
  have inside : 34 < reply.length := by
    rw [whole]
    decide
  simp only [msgErrno, recvInto, List.getD_append _ _ _ _ inside]

section receive

variable (key : Option Bytes) (ending : Option Fault)

theorem receiveLoop_append (receiver : Receiver) (pkts rest : List Bytes)
    (whole : ∀ pkt ∈ pkts, pkt.length = PACKET_SIZE)
    (data : ∀ pkt ∈ pkts, dataLayout.eof pkt ≠ 1) :
    receiveLoop key ending receiver (pkts ++ rest) =
      receiveLoop key ending (receiver.storePackets dataLayout key pkts) rest := by
  induction pkts generalizing receiver with
  | nil => rfl
  | cons pkt pkts ih =>
      rw [List.cons_append, receiveLoop, recvInto_whole pkt (whole pkt List.mem_cons_self)]
      simp only [data pkt List.mem_cons_self, ↓reduceIte]
      exact ih _ (fun next member => whole next (List.mem_cons_of_mem _ member))
        (fun next member => data next (List.mem_cons_of_mem _ member))

theorem receiveLoop_eof (receiver : Receiver) (rest : List Bytes) :
    receiveLoop key ending receiver (dataLayout.eofPacket :: rest) =
      ⟨some 0, receiver.fp, ⟨rest, ending⟩⟩ := by
  rw [receiveLoop, recvInto_whole _ dataLayout.length_eofPacket, DataLayout.eof_eofPacket,
    if_pos rfl]

theorem receiveFile_packets (fp : FILE) (pkts rest : List Bytes) (atStart : fp.pos = 0)
    (whole : ∀ pkt ∈ pkts, pkt.length = PACKET_SIZE)
    (data : ∀ pkt ∈ pkts, dataLayout.eof pkt ≠ 1) :
    let result := receiveFile fp ⟨pkts ++ dataLayout.eofPacket :: rest, ending⟩ key
    result.code = some 0 ∧ result.inbox = ⟨rest, ending⟩ ∧
      result.fp.content = replay 0 fp.content (pkts.map (Receiver.write dataLayout key)) := by
  simp only [receiveFile]
  rw [receiveLoop_append key ending _ pkts _ whole data, receiveLoop_eof]
  exact ⟨rfl, rfl, Receiver.storePackets_content dataLayout key _ pkts atStart⟩

end receive

theorem receiveFile_dataPackets (key back : Option Bytes) (ending : Option Fault)
    (chunks rest : List Bytes) (blocked : Blocked DATA_SIZE_MAX chunks)
    (bound : chunks.flatten.length < 2 ^ 32) :
    let result := receiveFile (FILE.opened [])
      ⟨dataLayout.dataPackets key 0 chunks ++ dataLayout.eofPacket :: rest, ending⟩ back
    result.code = some 0 ∧ result.inbox = ⟨rest, ending⟩ ∧
      result.fp.content = (chunks.map (fun chunk => applyKey back (applyKey key chunk))).flatten := by
  have whole := dataLayout.dataPackets_whole key 0 chunks blocked.le
  rcases receiveFile_packets back ending (FILE.opened [])
    (dataLayout.dataPackets key 0 chunks) rest rfl
    (fun pkt member => (whole pkt member).1) (fun pkt member => (whole pkt member).2) with
      ⟨code, inbox, content⟩
  refine ⟨code, inbox, ?_⟩
  have writes := dataLayout.dataPackets_writes key back 0 chunks blocked.le (by omega)
  calc _ = replay 0 [] ((dataLayout.dataPackets key 0 chunks).map
          (Receiver.write dataLayout back)) := content
    _ = replay 0 [] (placed 0 (chunks.map (fun chunk => applyKey back (applyKey key chunk)))) := by
        rw [writes]
    _ = (chunks.map (fun chunk => applyKey back (applyKey key chunk))).flatten :=
        replay_placed_nil 0 _

end NetworkSystem.Dfc
