import NetworkSystem.Dfc.Transfer
import NetworkSystem.Udp.Transfer

/-! The offsets in the data packets of both programs: they come from a counter of 32 bits,
and the receiver writes where they point. -/

namespace NetworkSystem

open Bytes Store Blocks

namespace DataLayout

variable (layout : DataLayout)

/-- The offset of every packet is the number of bytes in those before it. -/
def Counted (packets : List Bytes) : Prop :=
  ∀ (k : Nat) (inside : k < packets.length),
    layout.offset packets[k] = ((packets.take k).map layout.dataLen).sum

/-- The packets do not overlap, and the receiver puts them one behind the other. -/
structure InPlace (packets : List Bytes) : Prop where
  counted : layout.Counted packets
  apart : ∀ (i k : Nat) (before : i < k) (inside : k < packets.length),
    layout.offset packets[i] + layout.dataLen packets[i] ≤ layout.offset packets[k]
  stored : ∀ back, ((Receiver.start (FILE.opened [])).storePackets layout back packets).fp.content =
    (packets.map (fun pkt => applyKey back (layout.data pkt))).flatten

theorem writes_of_counted (back : Option Bytes) (c : Nat) (packets : List Bytes)
    (counted : ∀ (k : Nat) (inside : k < packets.length),
      layout.offset packets[k] = c + ((packets.take k).map layout.dataLen).sum) :
    packets.map (Receiver.write layout back) =
      placed c (packets.map (fun pkt => applyKey back (layout.data pkt))) := by
  induction packets generalizing c with
  | nil => rfl
  | cons pkt rest ih =>
      have here := counted 0 (Nat.zero_lt_succ _)
      simp only [List.getElem_cons_zero, List.take_zero, List.map_nil, List.sum_nil,
        Nat.add_zero] at here
      rw [List.map_cons, List.map_cons, placed, length_applyKey, length_data, Receiver.write, here]
      congr 1
      apply ih
      intro k inside
      have later := counted (k + 1) (Nat.succ_lt_succ inside)
      simp only [List.getElem_cons_succ, List.take_succ_cons, List.map_cons, List.sum_cons] at later
      rw [later, Nat.add_assoc]

theorem inPlace_of_counted {packets : List Bytes} (counted : layout.Counted packets) :
    layout.InPlace packets where
  counted := counted
  apart := by
    intro i k before inside
    have less : i < packets.length := Nat.lt_trans before inside
    have front : packets.take (i + 1) = packets.take i ++ [packets[i]] :=
      List.take_succ_eq_append_getElem less
    have split : packets.take k = packets.take (i + 1) ++ (packets.take k).drop (i + 1) := by
      rw [← List.take_append_drop (i + 1) (packets.take k), List.take_take, Nat.min_eq_left before,
        List.drop_left' (by rw [List.length_take]; omega)]
    calc layout.offset packets[i] + layout.dataLen packets[i]
        = ((packets.take i).map layout.dataLen).sum + layout.dataLen packets[i] := by
          rw [counted i less]
      _ = ((packets.take (i + 1)).map layout.dataLen).sum := by
          rw [front, List.map_append, List.sum_append, List.map_singleton, List.sum_singleton]
      _ ≤ ((packets.take k).map layout.dataLen).sum := by
          rw [split, List.map_append, List.sum_append]
          exact Nat.le_add_right _ _
      _ = layout.offset packets[k] := (counted k inside).symm
  stored := by
    intro back
    have writes := layout.writes_of_counted back 0 packets (by simpa [Counted] using counted)
    calc ((Receiver.start (FILE.opened [])).storePackets layout back packets).fp.content
        = replay 0 [] (packets.map (Receiver.write layout back)) :=
          Receiver.storePackets_content layout back (Receiver.start (FILE.opened [])) packets rfl
      _ = replay 0 [] (placed 0 (packets.map (fun pkt => applyKey back (layout.data pkt)))) := by
          rw [writes]
      _ = (packets.map (fun pkt => applyKey back (layout.data pkt))).flatten :=
          replay_placed_nil 0 _

variable (key : Option Bytes)

theorem length_dataPackets (c : Nat) (chunks : List Bytes) :
    (layout.dataPackets key c chunks).length = chunks.length := by
  induction chunks generalizing c with
  | nil => rfl
  | cons chunk rest ih => rw [dataPackets, List.length_cons, ih, List.length_cons]

theorem dataLen_dataPackets (c : Nat) (chunks : List Bytes)
    (small : ∀ chunk ∈ chunks, chunk.length ≤ layout.dataSizeMax) :
    (layout.dataPackets key c chunks).map layout.dataLen = chunks.map List.length := by
  induction chunks generalizing c with
  | nil => rfl
  | cons chunk rest ih =>
      rw [List.forall_mem_cons] at small
      have fits : (applyKey key chunk).length ≤ layout.dataSizeMax := by
        rw [length_applyKey]
        exact small.1
      have first : layout.dataLen (layout.buildDataPacket c (some (applyKey key chunk)) 0) =
          chunk.length := by
        rw [layout.dataLen_buildDataPacket _ _ fits, length_applyKey]
      rw [dataPackets, List.map_cons, ih _ small.2, first, List.map_cons]

/-- The counter wraps at 2 ^ 32. -/
theorem offset_dataPackets (c : Nat) (chunks : List Bytes) (k : Nat)
    (inside : k < (layout.dataPackets key c chunks).length) :
    layout.offset (layout.dataPackets key c chunks)[k] =
      (c + (chunks.take k).flatten.length) % 2 ^ 32 := by
  induction chunks generalizing c k with
  | nil => exact absurd inside (Nat.not_lt_zero k)
  | cons chunk rest ih =>
      cases k with
      | zero =>
          simp only [dataPackets, List.getElem_cons_zero, offset_buildDataPacket, List.take_zero,
            List.flatten_nil, List.length_nil, Nat.add_zero]
      | succ k =>
          have later := ih ((c + chunk.length) % 2 ^ 32) k (Nat.lt_of_succ_lt_succ inside)
          simp only [dataPackets, List.getElem_cons_succ, List.take_succ_cons, List.flatten_cons,
            List.length_append]
          rw [later, Nat.mod_add_mod, Nat.add_assoc]

theorem counted_dataPackets_iff (chunks : List Bytes)
    (small : ∀ chunk ∈ chunks, chunk.length ≤ layout.dataSizeMax) :
    layout.Counted (layout.dataPackets key 0 chunks) ↔ chunks.dropLast.flatten.length < 2 ^ 32 := by
  have sums : ∀ k, (((layout.dataPackets key 0 chunks).take k).map layout.dataLen).sum =
      (chunks.take k).flatten.length := by
    intro k
    rw [List.map_take, layout.dataLen_dataPackets key 0 chunks small, List.length_flatten,
      List.map_take]
  have offsets := layout.offset_dataPackets key 0 chunks
  simp only [Counted, sums]
  constructor
  · intro counted
    cases chunks with
    | nil => exact Nat.two_pow_pos 32
    | cons chunk rest =>
        have inside : rest.length < (layout.dataPackets key 0 (chunk :: rest)).length := by
          rw [length_dataPackets, List.length_cons]
          exact Nat.lt_succ_self _
        have last := counted rest.length inside
        rw [offsets, Nat.zero_add] at last
        rw [List.dropLast_eq_take, List.length_cons, Nat.add_sub_cancel, ← last]
        exact Nat.mod_lt _ (Nat.two_pow_pos 32)
  · intro bound k inside
    rw [length_dataPackets] at inside
    have shorter : (chunks.take k).flatten.length ≤ chunks.dropLast.flatten.length := by
      have front : chunks.take k <+: chunks.dropLast := by
        rw [List.dropLast_eq_take]
        exact List.take_prefix_take_left (by omega)
      rcases front with ⟨rest, same⟩
      rw [← same, List.flatten_append, List.length_append]
      exact Nat.le_add_right _ _
    rw [offsets, Nat.zero_add]
    exact Nat.mod_eq_of_lt (by omega)

theorem Counted.front {front packets : List Bytes} (counted : layout.Counted packets)
    (within : front <+: packets) : layout.Counted front := by
  rcases within with ⟨rest, rfl⟩
  intro k inside
  have whole := counted k (by rw [List.length_append]; omega)
  rwa [List.getElem_append_left inside, List.take_append_of_le_length (Nat.le_of_lt inside)] at whole

def dataIn (packets : List Bytes) : List Bytes := packets.filter (fun pkt => layout.eof pkt ≠ 1)

theorem dataIn_eq_self {packets : List Bytes} (data : ∀ pkt ∈ packets, layout.eof pkt ≠ 1) :
    layout.dataIn packets = packets := by
  rw [dataIn, List.filter_eq_self]
  exact fun pkt member => decide_eq_true (data pkt member)

theorem dataIn_append_eof (packets : List Bytes) :
    layout.dataIn (packets ++ [layout.eofPacket]) = layout.dataIn packets := by
  rw [dataIn, List.filter_append, List.filter_cons_of_neg (by simp), List.filter_nil,
    List.append_nil, dataIn]

end DataLayout

/-- The chunks that a loop has still to send: none when it is finished, and the last of
them starts at `start` otherwise. -/
structure Remaining (limit : Nat) (finished : Prop) (start : Nat) (chunks : List Bytes) : Prop where
  small : ∀ chunk ∈ chunks, chunk.length ≤ limit
  nothing : finished → chunks = []
  last : ¬ finished → chunks ≠ [] ∧ chunks.dropLast.flatten.length = start

theorem Remaining.nil {limit start : Nat} {finished : Prop} (ends : finished) :
    Remaining limit finished start [] :=
  ⟨fun _ member => absurd member List.not_mem_nil, fun _ => rfl, fun goes => absurd ends goes⟩

/-- A last round starts at its own start, and another one moves the last start by its
chunk. -/
theorem Remaining.cons {limit start later : Nat} {finished ends : Prop} {chunk : Bytes}
    {chunks : List Bytes} (remaining : Remaining limit ends later chunks)
    (short : chunk.length ≤ limit) (running : ¬ finished) (final : ends → start = 0)
    (moved : ¬ ends → start = chunk.length + later) :
    Remaining limit finished start (chunk :: chunks) := by
  refine ⟨?_, fun closed => absurd closed running, fun _ => ⟨List.cons_ne_nil _ _, ?_⟩⟩
  · rw [List.forall_mem_cons]
    exact ⟨short, remaining.small⟩
  · by_cases closed : ends
    · rw [remaining.nothing closed, final closed]
      rfl
    · obtain ⟨some_, last⟩ := remaining.last closed
      rw [List.dropLast_cons_of_ne_nil some_, List.flatten_cons, List.length_append, last,
        moved closed]

namespace Dfc

variable (key : Option Bytes)

/-- Where the last packet starts that the loop has still to send. -/
def SendState.lastStart (state : SendState) : Nat :=
  let rest := state.fp.content.length - state.fp.pos
  DATA_SIZE_MAX *
    ((if state.n = -1 ∨ (rest : Int) < state.n then rest else state.n.toNat - 1) / DATA_SIZE_MAX)

def SendState.next (state : SendState) : SendState where
  fp := (state.fp.fread (wanted state.n)).2
  n := if state.n ≠ -1 then state.n - state.chunk.length else state.n
  c := (state.c + state.chunk.length) % 2 ^ 32
  sent := state.sent ++ [dataLayout.buildDataPacket state.c (some (applyKey key state.chunk)) 0]

theorem SendState.follows_next (state : SendState) : SendState.Follows state (state.next key) :=
  ⟨rfl, rfl⟩

theorem sendBody_of_running (accepts : Nat → Bool) (state : SendState) (running : ¬ state.Finished) :
    sendBody accepts key state = if accepts state.sent.length then .inl (state.next key)
      else .inr (-1, { state with fp := (state.fp.fread (wanted state.n)).2 }) := by
  have guard : state.fp.eof = false ∧ (state.n = -1 ∨ state.n > 0) := by
    simp only [SendState.Finished, not_or, Bool.not_eq_true] at running
    exact ⟨running.1, by omega⟩
  simp only [sendBody, guard, and_self, ↓reduceIte, length_applyKey, SendState.next]
  rfl

theorem not_finished_of_continued {accepts : Nat → Bool} {state next : SendState}
    (continued : sendBody accepts key state = .inl next) : ¬ state.Finished := by
  intro finished
  rw [sendBody_returns key _ state finished] at continued
  cases continued

theorem SendState.Follows.numbers {state next : SendState} (running : ¬ state.Finished)
    (follows : SendState.Follows state next) :
    next.fp.content.length - next.fp.pos =
        state.fp.content.length - state.fp.pos - state.chunk.length ∧
      (next.Finished ↔ state.chunk.length < wanted state.n ∨
        (state.n ≠ -1 ∧ state.n ≤ state.chunk.length)) := by
  simp only [Finished, not_or, Bool.not_eq_true] at running
  constructor
  · simp only [follows.fp, FILE.fread, Nat.sub_sub]
    rfl
  · have eof : next.fp.eof = true ↔ state.chunk.length < wanted state.n := by
      simp only [follows.fp, FILE.fread, running.1, Bool.false_or, decide_eq_true_eq]
      rfl
    have size := state.length_chunk
    simp only [wanted] at eof size
    simp only [Finished, eof, follows.n, wanted]
    apply or_congr_right
    split_ifs at size ⊢ <;> omega

theorem SendState.lastStart_of_follows {state next : SendState} (running : ¬ state.Finished)
    (follows : SendState.Follows state next) :
    (next.Finished → state.lastStart = 0) ∧
      (¬ next.Finished → state.lastStart = state.chunk.length + next.lastStart) := by
  rcases follows.numbers running with ⟨rest, finished⟩
  have size := state.length_chunk
  have count := follows.n
  simp only [Finished, not_or, Bool.not_eq_true] at running
  rw [finished]
  simp only [lastStart, rest, wanted, DATA_SIZE_MAX] at *
  generalize state.fp.content.length - state.fp.pos = left at *
  generalize state.chunk.length = taken at *
  by_cases whole : state.n = -1
  · simp only [whole, ne_eq, not_true_eq_false, ↓reduceIte, true_or, false_and, or_false] at *
    rw [if_pos (Or.inl count)]
    omega
  · rw [if_pos whole] at count size
    rw [if_pos whole]
    split_ifs <;> omega

theorem sendLoop_starts (state : SendState) :
    let result := Loop.run (sendBody (fun _ => true) key) SendState.measure
      (sendBody_decreases _ key) state
    ∃ chunks, Remaining DATA_SIZE_MAX state.Finished state.lastStart chunks ∧
      result.2.sent = state.sent ++ dataLayout.dataPackets key state.c chunks := by
  apply Loop.run_induction (sendBody (fun _ => true) key) SendState.measure
    (sendBody_decreases _ key) (motive := fun state result =>
      ∃ chunks, Remaining DATA_SIZE_MAX state.Finished state.lastStart chunks ∧
        result.2.sent = state.sent ++ dataLayout.dataPackets key state.c chunks)
  · intro state result returned
    rcases finished_of_returns key state result returned with ⟨finished, rfl⟩
    exact ⟨[], Remaining.nil finished, (List.append_nil _).symm⟩
  · intro state next result continued ih
    have running := not_finished_of_continued key continued
    rw [sendBody_of_running key _ state running, if_pos rfl] at continued
    have same := Sum.inl.inj continued
    subst same
    have follows := state.follows_next key
    rcases ih with ⟨chunks, remaining, rest⟩
    rcases SendState.lastStart_of_follows running follows with ⟨final, moved⟩
    have short : state.chunk.length ≤ DATA_SIZE_MAX := by
      have size := state.length_chunk
      have asked := wanted_le state.n
      omega
    refine ⟨state.chunk :: chunks, remaining.cons short running final moved, ?_⟩
    rw [rest, SendState.next, DataLayout.dataPackets, List.append_assoc, List.singleton_append]

theorem sendLoop_front (accepts : Nat → Bool) (state : SendState) :
    (Loop.run (sendBody accepts key) SendState.measure (sendBody_decreases _ key) state).2.sent <+:
      (Loop.run (sendBody (fun _ => true) key) SendState.measure
        (sendBody_decreases _ key) state).2.sent := by
  apply Loop.run_induction (sendBody accepts key) SendState.measure (sendBody_decreases _ key)
    (motive := fun state result => result.2.sent <+:
      (Loop.run (sendBody (fun _ => true) key) SendState.measure
        (sendBody_decreases _ key) state).2.sent)
  · intro state result returned
    by_cases finished : state.Finished
    · rw [sendBody_returns key _ state finished] at returned
      have stopped := Loop.run_return (sendBody (fun _ => true) key) SendState.measure
        (sendBody_decreases _ key) state _ (sendBody_returns key _ state finished)
      have same : result.2.sent = state.sent := by rw [← Sum.inr.inj returned]
      have whole : (Loop.run (sendBody (fun _ => true) key) SendState.measure
          (sendBody_decreases _ key) state).2.sent = state.sent := by rw [stopped]
      exact same ▸ whole ▸ List.prefix_refl _
    · rw [sendBody_of_running key accepts state finished] at returned
      split_ifs at returned
      rcases sendLoop_starts key state with ⟨chunks, -, sent⟩
      rw [sent, ← Sum.inr.inj returned]
      exact List.prefix_append _ _
  · intro state next result continued ih
    have running := not_finished_of_continued key continued
    rw [sendBody_of_running key accepts state running] at continued
    split_ifs at continued
    have stepped : sendBody (fun _ => true) key state = .inl next := by
      rw [sendBody_of_running key _ state running, if_pos rfl, continued]
    rw [Loop.run_continue _ _ _ state next stepped]
    exact ih

/-- The loop of a call that starts with `fp`. -/
def callStart (fp : FILE) (offset n : Int) : SendState := ⟨fp.fseek offset, n, 0, []⟩

theorem dataIn_sendFile (accepts : Nat → Bool) (fp : FILE) (offset n : Int) (chunks : List Bytes)
    (small : ∀ chunk ∈ chunks, chunk.length ≤ DATA_SIZE_MAX)
    (front : (Loop.run (sendBody accepts key) SendState.measure (sendBody_decreases _ key)
      (callStart fp offset n)).2.sent <+: dataLayout.dataPackets key 0 chunks) :
    dataLayout.dataIn (sendFile accepts fp offset n key).sent =
      (Loop.run (sendBody accepts key) SendState.measure (sendBody_decreases _ key)
        (callStart fp offset n)).2.sent := by
  have whole := dataLayout.dataPackets_whole key 0 chunks small
  have data := dataLayout.dataIn_eq_self (fun pkt member => (whole pkt (front.subset member)).2)
  simp only [callStart] at data ⊢
  simp only [sendFile]
  split_ifs
  · rw [DataLayout.dataIn_append_eof, data]
  · exact data
  · exact data

theorem sendFile_inPlace_iff (fp : FILE) (offset n : Int) :
    (∀ accepts key, dataLayout.InPlace
        (dataLayout.dataIn (sendFile accepts fp offset n key).sent)) ↔
      (fp.fseek offset).eof = true ∨ (callStart fp offset n).lastStart < 2 ^ 32 := by
  constructor
  · intro places
    by_cases finished : (callStart fp offset n).Finished
    · rcases finished with ended | exhausted
      · exact Or.inl ended
      · right
        have count : (callStart fp offset n).n = n := rfl
        have none_ : n.toNat - 1 = 0 := by omega
        simp only [SendState.lastStart, count, none_]
        rw [if_neg (by omega)]
        decide
    · right
      rcases sendLoop_starts none (callStart fp offset n) with ⟨chunks, remaining, sent⟩
      have small := remaining.small
      have data := (places (fun _ => true) none).counted
      have only : (Loop.run (sendBody (fun _ => true) none) SendState.measure
          (sendBody_decreases _ none) (callStart fp offset n)).2.sent =
            dataLayout.dataPackets none 0 chunks := sent
      rw [dataIn_sendFile none _ fp offset n chunks small (only ▸ List.prefix_refl _),
        only, dataLayout.counted_dataPackets_iff none chunks small,
        (remaining.last finished).2] at data
      exact data
  · intro bound accepts key
    rcases sendLoop_starts key (callStart fp offset n) with ⟨chunks, remaining, sent⟩
    have small := remaining.small
    have front := sendLoop_front key accepts (callStart fp offset n)
    rw [sent] at front
    have data := dataIn_sendFile key accepts fp offset n chunks small front
    have counted : dataLayout.Counted (dataLayout.dataPackets key 0 chunks) := by
      rw [dataLayout.counted_dataPackets_iff key chunks small]
      by_cases finished : (callStart fp offset n).Finished
      · rw [remaining.nothing finished]
        exact Nat.two_pow_pos 32
      · rw [(remaining.last finished).2]
        exact bound.resolve_left (fun ended => finished (Or.inl ended))
    rw [data]
    exact dataLayout.inPlace_of_counted (DataLayout.Counted.front dataLayout counted front)

end Dfc

namespace Udp

def PassState.next (state : PassState) : PassState where
  fp := (state.fp.fread DATA_SIZE_MAX).2
  offset := (state.offset + (state.fp.fread DATA_SIZE_MAX).1.length) % 2 ^ 32
  sent := state.sent ++
    [dataLayout.buildDataPacket state.offset (some (state.fp.fread DATA_SIZE_MAX).1) 0]

theorem passBody_of_open (state : PassState) (open_ : state.fp.eof = false) :
    passBody state = .inl state.next := if_pos open_

/-- Where the last packet starts that the pass has still to send. -/
def PassState.lastStart (state : PassState) : Nat :=
  DATA_SIZE_MAX * ((state.fp.content.length - state.fp.pos) / DATA_SIZE_MAX)

theorem PassState.lastStart_of_open (state : PassState) (open_ : state.fp.eof = false) :
    (state.next.fp.eof = true → state.lastStart = 0) ∧
      (¬ state.next.fp.eof = true →
        state.lastStart = (state.fp.fread DATA_SIZE_MAX).1.length + state.next.lastStart) := by
  have eof : state.next.fp.eof = decide ((state.fp.fread DATA_SIZE_MAX).1.length < DATA_SIZE_MAX) := by
    simp only [next, FILE.fread, open_, Bool.false_or]
  have pos : state.next.fp.pos = state.fp.pos + (state.fp.fread DATA_SIZE_MAX).1.length := rfl
  have content : state.next.fp.content = state.fp.content := rfl
  have size := state.fp.fread_length DATA_SIZE_MAX
  rw [eof, decide_eq_true_eq]
  simp only [lastStart, pos, content, DATA_SIZE_MAX] at size ⊢
  omega

theorem sendPass_starts (fp : FILE) :
    ∃ chunks, (∀ chunk ∈ chunks, chunk.length ≤ DATA_SIZE_MAX) ∧
      (sendPass fp).sent = dataLayout.dataPackets none 0 chunks ∧
      chunks.dropLast.flatten.length = DATA_SIZE_MAX * (fp.content.length / DATA_SIZE_MAX) := by
  -- `lastStart` goes with the state: where the last chunk still to be sent begins.
  have loop := Loop.run_induction passBody PassState.measure passBody_decreases
    (fun state result =>
      ∃ chunks, Remaining DATA_SIZE_MAX (state.fp.eof = true) state.lastStart chunks ∧
        result.sent = state.sent ++ dataLayout.dataPackets none state.offset chunks)
    (by
      intro state result returned
      cases open_ : state.fp.eof with
      | false =>
          rw [passBody_of_open state open_] at returned
          cases returned
      | true =>
          simp only [passBody, open_, Bool.true_eq_false, ↓reduceIte] at returned
          rw [← Sum.inr.inj returned]
          exact ⟨[], Remaining.nil rfl, (List.append_nil _).symm⟩)
    (by
      intro state next result continued ih
      have open_ : state.fp.eof = false := by
        by_contra closed
        rw [passBody, if_neg closed] at continued
        cases continued
      rw [passBody_of_open state open_] at continued
      have same := Sum.inl.inj continued
      subst same
      rcases ih with ⟨chunks, remaining, sent⟩
      rcases state.lastStart_of_open open_ with ⟨final, moved⟩
      have short : (state.fp.fread DATA_SIZE_MAX).1.length ≤ DATA_SIZE_MAX := by
        rw [FILE.fread_length]
        exact Nat.min_le_left _ _
      have running : ¬ state.fp.eof = true := by
        rw [open_]
        exact Bool.false_ne_true
      refine ⟨(state.fp.fread DATA_SIZE_MAX).1 :: chunks,
        remaining.cons short running final moved, ?_⟩
      rw [sent, PassState.next, DataLayout.dataPackets, List.append_assoc, List.singleton_append]
      rfl)
    ⟨fp.fseek 0, 0, []⟩
  rcases loop with ⟨chunks, remaining, sent⟩
  refine ⟨chunks, remaining.small, sent, ?_⟩
  rw [(remaining.last Bool.false_ne_true).2, PassState.lastStart, FILE.fseek_content]
  rfl

theorem sendPass_inPlace_iff (fp : FILE) :
    dataLayout.InPlace (sendPass fp).sent ↔
      DATA_SIZE_MAX * (fp.content.length / DATA_SIZE_MAX) < 2 ^ 32 := by
  rcases sendPass_starts fp with ⟨chunks, small, sent, starts⟩
  rw [sent, ← starts, ← dataLayout.counted_dataPackets_iff none chunks small]
  exact ⟨DataLayout.InPlace.counted, dataLayout.inPlace_of_counted⟩

/-- The packets of each pass of the `for` loop. -/
def passPackets : Nat → FILE → List (List Bytes)
  | 0, _ => []
  | passes + 1, fp => (sendPass fp).sent :: passPackets passes (sendPass fp).fp

theorem sendPasses_flatten (passes : Nat) (fp : FILE) :
    (sendPasses passes fp).1 = (passPackets passes fp).flatten := by
  induction passes generalizing fp with
  | zero => rfl
  | succ passes ih =>
      simp only [sendPasses, passPackets, List.flatten_cons]
      rw [ih]

theorem passPackets_eq (passes : Nat) (fp : FILE) :
    passPackets passes fp = List.replicate passes (sendPass fp).sent := by
  induction passes generalizing fp with
  | zero => rfl
  | succ passes ih =>
      rcases sendPass_sent fp with ⟨-, -, -, -, content⟩
      rw [passPackets, ih, sendPass_congr _ _ content, List.replicate_succ]

/-- All passes are as good as the first. -/
theorem passes_inPlace_iff (fp : FILE) :
    (∀ pass ∈ passPackets 3 fp, dataLayout.InPlace pass) ↔
      DATA_SIZE_MAX * (fp.content.length / DATA_SIZE_MAX) < 2 ^ 32 := by
  rw [passPackets_eq, ← sendPass_inPlace_iff]
  simp

end Udp

/-- The offsets of both programs are right exactly when the last packet of the call, or of
a pass, starts below 2 ^ 32. -/
theorem offsets_in_place_iff (fp : FILE) :
    (∀ offset n : Int,
      (∀ accepts key, Dfc.dataLayout.InPlace
          (Dfc.dataLayout.dataIn (Dfc.sendFile accepts fp offset n key).sent)) ↔
        (fp.fseek offset).eof = true ∨ (Dfc.callStart fp offset n).lastStart < 2 ^ 32) ∧
    (Udp.sendFile fp).1 = (Udp.passPackets 3 fp).flatten ++ [Udp.dataLayout.eofPacket] ∧
    ((∀ pass ∈ Udp.passPackets 3 fp, Udp.dataLayout.InPlace pass) ↔
      Udp.DATA_SIZE_MAX * (fp.content.length / Udp.DATA_SIZE_MAX) < 2 ^ 32) := by
  refine ⟨fun offset n => Dfc.sendFile_inPlace_iff fp offset n, ?_, Udp.passes_inPlace_iff fp⟩
  simp only [Udp.sendFile, Udp.sendPasses_flatten]

def longFile : FILE := FILE.opened (zeros (2 ^ 32 + 500))

theorem offsets_wrap :
    longFile.content.length < 2 ^ 63 ∧
    (¬ ∀ accepts key, Dfc.dataLayout.InPlace
      (Dfc.dataLayout.dataIn (Dfc.sendFile accepts longFile 0 (-1) key).sent)) ∧
    ¬ ∀ pass ∈ Udp.passPackets 3 longFile, Udp.dataLayout.InPlace pass := by
  have size : longFile.content.length = 2 ^ 32 + 500 := List.length_replicate
  refine ⟨by omega, ?_, ?_⟩
  · rw [Dfc.sendFile_inPlace_iff]
    intro either
    rcases either with ended | bound
    · cases ended
    · have pos : (Dfc.callStart longFile 0 (-1)).fp.pos = 0 := rfl
      have content : (Dfc.callStart longFile 0 (-1)).fp.content = longFile.content := rfl
      have count : (Dfc.callStart longFile 0 (-1)).n = -1 := rfl
      rw [Dfc.SendState.lastStart, pos, content, size, if_pos (Or.inl count)] at bound
      exact absurd bound (by decide)
  · rw [Udp.passes_inPlace_iff, size]
    decide

end NetworkSystem
