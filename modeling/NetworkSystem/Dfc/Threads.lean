import NetworkSystem.Dfc.Framing
import NetworkSystem.Dfc.Handlers
import NetworkSystem.Lib.Interleave

/-! The threads of a round of the client in any order of their calls: every packet that one
of them sends or receives is a step of its own. -/

namespace NetworkSystem.Dfc

open Bytes Store Calls

/-- Where a thread is: in front of a call, or in the loop of a transfer with what follows
it. -/
inductive Doing where
  | program (p : Handler.Program Result)
  | sending (state : SendState) (key : Option Bytes) (next : FILE → Handler.Program Result)
  | receiving (path : Bytes) (receiver : Receiver) (key : Option Bytes)
      (next : Int × FILE → Handler.Program Result)

/-- A thread with its socket, which no other one uses. -/
structure Running where
  conn : Conn
  doing : Doing

namespace Running

/-- One run of the `send_file` loop, or its end. -/
def sendStep (conn : Conn) (state : SendState) (key : Option Bytes)
    (next : FILE → Handler.Program Result) : Running :=
  match sendBody (fun _ => lives conn.life 0) key state with
  | .inl later => ⟨conn.deliver (later.sent.drop state.sent.length), .sending later key next⟩
  | .inr (code, last) =>
      if code = 0 ∧ lives conn.life 0 = true then
        ⟨conn.deliver [dataLayout.eofPacket], .program (next last.fp)⟩
      else ⟨conn, .program (next last.fp)⟩

/-- One run of the `receive_file` loop; `none` while it waits. -/
def receiveStep (conn : Conn) (disk : Disk) (path : Bytes) (receiver : Receiver)
    (key : Option Bytes) (next : Int × FILE → Handler.Program Result) : Option (Running × Disk) :=
  if lives conn.life 0 then
    match conn.inbox with
    | [] => none
    | bytes :: rest =>
        let conn := { conn with inbox := rest, life := spend conn.life 1 }
        let buffer := recvInto (zeros PACKET_SIZE) bytes
        if dataLayout.eof buffer = 1 then some (⟨conn, .program (next (0, receiver.fp))⟩, disk)
        else
          let receiver := receiver.storePacket dataLayout key buffer
          some (⟨conn, .receiving path receiver key next⟩, disk.leave path receiver.fp)
  else some (⟨conn, .program (next (-1, receiver.fp))⟩, disk)

/-- The next call of a thread; `none` when it waits or has returned. What of a written stream
has reached its file is up to the system all the time. -/
def step (thread : Running) (disk : Disk) : Option (Running × Disk) :=
  match thread.doing with
  | .program (.ret _) => none
  | .program (.call (.sendFile fp offset n key) next) =>
      some (⟨thread.conn, .sending ⟨fp.fseek offset, n, 0, []⟩ key next⟩, disk)
  | .program (.call (.receiveFile path fp key) next) =>
      some (⟨thread.conn, .receiving path (Receiver.start fp) key next⟩, disk.leave path fp)
  | .program (.call c next) =>
      (respond c ⟨thread.conn, disk⟩).map (fun (reply, world) =>
        (⟨world.conn, .program (next reply)⟩, world.disk))
  | .sending state key next => some (sendStep thread.conn state key next, disk)
  | .receiving path receiver key next =>
      receiveStep thread.conn disk path receiver key next

end Running

/-! A transfer packet by packet is the transfer as one call. -/

theorem spend_spend (life : Option Nat) (first second : Nat) :
    spend (spend life first) second = spend life (first + second) := by
  cases life with
  | none => rfl
  | some left => simp only [spend, Option.map_some, Nat.sub_sub]

theorem lives_spend (life : Option Nat) (calls k : Nat) :
    lives (spend life calls) k = lives life (calls + k) := by
  cases life with
  | none => rfl
  | some left =>
      simp only [spend, Option.map_some, lives, decide_eq_decide]
      omega

theorem Conn.deliver_nil (conn : Conn) : conn.deliver [] = conn := by
  have life : spend conn.life 0 = conn.life := by
    cases conn.life <;> rfl
  simp only [deliver, serverRun, List.append_nil, List.length_nil, life]

theorem Conn.deliver_append (conn : Conn) (first second : List Bytes) :
    (conn.deliver first).deliver second = conn.deliver (first ++ second) := by
  simp only [deliver, serverRun_append, List.append_assoc, List.length_append, spend_spend]

theorem Conn.lives_deliver (conn : Conn) (packets : List Bytes) :
    lives (conn.deliver packets).life 0 = lives conn.life packets.length := by
  rw [deliver, lives_spend, Nat.add_zero]

def Conn.hear (conn : Conn) (calls : Nat) : Conn :=
  { conn with inbox := conn.inbox.drop calls, life := spend conn.life calls }

theorem Conn.hear_zero (conn : Conn) : conn.hear 0 = conn := by
  have life : spend conn.life 0 = conn.life := by
    cases conn.life <;> rfl
  simp only [hear, List.drop_zero, life]

theorem Conn.hear_hear (conn : Conn) (first second : Nat) :
    (conn.hear first).hear second = conn.hear (first + second) := by
  simp only [hear, List.drop_drop, spend_spend]

theorem Conn.arriving_dead {conn : Conn} (dead : lives conn.life 0 = false) :
    conn.arriving = ⟨[], some conn.fault⟩ := by
  cases life : conn.life with
  | none =>
      rw [life] at dead
      cases dead
  | some left =>
      rw [life, lives, decide_eq_false_iff_not] at dead
      have zero : left = 0 := by omega
      simp only [arriving, life, zero, List.take_zero, Nat.zero_le, ↓reduceIte]

theorem Conn.arriving_waits {conn : Conn} (alive : lives conn.life 0 = true)
    (empty : conn.inbox = []) : conn.arriving = ⟨[], none⟩ := by
  cases life : conn.life with
  | none => simp only [arriving, life, empty]
  | some left =>
      rw [life, lives, decide_eq_true_eq] at alive
      have more : ¬ left ≤ 0 := by omega
      simp only [arriving, life, empty, List.take_nil, List.length_nil, more, ↓reduceIte]

theorem Conn.arriving_hear {conn : Conn} (alive : lives conn.life 0 = true) {bytes : Bytes}
    {rest : List Bytes} (inbox : conn.inbox = bytes :: rest) :
    conn.arriving = ⟨bytes :: (conn.hear 1).arriving.packets, (conn.hear 1).arriving.ending⟩ := by
  cases life : conn.life with
  | none =>
      simp only [arriving, hear, life, inbox, spend, Option.map_none, List.drop_one, List.tail_cons]
  | some left =>
      rw [life, lives, decide_eq_true_eq] at alive
      obtain ⟨less, rfl⟩ : ∃ less, left = less + 1 := ⟨left - 1, by omega⟩
      simp only [arriving, hear, life, inbox, spend, Option.map_some, List.take_succ_cons,
        List.length_cons, Nat.add_le_add_iff_right, Nat.add_sub_cancel, List.drop_one,
        List.tail_cons]

namespace Running

open Interleave

theorem sendBody_congr {accepts other : Nat → Bool} (key : Option Bytes) (state : SendState)
    (same : accepts state.sent.length = other state.sent.length) :
    sendBody accepts key state = sendBody other key state := by
  simp only [sendBody, same]

theorem sent_of_sendBody {accepts : Nat → Bool} {key : Option Bytes} {state next : SendState}
    (continued : sendBody accepts key state = .inl next) : state.sent <+: next.sent := by
  simp only [sendBody] at continued
  split at continued
  · split at continued
    · rw [← Sum.inl.inj continued]
      exact List.prefix_append _ _
    · cases continued
  · cases continued

theorem alone_sending (start : Conn) (disk : Disk) (key : Option Bytes)
    (next : FILE → Handler.Program Result) (state : SendState) :
    let result := Loop.run (sendBody (lives start.life) key) SendState.measure
      (sendBody_decreases _ key) state
    Alone step (⟨start.deliver state.sent, .sending state key next⟩, disk)
      (⟨start.deliver (if result.1 = 0 ∧ lives start.life result.2.sent.length = true then
          result.2.sent ++ [dataLayout.eofPacket] else result.2.sent),
        .program (next result.2.fp)⟩, disk) := by
  apply Loop.run_induction (sendBody (lives start.life) key) SendState.measure
    (sendBody_decreases _ key)
    (motive := fun state result =>
      Alone step (⟨start.deliver state.sent, .sending state key next⟩, disk)
        (⟨start.deliver (if result.1 = 0 ∧ lives start.life result.2.sent.length = true then
            result.2.sent ++ [dataLayout.eofPacket] else result.2.sent),
          .program (next result.2.fp)⟩, disk))
  · intro state result returned
    have body : sendBody (fun _ => lives start.life state.sent.length) key state = .inr result := by
      rw [← returned]
      exact sendBody_congr key state rfl
    have same : result.2.sent = state.sent := by
      simp only [sendBody] at returned
      split at returned
      · split at returned
        · cases returned
        · rw [← Sum.inr.inj returned]
      · rw [← Sum.inr.inj returned]
    apply Alone.single
    simp only [step, sendStep, start.lives_deliver, body, same]
    split_ifs
    · rw [start.deliver_append]
    · rfl
  · intro state later result continued ih
    have body : sendBody (fun _ => lives start.life state.sent.length) key state = .inl later := by
      rw [← continued]
      exact sendBody_congr key state rfl
    rcases sent_of_sendBody continued with ⟨more, grown⟩
    refine Alone.head ?_ ih
    simp only [step, sendStep, start.lives_deliver, body, start.deliver_append, ← grown,
      List.drop_left]

theorem alone_dead (disk : Disk) (path : Bytes) (key : Option Bytes)
    (next : Int × FILE → Handler.Program Result) (conn : Conn) (receiver : Receiver)
    (dead : lives conn.life 0 = false) {code : Int}
    (returned : (receiveLoop key (some conn.fault) receiver []).code = some code) :
    Alone step (⟨conn, .receiving path receiver key next⟩, disk.leave path receiver.fp)
      (⟨conn.hear 0, .program (next (code, receiver.fp))⟩, disk.leave path receiver.fp) := by
  have failed : (-1 : Int) = code := Option.some.inj returned
  apply Alone.single
  simp only [step, receiveStep, dead, Bool.false_eq_true, ↓reduceIte, failed, Conn.hear_zero]

theorem alone_receiving (disk : Disk) (path : Bytes) (key : Option Bytes)
    (next : Int × FILE → Handler.Program Result) (conn : Conn) (receiver : Receiver) (code : Int)
    (returned : (receiveLoop key conn.arriving.ending receiver conn.arriving.packets).code =
      some code) :
    let result := receiveLoop key conn.arriving.ending receiver conn.arriving.packets
    let taken := conn.arriving.packets.length - result.inbox.packets.length
    Alone step (⟨conn, .receiving path receiver key next⟩, disk.leave path receiver.fp)
      (⟨conn.hear taken, .program (next (code, result.fp))⟩, disk.leave path result.fp) := by
  induction arrived : conn.inbox generalizing conn receiver with
  | nil =>
      by_cases alive : lives conn.life 0 = true
      · rw [Conn.arriving_waits alive arrived] at returned
        cases returned
      · rw [Bool.not_eq_true] at alive
        rw [Conn.arriving_dead alive] at returned ⊢
        exact alone_dead disk path key next conn receiver alive returned
  | cons bytes rest ih =>
      by_cases alive : lives conn.life 0 = true
      · rw [Conn.arriving_hear alive arrived] at returned ⊢
        have same : { conn with inbox := rest, life := spend conn.life 1 } = conn.hear 1 := by
          rw [Conn.hear, arrived]
          rfl
        by_cases ended : dataLayout.eof (recvInto (zeros PACKET_SIZE) bytes) = 1
        · simp only [receiveLoop, ended, ↓reduceIte, Option.some.injEq] at returned ⊢
          apply Alone.single
          simp only [step, receiveStep, alive, arrived, ended, ↓reduceIte, ← returned, same,
            List.length_cons, Nat.add_sub_cancel_left]
        · simp only [receiveLoop, ended, ↓reduceIte] at returned ⊢
          have later := ih (conn.hear 1) _ returned (by rw [Conn.hear, arrived]; rfl)
          have shorter := receiveLoop_shrinks key (conn.hear 1).arriving.ending
            (receiver.storePacket dataLayout key (recvInto (zeros PACKET_SIZE) bytes))
            (conn.hear 1).arriving.packets
          have count : ∀ {all left : Nat}, left ≤ all → 1 + (all - left) = all + 1 - left := by
            omega
          simp only [Conn.hear_hear, count shorter] at later
          refine Alone.head ?_ later
          simp only [step, receiveStep, alive, arrived, ended, ↓reduceIte, same, Disk.leave_leave]
      · rw [Bool.not_eq_true] at alive
        rw [Conn.arriving_dead alive] at returned ⊢
        exact alone_dead disk path key next conn receiver alive returned

theorem alone_sendFile (conn : Conn) (disk : Disk) (fp : FILE) (offset n : Int)
    (key : Option Bytes) (next : FILE → Handler.Program Result) :
    Alone step (⟨conn, .program (.call (.sendFile fp offset n key) next)⟩, disk)
      (⟨(conn.sendFile fp offset n key).2, .program (next (conn.sendFile fp offset n key).1)⟩,
        disk) := by
  have loop := alone_sending conn disk key next ⟨fp.fseek offset, n, 0, []⟩
  rw [Conn.deliver_nil] at loop
  apply Alone.head rfl
  simp only [Conn.sendFile, Dfc.sendFile]
  generalize Loop.run (sendBody (lives conn.life) key) SendState.measure
    (sendBody_decreases _ key) ⟨fp.fseek offset, n, 0, []⟩ = result at loop ⊢
  by_cases done : result.1 = 0
  · by_cases alive : lives conn.life result.2.sent.length = true
    · simpa only [done, alive, and_self, ↓reduceIte] using loop
    · simpa only [done, alive, and_false, Bool.false_eq_true, ↓reduceIte] using loop
  · simpa only [done, false_and, ↓reduceIte] using loop

theorem alone_receiveFile (conn : Conn) (disk : Disk) (path : Bytes) (fp : FILE)
    (key : Option Bytes) (next : Int × FILE → Handler.Program Result) {code : Int}
    (returned : (conn.receiveFile fp key).1 = some code) :
    Alone step (⟨conn, .program (.call (.receiveFile path fp key) next)⟩, disk)
      (⟨(conn.receiveFile fp key).2.2, .program (next (code, (conn.receiveFile fp key).2.1))⟩,
        disk.leave path (conn.receiveFile fp key).2.1) := by
  apply Alone.head rfl
  exact alone_receiving disk path key next conn (Receiver.start fp) code returned

theorem alone_answered {world last : World} {c : Call} {reply : Reply c}
    (next : Reply c → Handler.Program Result) (answered : respond c world = some (reply, last)) :
    Alone step (⟨world.conn, .program (.call c next)⟩, world.disk)
      (⟨last.conn, .program (next reply)⟩, last.disk) := by
  cases c with
  | sendFile fp offset n key =>
      obtain ⟨rfl, rfl⟩ := Prod.mk.inj (Option.some.inj answered)
      exact alone_sendFile world.conn world.disk fp offset n key next
  | receiveFile path fp key =>
      simp only [respond] at answered
      cases received : world.conn.receiveFile fp key with
      | mk code rest =>
          cases code with
          | none =>
              rw [received] at answered
              cases answered
          | some code =>
              rw [received] at answered
              obtain ⟨rfl, rfl⟩ := Prod.mk.inj (Option.some.inj answered)
              have alone := alone_receiveFile world.conn world.disk path fp key next
                (congrArg Prod.fst received)
              rw [received] at alone
              exact alone
  | _ =>
      apply Alone.single
      simp only [step, answered, Option.map_some]

/-- A thread that no other one runs beside of is its program in one piece. -/
theorem alone_program {p : Handler.Program Result} {world last : World} {result : Result}
    (ended : Prog.run respond p world = some (result, last)) :
    Alone step (⟨world.conn, .program p⟩, world.disk)
      (⟨last.conn, .program (.ret result)⟩, last.disk) := by
  induction p generalizing world with
  | ret value =>
      rw [Prog.run_ret, Option.some.injEq, Prod.mk.injEq] at ended
      rw [ended.1, ended.2]
      exact Relation.ReflTransGen.refl
  | call c next ih =>
      obtain ⟨reply, middle, answered, later⟩ := (Prog.run_call_eq_some respond).mp ended
      exact (alone_answered next answered).trans (ih reply later)

/-- A thread that waits, whatever the others do, and has not returned. -/
def Stuck (thread : Running) : Prop :=
  (∀ disk, step thread disk = none) ∧ ∀ result, thread.doing ≠ .program (.ret result)

theorem stuck_receiving (path : Bytes) (key : Option Bytes)
    (next : Int × FILE → Handler.Program Result) (conn : Conn) (receiver : Receiver) (disk : Disk)
    (waits : (receiveLoop key conn.arriving.ending receiver conn.arriving.packets).code = none) :
    ∃ thread after, Alone step (⟨conn, .receiving path receiver key next⟩, disk)
      (thread, after) ∧ thread.Stuck := by
  have alive : lives conn.life 0 = true := by
    by_contra dead
    rw [Bool.not_eq_true] at dead
    rw [Conn.arriving_dead dead] at waits
    cases waits
  induction arrived : conn.inbox generalizing conn receiver disk with
  | nil =>
      refine ⟨_, disk, Relation.ReflTransGen.refl, ?_, ?_⟩
      · intro other
        simp only [step, receiveStep, alive, arrived, ↓reduceIte]
      · intro result same
        cases same
  | cons bytes rest ih =>
      rw [Conn.arriving_hear alive arrived] at waits
      by_cases ended : dataLayout.eof (recvInto (zeros PACKET_SIZE) bytes) = 1
      · simp only [receiveLoop, ended, ↓reduceIte] at waits
        cases waits
      · simp only [receiveLoop, ended, ↓reduceIte] at waits
        have later : lives (conn.hear 1).life 0 = true := by
          by_contra dead
          rw [Bool.not_eq_true] at dead
          rw [Conn.arriving_dead dead] at waits
          cases waits
        have inbox : (conn.hear 1).inbox = rest := by
          rw [Conn.hear, arrived]
          rfl
        rcases ih (conn.hear 1) _ (disk.leave path (receiver.storePacket dataLayout key
          (recvInto (zeros PACKET_SIZE) bytes)).fp) waits later inbox with
            ⟨thread, after, alone, stuck⟩
        refine ⟨thread, after, Alone.head ?_ alone, stuck⟩
        simp only [step, receiveStep, alive, arrived, ended, ↓reduceIte, Conn.hear, List.drop_one,
          List.tail_cons]

theorem stuck_call {world : World} {c : Call} (next : Reply c → Handler.Program Result)
    (waits : respond c world = none) :
    ∃ thread after, Alone step (⟨world.conn, .program (.call c next)⟩, world.disk)
      (thread, after) ∧ thread.Stuck := by
  cases c with
  | send pkt =>
      simp only [respond] at waits
      split at waits <;> cases waits
  | recv =>
      by_cases alive : lives world.conn.life 0 = true
      · cases inbox : world.conn.inbox with
        | nil =>
            refine ⟨_, world.disk, Relation.ReflTransGen.refl, ?_, ?_⟩
            · intro disk
              simp only [step, respond, alive, inbox, ↓reduceIte, Option.map_none]
            · intro result same
              cases same
        | cons bytes rest =>
            simp only [respond, alive, inbox, ↓reduceIte] at waits
            cases waits
      · simp only [respond, alive, ↓reduceIte, Bool.false_eq_true] at waits
        cases waits
  | fopenWrite path =>
      simp only [respond] at waits
      split at waits <;> cases waits
  | receiveFile path fp key =>
      have code : (world.conn.receiveFile fp key).1 = none := by
        simp only [respond] at waits
        split at waits
        · rename_i received
          rw [received]
        · cases waits
      rcases stuck_receiving path key next world.conn (Receiver.start fp)
        (world.disk.leave path fp) code with ⟨thread, after, alone, stuck⟩
      exact ⟨thread, after, Alone.head rfl alone, stuck⟩
  | _ => cases waits

/-- A program that never ends comes to a call that is never answered. -/
theorem stuck_program {p : Handler.Program Result} {world : World}
    (waits : Prog.run respond p world = none) :
    ∃ thread after, Alone step (⟨world.conn, .program p⟩, world.disk) (thread, after) ∧
      thread.Stuck := by
  induction p generalizing world with
  | ret value => cases waits
  | call c next ih =>
      rw [Prog.run_call] at waits
      cases answered : respond c world with
      | some both =>
          rw [answered] at waits
          rcases ih both.1 waits with ⟨thread, after, alone, stuck⟩
          exact ⟨thread, after, (alone_answered next answered).trans alone, stuck⟩
      | none => exact stuck_call next answered

end Running

end NetworkSystem.Dfc
