import NetworkSystem.Dfc.Handlers

/-! A request on a connection and what the server answers to it, when the server waits for a
command and the client has read all that was sent before. -/

namespace NetworkSystem.Dfc

open Bytes Store Calls

def Conn.up (conn : Conn) : Prop := lives conn.life 0 = true

theorem lives_of_spend {life : Option Nat} {calls : Nat} (up : lives (spend life calls) 0 = true)
    (k : Nat) (within : k ≤ calls) : lives life k = true := by
  cases life with
  | none => rfl
  | some left =>
      simp only [spend, Option.map_some, lives, decide_eq_true_eq] at up ⊢
      omega

theorem up_of_deliver {conn : Conn} {packets : List Bytes} (up : (conn.deliver packets).up) :
    conn.up :=
  lives_of_spend up 0 (Nat.zero_le _)

/-- Answers that a connection gives which is still up behind them. -/
def Lively : (c : Call) → Reply c → Prop
  | .send _, sent => sent = true
  | .recv, reply => ∃ bytes, reply = .ok bytes
  | .receiveFile _ _ _, received => 0 ≤ received.1
  | _, _ => True

theorem receiveLoop_code (key : Option Bytes) (ending : Option Fault) (receiver : Receiver)
    (packets : List Bytes) :
    (receiveLoop key ending receiver packets).code = some 0 ∨
      (receiveLoop key ending receiver packets).code = ending.map (fun _ => -1) ∧
        (receiveLoop key ending receiver packets).inbox.packets = [] := by
  induction packets generalizing receiver with
  | nil => exact Or.inr ⟨rfl, rfl⟩
  | cons bytes rest ih =>
      rw [receiveLoop]
      by_cases ended : dataLayout.eof (recvInto (zeros PACKET_SIZE) bytes) = 1
      · simp only [ended, ↓reduceIte]
        exact Or.inl trivial
      · simp only [ended, ↓reduceIte]
        exact ih _

theorem receiveFile_lively (conn : Conn) (fp : FILE) (key : Option Bytes) (code : Int)
    (returned : (conn.receiveFile fp key).1 = some code) (up : (conn.receiveFile fp key).2.2.up) :
    0 ≤ code := by
  simp only [Conn.receiveFile, receiveFile] at returned up
  rcases receiveLoop_code key conn.arriving.ending (Receiver.start fp) conn.arriving.packets with
      done | ⟨failed, drained⟩
  · rw [done] at returned
    exact Int.le_of_eq (Option.some.inj returned)
  · cases life : conn.life with
    | none =>
        have waits : conn.arriving.ending = none := by simp only [Conn.arriving, life]
        rw [failed, waits] at returned
        cases returned
    | some left =>
        by_cases short : left ≤ conn.inbox.length
        · have packets : conn.arriving.packets.length = left := by
            simp only [Conn.arriving, life, List.length_take]
            omega
          rw [drained, packets, life] at up
          simp only [Conn.up, spend, lives, Option.map_some, List.length_nil, Nat.sub_zero,
            Nat.sub_self, Nat.lt_irrefl, decide_false, Bool.false_eq_true] at up
        · have waits : conn.arriving.ending = none := by
            simp only [Conn.arriving, life, short, ↓reduceIte]
          rw [failed, waits] at returned
          cases returned

theorem recv_up (world after : World) (reply : Reply .recv)
    (answered : respond .recv world = some (reply, after)) (up : after.conn.up) :
    world.conn.up ∧ ∃ bytes rest, world.conn.inbox = bytes :: rest ∧ reply = .ok bytes ∧
      after = { world with
        conn := { world.conn with inbox := rest, life := spend world.conn.life 1 } } := by
  by_cases alive : lives world.conn.life 0 = true
  · refine ⟨alive, ?_⟩
    simp only [respond, alive, ↓reduceIte] at answered
    cases inbox : world.conn.inbox with
    | nil =>
        rw [inbox] at answered
        cases answered
    | cons bytes rest =>
        rw [inbox] at answered
        obtain ⟨brought, same⟩ := Prod.mk.inj (Option.some.inj answered)
        exact ⟨bytes, rest, rfl, brought.symm, same.symm⟩
  · simp only [respond, alive] at answered
    obtain ⟨-, same⟩ := Prod.mk.inj (Option.some.inj answered)
    rw [← same] at up
    exact absurd up alive

theorem send_up (pkt : Bytes) (world after : World) (sent : Bool)
    (answered : respond (.send pkt) world = some (sent, after)) (up : after.conn.up) :
    world.conn.up ∧ sent = true ∧ after = { world with conn := world.conn.deliver [pkt] } := by
  by_cases alive : lives world.conn.life 0 = true
  · simp only [respond, Conn.send, alive, ↓reduceIte, Option.some.injEq, Prod.mk.injEq] at answered
    exact ⟨alive, answered.1.symm, answered.2.symm⟩
  · simp only [respond, Conn.send, alive, Bool.false_eq_true, ↓reduceIte, Option.some.injEq,
      Prod.mk.injEq] at answered
    rw [← answered.2] at up
    exact absurd up alive

/-- No call brings a connection up again, and those in front of one that is up have
succeeded. -/
theorem respond_up (c : Call) (world after : World) (reply : Reply c)
    (answered : respond c world = some (reply, after)) (up : after.conn.up) :
    world.conn.up ∧ Lively c reply := by
  cases c with
  | send pkt =>
      have sent := send_up pkt world after reply answered up
      exact ⟨sent.1, sent.2.1⟩
  | recv =>
      rcases recv_up world after reply answered up with ⟨alive, bytes, rest, -, brought, -⟩
      exact ⟨alive, bytes, brought⟩
  | receiveFile path fp key =>
      have lively := receiveFile_lively world.conn fp key
      simp only [respond] at answered
      generalize received : world.conn.receiveFile fp key = result at answered lively
      rcases result with ⟨⟨⟩ | code, stored, conn⟩
      · cases answered
      · obtain ⟨rfl, rfl⟩ := Prod.mk.inj (Option.some.inj answered)
        have behind : conn = (world.conn.receiveFile fp key).2.2 := by rw [received]
        refine ⟨?_, lively code rfl up⟩
        rw [behind] at up
        exact lives_of_spend up 0 (Nat.zero_le _)
  | sendFile fp offset n key =>
      simp only [respond, Conn.sendFile] at answered
      obtain ⟨-, rfl⟩ := Prod.mk.inj (Option.some.inj answered)
      exact ⟨up_of_deliver up, trivial⟩
  | fopenWrite path =>
      refine ⟨?_, trivial⟩
      simp only [respond] at answered
      cases opened : world.disk.fopenWrite path with
      | none =>
          rw [opened] at answered
          obtain ⟨-, rfl⟩ := Prod.mk.inj (Option.some.inj answered)
          exact up
      | some stream =>
          rw [opened] at answered
          obtain ⟨-, rfl⟩ := Prod.mk.inj (Option.some.inj answered)
          exact up
  | readMsg | readErrno | fopenRead path | fclose path fp =>
      obtain ⟨-, rfl⟩ := Prod.mk.inj (Option.some.inj answered)
      exact ⟨up, trivial⟩

theorem run_up {α : Type} (p : Handler.Program α) (world last : World) (value : α)
    (ended : Prog.run respond p world = some (value, last)) (up : last.conn.up) :
    world.conn.up := by
  by_contra down
  exact Prog.run_keeps respond (fun world => ¬ world.conn.up)
    (fun c state reply next down answered up => down (respond_up c state next reply answered up).1)
    p world last value down ended up

section run

variable {α : Type} {world last : World} {value : α}

theorem run_send {pkt : Bytes} {next : Bool → Handler.Program α}
    (ended : Prog.run respond (.call (.send pkt) next) world = some (value, last))
    (up : last.conn.up) :
    Prog.run respond (next true) { world with conn := world.conn.deliver [pkt] } =
      some (value, last) := by
  obtain ⟨sent, middle, answered, rest⟩ := (Prog.run_call_eq_some respond).mp ended
  have alive := run_up _ _ _ _ rest up
  rcases send_up pkt world middle sent answered alive with ⟨-, rfl, rfl⟩
  exact rest

theorem run_recv {next : Reply .recv → Handler.Program α}
    (ended : Prog.run respond (.call .recv next) world = some (value, last))
    (up : last.conn.up) :
    ∃ bytes rest, world.conn.inbox = bytes :: rest ∧
      Prog.run respond (next (.ok bytes)) { world with
        conn := { world.conn with inbox := rest, life := spend world.conn.life 1 } } =
          some (value, last) := by
  obtain ⟨reply, middle, answered, later⟩ := (Prog.run_call_eq_some respond).mp ended
  have alive := run_up _ _ _ _ later up
  rcases recv_up world middle reply answered alive with ⟨-, bytes, rest, inbox, rfl, rfl⟩
  exact ⟨bytes, rest, inbox, later⟩

end run

/-- Packets with data, and none that ends a file. -/
def DataOnly (pkts : List Bytes) : Prop :=
  ∀ pkt ∈ pkts, pkt.length = PACKET_SIZE ∧ dataLayout.eof pkt ≠ 1

theorem sendFile_dataOnly (fp : FILE) (offset n : Int) (key : Option Bytes) :
    ∃ pkts, DataOnly pkts ∧
      (sendFile (fun _ => true) fp offset n key).sent = pkts ++ [dataLayout.eofPacket] := by
  rcases sendLoop_sent key ⟨fp.fseek offset, n, 0, []⟩ with ⟨code, chunks, blocked, -, sent, -⟩
  refine ⟨dataLayout.dataPackets key 0 chunks, dataLayout.dataPackets_whole key 0 chunks blocked.le,
    ?_⟩
  simp only [sendFile, code, ↓reduceIte]
  rw [sent, List.nil_append]

theorem sendBody_accepted (accepts : Nat → Bool) (key : Option Bytes) (state : SendState)
    (accepted : accepts state.sent.length = true) :
    sendBody accepts key state = sendBody (fun _ => true) key state := by
  simp only [sendBody, accepted, ↓reduceIte]

theorem sendBody_refused (accepts : Nat → Bool) (key : Option Bytes) (state : SendState)
    (refused : accepts state.sent.length = false) :
    ∃ code fp, sendBody accepts key state = .inr (code, { state with fp }) := by
  simp only [sendBody, refused, Bool.false_eq_true, ↓reduceIte]
  split_ifs
  · exact ⟨_, _, rfl⟩
  · exact ⟨_, _, rfl⟩

theorem sendLoop_accepted (accepts : Nat → Bool) (key : Option Bytes) (state : SendState)
    (all : ∀ k ≤ (Loop.run (sendBody accepts key) SendState.measure
      (sendBody_decreases accepts key) state).2.sent.length, accepts k = true) :
    Loop.run (sendBody accepts key) SendState.measure (sendBody_decreases accepts key) state =
      Loop.run (sendBody (fun _ => true) key) SendState.measure
        (sendBody_decreases (fun _ => true) key) state := by
  apply Loop.run_induction (sendBody accepts key) SendState.measure (sendBody_decreases accepts key)
    (motive := fun state result => (∀ k ≤ result.2.sent.length, accepts k = true) →
      result = Loop.run (sendBody (fun _ => true) key) SendState.measure
        (sendBody_decreases (fun _ => true) key) state) _ _ state all
  · intro state result returned all
    by_cases accepted : accepts state.sent.length = true
    · symm
      apply Loop.run_return
      rw [← sendBody_accepted accepts key state accepted, returned]
    · rcases sendBody_refused accepts key state (by simpa using accepted) with ⟨code, fp, refused⟩
      rw [returned, Sum.inr.injEq] at refused
      rw [refused] at all
      exact absurd (all _ (Nat.le_refl _)) accepted
  · intro state next result continued ih all
    have accepted : accepts state.sent.length = true := by
      by_contra refused
      rcases sendBody_refused accepts key state (by simpa using refused) with ⟨code, fp, stopped⟩
      rw [continued] at stopped
      cases stopped
    rw [ih all]
    symm
    apply Loop.run_continue
    rw [← sendBody_accepted accepts key state accepted, continued]

theorem sendFile_up (conn : Conn) (fp : FILE) (offset n : Int) (key : Option Bytes)
    (up : (conn.sendFile fp offset n key).2.up) :
    (conn.sendFile fp offset n key).2 =
      conn.deliver (sendFile (fun _ => true) fp offset n key).sent := by
  have accepted : ∀ k ≤ (sendFile (lives conn.life) fp offset n key).sent.length,
      lives conn.life k = true := fun k within => lives_of_spend up k within
  have loop := sendLoop_accepted (lives conn.life) key ⟨fp.fseek offset, n, 0, []⟩
  have same : sendFile (lives conn.life) fp offset n key =
      sendFile (fun _ => true) fp offset n key := by
    simp only [sendFile] at accepted ⊢
    generalize Loop.run (sendBody (lives conn.life) key) _ _ _ = result at accepted loop ⊢
    have all : ∀ k ≤ result.2.sent.length, lives conn.life k = true := by
      intro k within
      apply accepted
      split_ifs
      · rw [List.length_append]
        exact Nat.le_add_right_of_le within
      · exact within
      · exact within
    simp only [← loop all, all _ (Nat.le_refl _)]
  rw [Conn.sendFile, same]

theorem serverRun_dataOnly (users : Users) (accepts : Nat → Nat → Bool) (disk : Disk) (path : Bytes)
    (receiver : Receiver) (served : Nat) (pkts : List Bytes) (data : DataOnly pkts) :
    ∃ last, serverRun users accepts ⟨disk, .receiving path receiver, served⟩
      (pkts ++ [dataLayout.eofPacket]) = (⟨last, .idle, served⟩, []) := by
  induction pkts generalizing disk receiver with
  | nil =>
      simp only [List.nil_append, serverRun, serverStep,
        recvInto_whole _ dataLayout.length_eofPacket, DataLayout.eof_eofPacket, ↓reduceIte]
      exact ⟨_, rfl⟩
  | cons pkt rest ih =>
      rcases data pkt List.mem_cons_self with ⟨whole, more⟩
      rcases ih (disk.leave path (receiver.storePacket dataLayout none pkt).fp)
        (receiver.storePacket dataLayout none pkt)
        (fun next member => data next (List.mem_cons_of_mem _ member)) with ⟨last, run⟩
      refine ⟨last, ?_⟩
      simp only [List.cons_append, serverRun, serverStep, recvInto_whole _ whole, more, ↓reduceIte,
        run, List.nil_append]

/-- A file that has come is read up to its last packet on a connection that is up behind
it. -/
theorem receiveFile_up (conn : Conn) (fp : FILE) (key : Option Bytes) (pkts : List Bytes)
    (data : DataOnly pkts) (waiting : conn.inbox = pkts ++ [dataLayout.eofPacket])
    (up : (conn.receiveFile fp key).2.2.up) :
    (conn.receiveFile fp key).2.2.inbox = [] := by
  have through : ∀ ending, (receiveFile fp ⟨conn.inbox, ending⟩ key).inbox.packets = [] := by
    intro ending
    simp only [receiveFile, waiting]
    rw [receiveLoop_append key ending _ pkts _ (fun pkt member => (data pkt member).1)
      (fun pkt member => (data pkt member).2), receiveLoop_eof]
  have whole : ∃ ending, conn.arriving = ⟨conn.inbox, ending⟩ := by
    cases life : conn.life with
    | none => exact ⟨none, by simp only [Conn.arriving, life]⟩
    | some left =>
        by_cases enough : conn.inbox.length ≤ left
        · refine ⟨if left ≤ conn.inbox.length then some conn.fault else none, ?_⟩
          simp only [Conn.arriving, life, List.take_of_length_le enough]
        · have early : conn.arriving = ⟨pkts.take left ++ [], some conn.fault⟩ := by
            have front : left ≤ pkts.length := by
              rw [waiting, List.length_append, List.length_singleton] at enough
              omega
            simp only [Conn.arriving, life, waiting, List.take_append_of_le_length front,
              List.append_nil]
            rw [if_pos (by rw [List.length_append]; omega)]
          have drained : (receiveFile fp conn.arriving key).inbox.packets = [] := by
            rw [early, receiveFile, receiveLoop_append key _ _ _ _
              (fun pkt member => (data pkt (List.mem_of_mem_take member)).1)
              (fun pkt member => (data pkt (List.mem_of_mem_take member)).2)]
            rfl
          have packets : conn.arriving.packets.length = left := by
            simp only [Conn.arriving, life, List.length_take]
            omega
          simp only [Conn.receiveFile, drained, packets, life, Conn.up, spend, lives,
            Option.map_some, List.length_nil, Nat.sub_zero, Nat.sub_self, Nat.lt_irrefl,
            decide_false, Bool.false_eq_true] at up
  rcases whole with ⟨ending, whole⟩
  simp only [Conn.receiveFile, whole, through ending, List.length_nil, Nat.sub_zero,
    List.drop_length]

/-- The server waits for a command, and the client has read all that was sent. -/
structure Synced (conn : Conn) : Prop where
  idle : conn.server.mode = .idle
  drained : conn.inbox = []

/-- Of these two commands, every other verdict has an error and no stream. -/
def Streams (pkt : Bytes) (verdict : Verdict) : Prop :=
  verdict.fp.isSome = true ↔ verdict.errno = 0 ∧ (msgType pkt = CMD_GET ∨ msgType pkt = CMD_PUT)

theorem streams_refused (pkt msg : Bytes) (disk : Disk) : Streams pkt ⟨1, msg, none, disk⟩ := by
  apply iff_of_false Bool.false_ne_true
  intro granted
  have clash : (1 : UInt8) = 0 := granted.1
  exact absurd clash (by decide)

theorem streams_other (pkt : Bytes) (verdict : Verdict) (type : UInt8) (kind : msgType pkt = type)
    (notGet : type ≠ CMD_GET) (notPut : type ≠ CMD_PUT) (none_ : verdict.fp = none) :
    Streams pkt verdict := by
  rw [Streams, none_, kind]
  exact iff_of_false Bool.false_ne_true (fun granted => granted.2.elim notGet notPut)

theorem streams_opened (pkt : Bytes) (kind : msgType pkt = CMD_GET ∨ msgType pkt = CMD_PUT)
    (stream : Bytes × FILE) (disk : Disk) : Streams pkt ⟨0, [], some stream, disk⟩ :=
  iff_of_true rfl ⟨rfl, kind⟩

theorem runCommand_streams (disk : Disk) (pkt : Bytes) : Streams pkt (runCommand disk pkt) := by
  by_cases mkdir : msgType pkt = CMD_MKDIR
  · simp only [runCommand, if_pos mkdir]
    split_ifs
    · exact streams_refused _ _ _
    · exact streams_other pkt _ _ mkdir (by decide) (by decide) rfl
  by_cases ls : msgType pkt = CMD_LS
  · simp only [runCommand, if_neg mkdir, if_pos ls]
    exact streams_other pkt _ _ ls (by decide) (by decide) rfl
  by_cases get : msgType pkt = CMD_GET
  · simp only [runCommand, if_neg mkdir, if_neg ls, if_pos get]
    split_ifs
    · cases disk.fopenRead (setPath (msgUsername pkt) (msgText pkt)) with
      | none => exact streams_refused _ _ _
      | some fp => exact streams_opened pkt (Or.inl get) _ _
    · exact streams_refused _ _ _
  by_cases put : msgType pkt = CMD_PUT
  · simp only [runCommand, if_neg mkdir, if_neg ls, if_neg get, if_pos put]
    split_ifs
    · cases disk.fopenWrite (setPath (msgUsername pkt) (msgText pkt)) with
      | none => exact streams_refused _ _ _
      | some opened => exact streams_opened pkt (Or.inr put) _ _
    · exact streams_refused _ _ _
  simp only [runCommand, if_neg mkdir, if_neg ls, if_neg get, if_neg put]
  exact streams_other pkt _ _ rfl get put rfl

/-- A stream is opened for a GET or a PUT that is answered without error, and for nothing
else. -/
theorem handleRequest_streams (users : Users) (disk : Disk) (pkt : Bytes) :
    Streams pkt (handleRequest users disk pkt) := by
  simp only [handleRequest]
  split_ifs
  · exact streams_refused _ _ _
  · exact streams_refused _ _ _
  · exact runCommand_streams _ _

/-- What the server does with a request, and what it sends behind its reply. -/
inductive Reaction (conn : Conn) (pkt : Bytes) (after : Conn) : Prop where
  | download (type : msgType pkt = CMD_GET)
      (granted : (handleRequest conn.users conn.server.disk pkt).errno = 0)
      (idle : after.server.mode = .idle)
      (disk : after.server.disk = (handleRequest conn.users conn.server.disk pkt).disk)
      (pkts : List Bytes) (data : DataOnly pkts)
      (inbox : after.inbox = pkts ++ [dataLayout.eofPacket])
  | upload (type : msgType pkt = CMD_PUT)
      (granted : (handleRequest conn.users conn.server.disk pkt).errno = 0)
      (path : Bytes) (receiver : Receiver) (receiving : after.server.mode = .receiving path receiver)
      (inbox : after.inbox = [])
  | message (other : (handleRequest conn.users conn.server.disk pkt).errno = 0 →
        msgType pkt ≠ CMD_GET ∧ msgType pkt ≠ CMD_PUT)
      (synced : Synced after)

theorem deliver_synced (conn : Conn) (synced : Synced conn) (pkt : Bytes)
    (size : pkt.length = PACKET_SIZE) :
    ∃ rest, (conn.deliver [pkt]).inbox =
        replyPacket pkt (handleRequest conn.users conn.server.disk pkt) :: rest ∧
      ∀ life, Reaction conn pkt { conn.deliver [pkt] with inbox := rest, life } := by
  rcases conn with ⟨users, ⟨disk, mode, served⟩, inbox, life, fault⟩
  rcases synced with ⟨idle, drained⟩
  simp only at idle drained
  subst idle drained
  have streams := handleRequest_streams users disk pkt
  have toClient : CMD_GET ≠ CMD_PUT := by decide
  cases opened : (handleRequest users disk pkt).fp with
  | none =>
      have other : (handleRequest users disk pkt).errno = 0 →
          msgType pkt ≠ CMD_GET ∧ msgType pkt ≠ CMD_PUT := by
        intro granted
        have none_ : ¬ (handleRequest users disk pkt).fp.isSome = true := by simp [opened]
        exact not_or.mp (fun kind => none_ (streams.mpr ⟨granted, kind⟩))
      simp only [Conn.deliver, serverRun, serverStep, recvInto_whole pkt size, answer, upload, opened,
        ite_self, ↓reduceIte, List.append_nil, List.nil_append]
      exact ⟨[], rfl, fun _ => .message other ⟨rfl, rfl⟩⟩
  | some stream =>
      rcases streams.mp (by rw [opened]; rfl) with ⟨granted, type | type⟩
      · rcases sendFile_dataOnly stream.2 0 (-1) none with ⟨pkts, data, sent⟩
        simp only [Conn.deliver, serverRun, serverStep, recvInto_whole pkt size, answer, upload,
          opened, type, toClient, and_false, ↓reduceIte, sent, List.append_nil, List.nil_append]
        exact ⟨_, rfl, fun _ => .download type granted rfl rfl pkts data rfl⟩
      · simp only [Conn.deliver, serverRun, serverStep, recvInto_whole pkt size, answer, upload,
          opened, type, toClient.symm, and_true, ↓reduceIte, List.append_nil, List.nil_append]
        exact ⟨_, rfl, fun _ => .upload type granted stream.1 (Receiver.start stream.2) rfl rfl⟩

theorem Synced.answered {conn : Conn} (synced : Synced conn) (pkt : Bytes)
    (size : pkt.length = PACKET_SIZE) : (conn.deliver [pkt]).inbox.head? =
      some (replyPacket pkt (handleRequest conn.users conn.server.disk pkt)) := by
  rcases deliver_synced conn synced pkt size with ⟨rest, inbox, -⟩
  rw [inbox, List.head?_cons]

theorem run_exchange {α : Type} {world last : World} {value : α} {pkt : Bytes}
    {next : Reply .recv → Handler.Program α} (synced : Synced world.conn)
    (size : pkt.length = PACKET_SIZE)
    (ended : Prog.run respond (.call .recv next)
      { world with conn := world.conn.deliver [pkt] } = some (value, last)) (up : last.conn.up) :
    ∃ conn, conn.users = world.conn.users ∧ Reaction world.conn pkt conn ∧
      Prog.run respond (next (.ok (replyPacket pkt
        (handleRequest world.conn.users world.conn.server.disk pkt)))) { world with conn } =
          some (value, last) := by
  rcases run_recv ended up with ⟨bytes, rest, inbox, later⟩
  rcases deliver_synced world.conn synced pkt size with ⟨file, sent, reaction⟩
  have same : bytes = replyPacket pkt (handleRequest world.conn.users world.conn.server.disk pkt) ∧
      rest = file := List.cons.inj (inbox.symm.trans sent)
  rw [same.1, same.2] at later
  exact ⟨{ world.conn.deliver [pkt] with
    inbox := file
    life := spend (world.conn.deliver [pkt]).life 1 }, rfl, reaction _, later⟩

@[simp] theorem msgErrno_reply (buffer pkt : Bytes) (verdict : Verdict) :
    msgErrno (recvInto buffer (replyPacket pkt verdict)) = verdict.errno := by
  rw [replyPacket, msgErrno_recvInto buffer _ (length_buildMsgPacket _ _ _ _)]
  exact msgErrno_build _ _ _ _

end NetworkSystem.Dfc
