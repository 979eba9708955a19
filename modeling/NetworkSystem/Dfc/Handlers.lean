import NetworkSystem.Lib.Calls
import NetworkSystem.Dfc.Client

/-! The threads of the client as programs that call the system and `trans.c`: the four
handlers, and what the calls do on a connection. What is printed is left out. -/

namespace NetworkSystem.Dfc

open Bytes Store Calls

/-- The calls of a handler. `readMsg` and `readErrno` stand where it reads these fields of
the reply buffer. The streams on files know their paths. -/
inductive Call where
  | send (pkt : Bytes)
  | recv
  | readMsg
  | readErrno
  | fopenRead (path : Bytes)
  | fopenWrite (path : Bytes)
  | sendFile (fp : FILE) (offset n : Int) (key : Option Bytes)
  | receiveFile (path : Bytes) (fp : FILE) (key : Option Bytes)
  | fclose (path : Bytes) (fp : FILE)

/-- `send` tells whether its result is not negative, `recv` what has come or why nothing
has. The result of `send_file` is not looked at. -/
abbrev Reply : Call → Type
  | .send _ => Bool
  | .recv => Except Fault Bytes
  | .readMsg => Unit
  | .readErrno => Unit
  | .fopenRead _ => Option FILE
  | .fopenWrite _ => Option FILE
  | .sendFile _ _ _ _ => FILE
  | .receiveFile _ _ _ => Int × FILE
  | .fclose _ _ => Unit

/-- The `void *` that a thread returns: a number, or the string of `handle_ls`. -/
inductive Result where
  | code (value : Nat)
  | text (result : Bytes)
  deriving DecidableEq

namespace Handler

open Prog

abbrev Program := Prog Reply

def send (pkt : Bytes) : Program Bool := perform (Call.send pkt)
def recv : Program (Except Fault Bytes) := perform Call.recv
def readMsg : Program Unit := perform Call.readMsg
def readErrno : Program Unit := perform Call.readErrno
def fopenRead (path : Bytes) : Program (Option FILE) := perform (Call.fopenRead path)
def fopenWrite (path : Bytes) : Program (Option FILE) := perform (Call.fopenWrite path)
def fclose (path : Bytes) (fp : FILE) : Program Unit := perform (Call.fclose path fp)

def sendFile (fp : FILE) (offset n : Int) (key : Option Bytes) : Program FILE :=
  perform (Call.sendFile fp offset n key)

def receiveFile (path : Bytes) (fp : FILE) (key : Option Bytes) : Program (Int × FILE) :=
  perform (Call.receiveFile path fp key)

structure Locals where
  outpkt : Bytes
  buffer : Bytes
  retval : Nat

/-- `recv` into the reply buffer, which stays as it is when nothing has come. -/
def recvBuffer (buffer : Bytes) : Program (Option Fault × Bytes) := do
  match ← recv with
  | .ok bytes => return (none, recvInto buffer bytes)
  | .error fault => return (some fault, buffer)

/-- The end of the `handle_put` loop body. -/
def storePart (password : Bytes) (size : Nat) (part : Int) (locals : Locals) (fp : FILE) :
    Program (Locals × FILE) := do
  if msgErrno locals.buffer = 0 then
    let fp ← sendFile fp (size * part) size (some password)
    return (locals, fp)
  else return (locals, fp)

/-- The body of the `handle_put` loop. -/
def putPart (password : Bytes) (size : Nat) (tp : ThreadParam) (part : Int) (locals : Locals)
    (fp : FILE) : Program (Locals × FILE) := do
  let text := setPath tp.path (setPartitionName tp.filename part)
  let outpkt := setMsg locals.outpkt text
  let sent ← send outpkt
  let retval := if sent then locals.retval else 1
  let (fault, buffer) ← recvBuffer (zeros PACKET_SIZE)
  let retval := if fault = some .error then 1 else retval
  readMsg
  readErrno
  storePart password size part ⟨outpkt, buffer, retval⟩ fp

def putParts (password : Bytes) (size : Nat) (tp : ThreadParam) :
    List Int → Locals → FILE → Program Locals
  | [], locals, _ => return locals
  | part :: rest, locals, fp => do
      let (locals, fp) ← putPart password size tp part locals fp
      putParts password size tp rest locals fp

def handlePut (password : Bytes) (nh : Nat) (tp : ThreadParam) (stack : Bytes) :
    Program Result := do
  match ← fopenRead tp.filename with
  | none => return .code 0
  | some fp =>
      let locals ← putParts password (psize fp.sizeOfFp nh) tp [tp.parts.1, tp.parts.2]
        ⟨tp.pkt, stack, 0⟩ fp
      return .code locals.retval

/-- The end of the `handle_get` loop body; `false` for a `break`. The stream is not closed
when the transfer fails. -/
def fetchPart (password filename : Bytes) (locals : Locals) : Program (Bool × Locals) := do
  if msgErrno locals.buffer = 0 then
    match ← fopenWrite filename with
    | none => return (false, { locals with retval := 0 })
    | some fp =>
        let (code, fp) ← receiveFile filename fp (some password)
        if code < 0 then return (false, { locals with retval := 1 })
        else
          fclose filename fp
          return (true, locals)
  else return (false, { locals with retval := 2 })

/-- The body of the `handle_get` loop. -/
def getPart (password : Bytes) (tp : ThreadParam) (part : Int) (locals : Locals) :
    Program (Bool × Locals) := do
  if part ≠ -1 then
    let filename := setPartitionName tp.filename part
    let outpkt := setMsg locals.outpkt (setPath tp.path filename)
    let sent ← send outpkt
    if sent then
      let (fault, buffer) ← recvBuffer locals.buffer
      if fault = some .error then return (false, ⟨outpkt, buffer, 1⟩)
      else
        readMsg
        readErrno
        fetchPart password filename ⟨outpkt, buffer, locals.retval⟩
    else return (false, ⟨outpkt, locals.buffer, 1⟩)
  else return (true, locals)

def getParts (password : Bytes) (tp : ThreadParam) : List Int → Locals → Program Locals
  | [], locals => return locals
  | part :: rest, locals => do
      let (goes, locals) ← getPart password tp part locals
      if goes then getParts password tp rest locals else return locals

def handleGet (password : Bytes) (tp : ThreadParam) (stack : Bytes) : Program Result := do
  let locals ← getParts password tp [tp.parts.1, tp.parts.2] ⟨tp.pkt, stack, 0⟩
  return .code locals.retval

/-- The end of `handle_ls`. The text of a reply with error number 1 is printed and not
returned. -/
def takeListing (buffer : Bytes) : Program Result := do
  if (msgText buffer).length ≠ 0 then
    readErrno
    if msgErrno buffer = 1 then return .text [] else return .text (msgText buffer)
  else return .text []

def handleLs (tp : ThreadParam) (stack : Bytes) : Program Result := do
  let sent ← send tp.pkt
  if sent then
    let (fault, buffer) ← recvBuffer stack
    if fault = some .error then return .code 1
    else
      readMsg
      takeListing buffer
  else return .code 1

def handleMkdir (tp : ThreadParam) (stack : Bytes) : Program Result := do
  let sent ← send tp.pkt
  if sent then
    let (fault, _) ← recvBuffer stack
    if fault = some .error then return .code 1
    else
      readMsg
      return .code 0
  else return .code 1

/-- `connection_handler` of the client. `stack` is what the reply buffer holds before the
first `recv`. -/
def connectionHandler (password : Bytes) (nh : Nat) (tp : ThreadParam) (stack : Bytes) :
    Program Result :=
  if msgType tp.pkt = CMD_LS then handleLs tp stack
  else if msgType tp.pkt = CMD_PUT then handlePut password nh tp stack
  else if msgType tp.pkt = CMD_GET then handleGet password tp stack
  else if msgType tp.pkt = CMD_MKDIR then handleMkdir tp stack
  else return .code 0

end Handler

structure World where
  conn : Conn
  disk : Disk

/-- How a call is answered; `none` when it waits forever. -/
def respond : (c : Call) → World → Option (Reply c × World)
  | .send pkt, world =>
      match world.conn.send pkt with
      | none => some (false, world)
      | some conn => some (true, { world with conn })
  | .recv, world =>
      if lives world.conn.life 0 then
        match world.conn.inbox with
        | [] => none
        | bytes :: rest =>
            some (.ok bytes, { world with
              conn := { world.conn with inbox := rest, life := spend world.conn.life 1 } })
      else some (.error world.conn.fault, world)
  | .readMsg, world => some ((), world)
  | .readErrno, world => some ((), world)
  | .fopenRead path, world => some (world.disk.fopenRead path, world)
  | .fopenWrite path, world =>
      match world.disk.fopenWrite path with
      | none => some (none, world)
      | some (fp, disk) => some (some fp, { world with disk })
  | .sendFile fp offset n key, world =>
      let (fp, conn) := world.conn.sendFile fp offset n key
      some (fp, { world with conn })
  | .receiveFile path fp key, world =>
      match world.conn.receiveFile fp key with
      | (none, _, _) => none
      | (some code, fp, conn) => some ((code, fp), ⟨conn, world.disk.leave path fp⟩)
  | .fclose path fp, world => some ((), { world with disk := world.disk.close path fp })

theorem recv_cases (world : World) (outcome : Option (Reply .recv × World))
    (heard : respond .recv world = outcome) :
    outcome = none ∨ (∃ bytes conn, outcome = some (.ok bytes, ⟨conn, world.disk⟩)) ∨
      ∃ fault, outcome = some (.error fault, world) := by
  subst heard
  by_cases alive : lives world.conn.life 0 = true
  · cases inbox : world.conn.inbox with
    | nil =>
        left
        simp only [respond, alive, inbox, ↓reduceIte]
    | cons bytes rest =>
        right
        left
        simp only [respond, alive, inbox, ↓reduceIte]
        exact ⟨bytes, _, rfl⟩
  · right
    right
    simp only [respond, alive]
    exact ⟨world.conn.fault, rfl⟩

namespace Thread

variable (thread : Thread)

def locals : Handler.Locals := ⟨thread.outpkt, thread.buffer, thread.retval⟩

def world : World := ⟨thread.conn, thread.disk⟩

/-- The thread behind a `recv`. -/
def hear : Reply .recv × World → Bool × Thread
  | (.ok bytes, world) =>
      (true, { thread with conn := world.conn, buffer := recvInto thread.buffer bytes })
  | (.error fault, _) => (fault = .closed, thread)

end Thread

theorem recvReply_eq (thread : Thread) :
    recvReply thread = (respond .recv thread.world).map thread.hear := by
  by_cases alive : lives thread.conn.life 0 = true
  · cases inbox : thread.conn.inbox with
    | nil => simp only [recvReply, respond, Thread.world, alive, inbox, ↓reduceIte, Option.map_none]
    | cons bytes rest =>
        simp only [recvReply, respond, Thread.world, alive, inbox, ↓reduceIte, Option.map_some,
          Thread.hear]
  · cases fault : thread.conn.fault <;>
      simp [recvReply, respond, Thread.world, alive, fault, Thread.hear]

section refinement

variable (password : Bytes) (tp : ThreadParam)

theorem run_putPart (size : Nat) (part : Int) (thread : Thread) (fp : FILE) :
    Prog.run respond (Handler.putPart password size tp part thread.locals fp) thread.world =
      (putPart password size tp part (thread, fp)).map (fun (after, fp) =>
        ((after.locals, fp), after.world)) := by
  simp only [Handler.putPart, putPart, Handler.send, Prog.perform_bind, Prog.run_call, recvReply_eq,
    Handler.recvBuffer, Handler.recv, Thread.locals]
  generalize setMsg thread.outpkt (setPath tp.path (setPartitionName tp.filename part)) = outpkt
  cases sent : thread.conn.send outpkt
  all_goals
    simp only [respond.eq_1, Thread.world, sent, Option.bind_some, Prog.call_bind, Prog.run_call,
      Bool.false_eq_true, ↓reduceIte]
    generalize heard : respond Call.recv _ = outcome
    rcases recv_cases _ _ heard with rfl | ⟨bytes, conn, rfl⟩ | ⟨fault, rfl⟩
    · rfl
    · simp only [Option.bind_some, Prog.pure_eq, Prog.ret_bind, Handler.readMsg, Handler.readErrno,
        Prog.perform_bind, Prog.run_call, respond, Option.map_some, Thread.hear, ↓reduceIte,
        reduceCtorEq, Handler.storePart, Handler.sendFile]
      split_ifs <;> rfl
    · simp only [Option.bind_some, Prog.pure_eq, Prog.ret_bind, Handler.readMsg, Handler.readErrno,
        Prog.perform_bind, Prog.run_call, respond, Option.map_some, Thread.hear,
        Option.some.injEq, Handler.storePart, Handler.sendFile]
      cases fault with
      | closed =>
          simp only [reduceCtorEq, ↓reduceIte, decide_true]
          split_ifs <;> rfl
      | error =>
          simp only [reduceCtorEq, ↓reduceIte, decide_false, Bool.false_eq_true]
          split_ifs <;> rfl

theorem run_putParts (size : Nat) (parts : List Int) (thread : Thread) (fp : FILE) :
    Prog.run respond (Handler.putParts password size tp parts thread.locals fp) thread.world =
      (putParts password size tp parts (thread, fp)).map (fun (after, _) =>
        (after.locals, after.world)) := by
  induction parts generalizing thread fp with
  | nil => rfl
  | cons part rest ih =>
      rw [Handler.putParts, Prog.run_bind, run_putPart, putParts]
      cases putPart password size tp part (thread, fp) with
      | none => rfl
      | some after => exact ih after.1 after.2

theorem run_handlePut (nh : Nat) (thread : Thread) (copied : thread.outpkt = tp.pkt)
    (clear : thread.retval = 0) :
    Prog.run respond (Handler.handlePut password nh tp thread.buffer) thread.world =
      (handlePut password nh tp thread).map (fun after => (.code after.retval, after.world)) := by
  rw [Handler.handlePut, Handler.fopenRead, Prog.perform_bind, Prog.run_call, handlePut]
  simp only [respond, Option.bind_some]
  cases opened : thread.disk.fopenRead tp.filename with
  | none =>
      simp only [Thread.world, opened, Option.map_some, clear]
      rfl
  | some fp =>
      have start : (⟨tp.pkt, thread.buffer, 0⟩ : Handler.Locals) = thread.locals := by
        rw [Thread.locals, copied, clear]
      have same : thread.world.disk.fopenRead tp.filename = some fp := opened
      simp only [same, start, Prog.run_bind, run_putParts]
      cases putParts password (psize fp.sizeOfFp nh) tp [tp.parts.1, tp.parts.2] (thread, fp) <;> rfl

theorem run_getPart (part : Int) (thread : Thread) :
    Prog.run respond (Handler.getPart password tp part thread.locals) thread.world =
      (getPart password tp part thread).map (fun (goes, after) =>
        ((goes, after.locals), after.world)) := by
  by_cases skipped : part = -1
  · simp only [Handler.getPart, getPart, skipped, ne_eq, not_true_eq_false, ↓reduceIte]
    rfl
  · simp only [Handler.getPart, getPart, skipped, ne_eq, not_false_eq_true, ↓reduceIte, Handler.send,
      Prog.perform_bind, Prog.run_call, recvReply_eq, Handler.recvBuffer, Handler.recv,
      Thread.locals]
    generalize setPartitionName tp.filename part = filename
    generalize setMsg thread.outpkt (setPath tp.path filename) = outpkt
    cases sent : thread.conn.send outpkt with
    | none => simp only [respond, Thread.world, sent, Option.bind_some, Bool.false_eq_true,
        ↓reduceIte, Prog.pure_eq, Prog.run_ret, Option.map_some]
    | some conn =>
        simp only [respond.eq_1, Thread.world, sent, Option.bind_some, Prog.call_bind,
          Prog.run_call, ↓reduceIte]
        generalize heard : respond Call.recv _ = outcome
        rcases recv_cases _ _ heard with rfl | ⟨bytes, conn, rfl⟩ | ⟨⟨⟩, rfl⟩
        case inr.inr.error =>
          simp only [Option.bind_some, Prog.pure_eq, Prog.ret_bind, Option.map_some, Thread.hear,
            reduceCtorEq, decide_false, ↓reduceIte, Prog.run_ret]
        case inl => rfl
        all_goals
          simp only [Option.bind_some, Prog.pure_eq, Prog.ret_bind, Option.map_some, Thread.hear,
            reduceCtorEq, Option.some.injEq, decide_true, ↓reduceIte, Handler.readMsg,
            Handler.readErrno, Handler.fetchPart, Prog.perform_bind, Prog.run_call, respond]
          split_ifs
          · simp only [Handler.fopenWrite, Prog.perform_bind, Prog.run_call, respond]
            cases thread.disk.fopenWrite filename with
            | none => rfl
            | some opened =>
                simp only [Option.bind_some, Handler.receiveFile, Prog.perform_bind, Prog.run_call,
                  respond]
                generalize Conn.receiveFile _ _ _ = received
                rcases received with ⟨⟨⟩ | code, fp, conn⟩
                · rfl
                · simp only [Option.bind_some]
                  split_ifs
                  · rfl
                  · simp only [Handler.fclose, Prog.perform_bind, Prog.run_call, respond,
                      Option.bind_some, Disk.close_leave]
                    rfl
          · rfl

theorem run_getParts (parts : List Int) (thread : Thread) :
    Prog.run respond (Handler.getParts password tp parts thread.locals) thread.world =
      (getParts password tp parts thread).map (fun after => (after.locals, after.world)) := by
  induction parts generalizing thread with
  | nil => rfl
  | cons part rest ih =>
      rw [Handler.getParts, Prog.run_bind, run_getPart, getParts]
      cases getPart password tp part thread with
      | none => rfl
      | some after =>
          rcases after with ⟨goes, after⟩
          cases goes with
          | false => rfl
          | true => exact ih after

theorem run_handleGet (thread : Thread) (copied : thread.outpkt = tp.pkt)
    (clear : thread.retval = 0) :
    Prog.run respond (Handler.handleGet password tp thread.buffer) thread.world =
      (handleGet password tp thread).map (fun after => (.code after.retval, after.world)) := by
  have start : (⟨tp.pkt, thread.buffer, 0⟩ : Handler.Locals) = thread.locals := by
    rw [Thread.locals, copied, clear]
  rw [Handler.handleGet, start, Prog.run_bind, run_getParts, handleGet]
  cases getParts password tp [tp.parts.1, tp.parts.2] thread <;> rfl

end refinement

end NetworkSystem.Dfc
