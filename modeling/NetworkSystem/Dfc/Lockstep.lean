import NetworkSystem.Lib.Runs
import NetworkSystem.Dfc.Exchange

/-! Commands on one connection, one after the other: whether client and server are in step
behind each of them. -/

namespace NetworkSystem.Dfc

open Bytes Store Calls Handler

section exchange

variable {α : Type} {world last : World} {value : α}

@[simp] theorem run_readMsg (next : Unit → Program α) :
    Prog.run respond (.call .readMsg next) world = Prog.run respond (next ()) world := rfl

@[simp] theorem run_readErrno (next : Unit → Program α) :
    Prog.run respond (.call .readErrno next) world = Prog.run respond (next ()) world := rfl

theorem Reaction.synced {conn after : Conn} {pkt : Bytes} (reaction : Reaction conn pkt after)
    (notGet : msgType pkt ≠ CMD_GET) (notPut : msgType pkt ≠ CMD_PUT) : Synced after := by
  cases reaction with
  | download type => exact absurd type notGet
  | upload type => exact absurd type notPut
  | message other synced => exact synced

theorem run_message {pkt : Bytes} {next : Reply .recv → Program α} {other : Program α}
    (notGet : msgType pkt ≠ CMD_GET) (notPut : msgType pkt ≠ CMD_PUT)
    (size : pkt.length = PACKET_SIZE) (synced : Synced world.conn)
    (ended : Prog.run respond (.call (.send pkt) fun sent =>
      if sent then .call .recv next else other) world = some (value, last)) (up : last.conn.up) :
    ∃ bytes conn, Synced conn ∧
      Prog.run respond (next (.ok bytes)) { world with conn } = some (value, last) := by
  have asked := run_send ended up
  rw [if_pos rfl] at asked
  rcases run_exchange synced size asked up with ⟨conn, -, reaction, later⟩
  exact ⟨_, conn, reaction.synced notGet notPut, later⟩

theorem handleLs_synced {tp : ThreadParam} {stack : Bytes} {result : Result}
    (type : msgType tp.pkt = CMD_LS) (size : tp.pkt.length = PACKET_SIZE)
    (synced : Synced world.conn)
    (ended : Prog.run respond (handleLs tp stack) world = some (result, last))
    (up : last.conn.up) : Synced last.conn := by
  have notGet : msgType tp.pkt ≠ CMD_GET := type ▸ by decide
  have notPut : msgType tp.pkt ≠ CMD_PUT := type ▸ by decide
  simp only [handleLs, send, recvBuffer, recv, Prog.perform_bind, Prog.call_bind] at ended
  rcases run_message notGet notPut size synced ended up with ⟨bytes, conn, behind, later⟩
  simp only [Prog.pure_eq, Prog.ret_bind, reduceCtorEq, ↓reduceIte, readMsg, readErrno,
    takeListing, Prog.perform_bind, run_readMsg] at later
  have same : last.conn = conn := by split_ifs at later <;> (cases later; rfl)
  exact same ▸ behind

theorem handleMkdir_synced {tp : ThreadParam} {stack : Bytes} {result : Result}
    (type : msgType tp.pkt = CMD_MKDIR) (size : tp.pkt.length = PACKET_SIZE)
    (synced : Synced world.conn)
    (ended : Prog.run respond (handleMkdir tp stack) world = some (result, last))
    (up : last.conn.up) : Synced last.conn := by
  have notGet : msgType tp.pkt ≠ CMD_GET := type ▸ by decide
  have notPut : msgType tp.pkt ≠ CMD_PUT := type ▸ by decide
  simp only [handleMkdir, send, recvBuffer, recv, Prog.perform_bind, Prog.call_bind] at ended
  rcases run_message notGet notPut size synced ended up with ⟨bytes, conn, behind, later⟩
  cases later
  exact behind

theorem upload_synced {conn : Conn} {path : Bytes} {receiver : Receiver} {pkts : List Bytes}
    (receiving : conn.server.mode = .receiving path receiver) (inbox : conn.inbox = [])
    (data : DataOnly pkts) : Synced (conn.deliver (pkts ++ [dataLayout.eofPacket])) := by
  rcases conn with ⟨users, ⟨disk, mode, served⟩, waiting, life, fault⟩
  simp only at receiving inbox
  subst receiving inbox
  rcases serverRun_dataOnly users (fun _ _ => true) disk path receiver served pkts data with
      ⟨after, run⟩
  simp only [Conn.deliver, run]
  exact ⟨rfl, rfl⟩

theorem putPart_synced {password : Bytes} {size : Nat} {tp : ThreadParam} {part : Int}
    {locals after : Locals} {fp stream : FILE} (type : msgType locals.outpkt = CMD_PUT)
    (whole : locals.outpkt.length = PACKET_SIZE) (synced : Synced world.conn)
    (ended : Prog.run respond (Handler.putPart password size tp part locals fp) world =
      some ((after, stream), last)) (up : last.conn.up) :
    Synced last.conn ∧ msgType after.outpkt = CMD_PUT ∧ after.outpkt.length = PACKET_SIZE := by
  simp only [Handler.putPart, send, recvBuffer, recv, Prog.perform_bind, Prog.call_bind] at ended
  have kept := msgType_setMsg locals.outpkt (setPath tp.path (setPartitionName tp.filename part))
  have fits := length_setMsg locals.outpkt (setPath tp.path (setPartitionName tp.filename part)) whole
  generalize setMsg locals.outpkt (setPath tp.path (setPartitionName tp.filename part)) = outpkt
    at ended kept fits
  rw [type] at kept
  rcases run_exchange synced fits (run_send ended up) up with ⟨conn, -, reaction, later⟩
  simp only [Prog.pure_eq, Prog.ret_bind, reduceCtorEq, ↓reduceIte, readMsg, readErrno,
    storePart, Prog.perform_bind, run_readMsg, run_readErrno, msgErrno_reply] at later
  cases reaction with
  | download get => exact absurd (kept.symm.trans get) (by decide)
  | upload put granted path receiver receiving inbox =>
      rw [if_pos granted] at later
      simp only [Handler.sendFile, Prog.perform_bind, Prog.run_call, respond, Option.bind_some,
        Prog.run_ret, Option.some.injEq, Prod.mk.injEq] at later
      rcases later with ⟨⟨rfl, -⟩, rfl⟩
      rcases sendFile_dataOnly fp (size * part) size (some password) with ⟨pkts, data, sent⟩
      refine ⟨?_, kept, fits⟩
      rw [sendFile_up conn fp _ _ _ up, sent]
      exact upload_synced receiving inbox data
  | message other behind =>
      have refused : (handleRequest world.conn.users world.conn.server.disk outpkt).errno ≠ 0 :=
        fun granted => (other granted).2 kept
      rw [if_neg refused] at later
      cases later
      exact ⟨behind, kept, fits⟩

theorem putParts_synced {password : Bytes} {size : Nat} {tp : ThreadParam} {parts : List Int}
    {locals after : Locals} {fp : FILE} (type : msgType locals.outpkt = CMD_PUT)
    (whole : locals.outpkt.length = PACKET_SIZE) (synced : Synced world.conn)
    (ended : Prog.run respond (Handler.putParts password size tp parts locals fp) world =
      some (after, last)) (up : last.conn.up) : Synced last.conn := by
  induction parts generalizing locals fp world with
  | nil =>
      cases ended
      exact synced
  | cons part rest ih =>
      rw [Handler.putParts] at ended
      rcases (Prog.run_bind_eq_some respond).mp ended with
          ⟨⟨middle, stream⟩, between, first, later⟩
      rcases putPart_synced type whole synced first (run_up _ _ _ _ later up) with
          ⟨still, kept, fits⟩
      exact ih kept fits still later

theorem handlePut_synced {password : Bytes} {nh : Nat} {tp : ThreadParam} {stack : Bytes}
    {result : Result} (type : msgType tp.pkt = CMD_PUT) (size : tp.pkt.length = PACKET_SIZE)
    (synced : Synced world.conn)
    (ended : Prog.run respond (Handler.handlePut password nh tp stack) world = some (result, last))
    (up : last.conn.up) : Synced last.conn := by
  simp only [Handler.handlePut, fopenRead, Prog.perform_bind, Prog.run_call, respond,
    Option.bind_some] at ended
  cases opened : world.disk.fopenRead tp.filename with
  | none =>
      rw [opened] at ended
      cases ended
      exact synced
  | some fp =>
      rw [opened] at ended
      obtain ⟨locals, middle, first, later⟩ := (Prog.run_bind_eq_some respond).mp ended
      cases later
      exact putParts_synced type size synced first up

def partRequest (tp : ThreadParam) (part : Int) (outpkt : Bytes) : Bytes :=
  setMsg outpkt (setPath tp.path (setPartitionName tp.filename part))

/-- Every partition that the server lets a GET have can be created on the client's side, as
far as the GET comes. -/
def Creates (users : Users) (tp : ThreadParam) (creatable : Bytes → Bool) :
    Disk → Bytes → List Int → Prop
  | _, _, [] => True
  | remote, outpkt, part :: rest =>
      if part = -1 then Creates users tp creatable remote outpkt rest
      else
        let outpkt := partRequest tp part outpkt
        let verdict := handleRequest users remote outpkt
        verdict.errno = 0 → creatable (setPartitionName tp.filename part) = true ∧
          Creates users tp creatable verdict.disk outpkt rest

/-- What becomes of one partition of a GET under the server's verdict; `true` when the
thread goes on. -/
inductive Fetch (verdict : Verdict) (creatable : Bool) (world last : World) : Bool → Prop where
  | refused (errno : verdict.errno ≠ 0) (synced : Synced last.conn) :
      Fetch verdict creatable world last false
  | unread (errno : verdict.errno = 0) (blocked : creatable = false)
      (behind : ¬ Synced last.conn) : Fetch verdict creatable world last false
  | read (errno : verdict.errno = 0) (made : creatable = true) (synced : Synced last.conn)
      (users : last.conn.users = world.conn.users) (disk : last.conn.server.disk = verdict.disk)
      (files : last.disk.creatable = world.disk.creatable) :
      Fetch verdict creatable world last true

theorem fetchPart_download {password filename : Bytes} {locals after : Locals} {goes : Bool}
    {verdict : Verdict} {conn : Conn} {pkts : List Bytes} (granted : verdict.errno = 0)
    (errno : msgErrno locals.buffer = verdict.errno) (users : conn.users = world.conn.users)
    (idle : conn.server.mode = .idle) (disk : conn.server.disk = verdict.disk)
    (data : DataOnly pkts) (inbox : conn.inbox = pkts ++ [dataLayout.eofPacket])
    (ended : Prog.run respond (fetchPart password filename locals) { world with conn } =
      some ((goes, after), last)) (up : last.conn.up) :
    after.outpkt = locals.outpkt ∧
      Fetch verdict (world.disk.creatable filename) world last goes := by
  rw [fetchPart, if_pos (errno.trans granted)] at ended
  simp only [fopenWrite, Prog.perform_bind, Prog.run_call, respond, Disk.fopenWrite] at ended
  by_cases creatable : world.disk.creatable filename = true
  · simp only [creatable, ↓reduceIte, Option.bind_some, Handler.receiveFile, Prog.perform_bind,
      Prog.run_call, respond] at ended
    have lively := receiveFile_lively conn (FILE.opened []) (some password)
    have drained := receiveFile_up conn (FILE.opened []) (some password) pkts data inbox
    have server : (conn.receiveFile (FILE.opened []) (some password)).2.2.server =
      conn.server := rfl
    have same : (conn.receiveFile (FILE.opened []) (some password)).2.2.users = conn.users := rfl
    generalize conn.receiveFile (FILE.opened []) (some password) = received
      at ended lively drained server same
    rcases received with ⟨⟨⟩ | code, stored, behind⟩
    · cases ended
    · simp only [Option.bind_some] at ended
      split_ifs at ended with broken
      · cases ended
        have fine := lively code rfl up
        omega
      · simp only [fclose, Prog.perform_bind, Prog.run_call, respond, Option.bind_some] at ended
        cases ended
        have kept : behind.server.disk = verdict.disk := by rw [server, disk]
        have quiet : behind.server.mode = .idle := by rw [server, idle]
        exact ⟨rfl, .read granted creatable ⟨quiet, drained up⟩ (same.trans users) kept rfl⟩
  · simp only [creatable, Bool.false_eq_true, ↓reduceIte, Option.bind_some] at ended
    cases ended
    have blocked : world.disk.creatable filename = false := by simpa using creatable
    have behind : ¬ Synced conn := by
      intro synced
      have empty := inbox.symm.trans synced.drained
      simp at empty
    exact ⟨rfl, .unread granted blocked behind⟩

theorem getPart_fetch {password : Bytes} {tp : ThreadParam} {part : Int} {locals after : Locals}
    {goes : Bool} (real : part ≠ -1) (type : msgType locals.outpkt = CMD_GET)
    (whole : locals.outpkt.length = PACKET_SIZE) (synced : Synced world.conn)
    (ended : Prog.run respond (Handler.getPart password tp part locals) world =
      some ((goes, after), last)) (up : last.conn.up) :
    after.outpkt = partRequest tp part locals.outpkt ∧
      Fetch (handleRequest world.conn.users world.conn.server.disk
          (partRequest tp part locals.outpkt))
        (world.disk.creatable (setPartitionName tp.filename part)) world last goes := by
  have kept : msgType (partRequest tp part locals.outpkt) = CMD_GET :=
    (msgType_setMsg _ _).trans type
  have fits : (partRequest tp part locals.outpkt).length = PACKET_SIZE := length_setMsg _ _ whole
  simp only [Handler.getPart, real, ne_eq, not_false_eq_true, ↓reduceIte, send, recvBuffer, recv,
    Prog.perform_bind, Prog.call_bind] at ended
  change Prog.run respond (.call (.send (partRequest tp part locals.outpkt)) _) world = _ at ended
  have asked := run_send ended up
  rw [if_pos rfl] at asked
  rcases run_exchange synced fits asked up with ⟨conn, users, reaction, later⟩
  simp only [Prog.pure_eq, Prog.ret_bind, reduceCtorEq, ↓reduceIte, readMsg, readErrno,
    Prog.perform_bind, run_readMsg, run_readErrno] at later
  cases reaction with
  | upload put => exact absurd (kept.symm.trans put) (by decide)
  | message other behind =>
      have refused : (handleRequest world.conn.users world.conn.server.disk
          (partRequest tp part locals.outpkt)).errno ≠ 0 := fun granted => (other granted).1 kept
      rw [fetchPart, if_neg (by rw [msgErrno_reply]; exact refused)] at later
      cases later
      exact ⟨rfl, .refused refused behind⟩
  | download get granted idle disk pkts data inbox =>
      exact fetchPart_download granted (msgErrno_reply _ _ _) users idle disk data inbox later up

theorem getParts_synced {password : Bytes} {tp : ThreadParam} {parts : List Int}
    {locals after : Locals} (type : msgType locals.outpkt = CMD_GET)
    (whole : locals.outpkt.length = PACKET_SIZE) (synced : Synced world.conn)
    (ended : Prog.run respond (Handler.getParts password tp parts locals) world =
      some (after, last)) (up : last.conn.up) :
    Synced last.conn ↔ Creates world.conn.users tp world.disk.creatable world.conn.server.disk
      locals.outpkt parts := by
  induction parts generalizing locals world with
  | nil =>
      cases ended
      exact iff_of_true synced trivial
  | cons part rest ih =>
      rw [Handler.getParts] at ended
      rcases (Prog.run_bind_eq_some respond).mp ended with
          ⟨⟨goes, middle⟩, between, first, later⟩
      simp only at later
      by_cases skipped : part = -1
      · simp only [Handler.getPart, skipped, ne_eq, not_true_eq_false, ↓reduceIte] at first
        cases first
        rw [if_pos rfl] at later
        rw [Creates, if_pos skipped]
        exact ih type whole synced later
      · have alive : between.conn.up := by
          cases goes with
          | false =>
              cases later
              exact up
          | true => exact run_up _ _ _ _ later up
        rcases getPart_fetch skipped type whole synced first alive with ⟨outpkt, fetch⟩
        rw [Creates, if_neg skipped]
        simp only
        -- A refusal comes alone; a file that is announced has to be read before the next request.
        cases fetch with
        | refused errno behind =>
            cases later
            exact iff_of_true behind (fun granted => absurd granted errno)
        | unread errno blocked behind =>
            cases later
            apply iff_of_false behind
            intro all
            rw [(all errno).1] at blocked
            cases blocked
        | read errno made behind users disk files =>
            rw [if_pos rfl] at later
            have rest_ := ih (outpkt ▸ (msgType_setMsg _ _).trans type)
              (outpkt ▸ length_setMsg _ _ whole) behind later
            rw [users, disk, files, outpkt] at rest_
            rw [rest_]
            exact ⟨fun creates _ => ⟨made, creates⟩, fun all => (all errno).2⟩

theorem handleGet_synced {password : Bytes} {tp : ThreadParam} {stack : Bytes} {result : Result}
    (type : msgType tp.pkt = CMD_GET) (size : tp.pkt.length = PACKET_SIZE)
    (synced : Synced world.conn)
    (ended : Prog.run respond (Handler.handleGet password tp stack) world = some (result, last))
    (up : last.conn.up) :
    Synced last.conn ↔ Creates world.conn.users tp world.disk.creatable world.conn.server.disk
      tp.pkt [tp.parts.1, tp.parts.2] := by
  obtain ⟨locals, middle, first, later⟩ := (Prog.run_bind_eq_some respond).mp ended
  cases later
  exact getParts_synced type size synced first up

theorem connectionHandler_synced {password : Bytes} {nh : Nat} {tp : ThreadParam} {stack : Bytes}
    {result : Result} (size : tp.pkt.length = PACKET_SIZE) (synced : Synced world.conn)
    (ended : Prog.run respond (Handler.connectionHandler password nh tp stack) world =
      some (result, last)) (up : last.conn.up) :
    Synced last.conn ↔ (msgType tp.pkt = CMD_GET →
      Creates world.conn.users tp world.disk.creatable world.conn.server.disk tp.pkt
        [tp.parts.1, tp.parts.2]) := by
  have other : ∀ type, msgType tp.pkt = type → type ≠ CMD_GET → Synced last.conn →
      (Synced last.conn ↔ (msgType tp.pkt = CMD_GET →
        Creates world.conn.users tp world.disk.creatable world.conn.server.disk tp.pkt
          [tp.parts.1, tp.parts.2])) :=
    fun type kind notGet behind => iff_of_true behind (fun get => absurd (kind ▸ get) notGet)
  simp only [Handler.connectionHandler] at ended
  split_ifs at ended with ls put get mkdir
  · exact other _ ls (by decide) (handleLs_synced ls size synced ended up)
  · exact other _ put (by decide) (handlePut_synced put size synced ended up)
  · rw [handleGet_synced get size synced ended up]
    exact ⟨fun creates _ => creates, fun creates => creates get⟩
  · exact other _ mkdir (by decide) (handleMkdir_synced mkdir size synced ended up)
  · cases ended
    exact other _ rfl get synced

end exchange

/-- Under the answers of a connection that stays up. -/
abbrev Stays {α : Type} (p : Program α) (values : α → Prop) : Prop :=
  p.Meets Lively (fun _ => True) values

theorem stays_recvBuffer (buffer : Bytes) :
    Stays (recvBuffer buffer) (fun heard => heard.1 = none) := by
  refine ⟨trivial, fun reply brought => ?_⟩
  rcases brought with ⟨bytes, rfl⟩
  exact rfl

theorem stays_request {α : Type} {values : α → Prop} (pkt buffer : Bytes)
    (next : Option Fault × Bytes → Program α) (other : Program α)
    (later : ∀ buffer, Stays (next (none, buffer)) values) :
    Stays (.call (.send pkt) fun sent => if sent then recvBuffer buffer >>= next else other)
      values := by
  refine ⟨trivial, fun sent lively => ?_⟩
  have success : sent = true := lively
  simp only [success, ↓reduceIte]
  apply Prog.Meets.bind (stays_recvBuffer buffer)
  intro heard brought
  rcases heard with ⟨fault, buffer⟩
  rw [show fault = none from brought]
  exact later buffer

theorem stays_handleLs (tp : ThreadParam) (stack : Bytes) :
    Stays (handleLs tp stack) (· ≠ .code 1) := by
  have text : ∀ buffer, Stays (takeListing buffer) (· ≠ .code 1) := by
    intro buffer
    rw [takeListing]
    split_ifs
    · exact ⟨trivial, fun _ _ => Result.noConfusion⟩
    · exact ⟨trivial, fun _ _ => Result.noConfusion⟩
    · exact Result.noConfusion
  apply stays_request
  intro buffer
  exact ⟨trivial, fun _ _ => text buffer⟩

theorem code_ne {value : Nat} (different : value ≠ 1) : Result.code value ≠ .code 1 :=
  fun same => different (Result.code.inj same)

theorem stays_handleMkdir (tp : ThreadParam) (stack : Bytes) :
    Stays (handleMkdir tp stack) (· ≠ .code 1) := by
  apply stays_request
  intro buffer
  exact ⟨trivial, fun _ _ => code_ne Nat.zero_ne_one⟩

theorem stays_putPart (password : Bytes) (size : Nat) (tp : ThreadParam) (part : Int)
    (locals : Locals) (fp : FILE) (calm : locals.retval ≠ 1) :
    Stays (Handler.putPart password size tp part locals fp) (fun after => after.1.retval ≠ 1) := by
  have stored : ∀ locals : Locals, locals.retval ≠ 1 →
      Stays (storePart password size part locals fp) (fun after => after.1.retval ≠ 1) := by
    intro locals calm
    rw [storePart]
    split_ifs
    · exact ⟨trivial, fun _ _ => calm⟩
    · exact calm
  refine ⟨trivial, fun sent lively => ?_⟩
  have success : sent = true := lively
  subst success
  apply Prog.Meets.bind (stays_recvBuffer (zeros PACKET_SIZE))
  intro heard brought
  rcases heard with ⟨fault, buffer⟩
  simp only at brought
  subst brought
  exact ⟨trivial, fun _ _ => ⟨trivial, fun _ _ => stored _ calm⟩⟩

theorem stays_handlePut (password : Bytes) (nh : Nat) (tp : ThreadParam) (stack : Bytes) :
    Stays (Handler.handlePut password nh tp stack) (· ≠ .code 1) := by
  have all : ∀ (size : Nat) (parts : List Int) (locals : Locals) (fp : FILE), locals.retval ≠ 1 →
      Stays (Handler.putParts password size tp parts locals fp) (fun after => after.retval ≠ 1) := by
    intro size parts
    induction parts with
    | nil => exact fun _ _ calm => calm
    | cons part rest ih =>
        intro locals fp calm
        apply Prog.Meets.bind (stays_putPart password size tp part locals fp calm)
        exact fun after calm => ih after.1 after.2 calm
  refine ⟨trivial, fun opened _ => ?_⟩
  cases opened with
  | none => exact code_ne Nat.zero_ne_one
  | some fp =>
      apply Prog.Meets.bind (all _ _ _ fp Nat.zero_ne_one)
      exact fun after calm => code_ne calm

theorem stays_fetchPart (password filename : Bytes) (locals : Locals) (calm : locals.retval ≠ 1) :
    Stays (fetchPart password filename locals) (fun after => after.2.retval ≠ 1) := by
  have two : (2 : Nat) ≠ 1 := by decide
  rw [fetchPart]
  split_ifs
  · refine ⟨trivial, fun opened _ => ?_⟩
    cases opened with
    | none => exact Nat.zero_ne_one
    | some fp =>
        refine ⟨trivial, fun received lively => ?_⟩
        have fine : ¬ received.1 < 0 := Int.not_lt.mpr lively
        change Stays (if received.1 < 0 then .ret (false, { locals with retval := 1 })
          else .call (.fclose filename received.2) fun _ => .ret (true, locals)) _
        rw [if_neg fine]
        exact ⟨trivial, fun _ _ => calm⟩
  · exact two

theorem stays_getPart (password : Bytes) (tp : ThreadParam) (part : Int) (locals : Locals)
    (calm : locals.retval ≠ 1) :
    Stays (Handler.getPart password tp part locals) (fun after => after.2.retval ≠ 1) := by
  by_cases skipped : part = -1
  · simp only [Handler.getPart, skipped, ne_eq, not_true_eq_false, ↓reduceIte]
    exact calm
  · simp only [Handler.getPart, skipped, ne_eq, not_false_eq_true, ↓reduceIte]
    generalize setPartitionName tp.filename part = filename
    generalize setMsg locals.outpkt (setPath tp.path filename) = outpkt
    apply stays_request
    intro buffer
    exact ⟨trivial, fun _ _ => ⟨trivial, fun _ _ => stays_fetchPart password filename _ calm⟩⟩

theorem stays_handleGet (password : Bytes) (tp : ThreadParam) (stack : Bytes) :
    Stays (Handler.handleGet password tp stack) (· ≠ .code 1) := by
  have all : ∀ (parts : List Int) (locals : Locals), locals.retval ≠ 1 →
      Stays (Handler.getParts password tp parts locals) (fun after => after.retval ≠ 1) := by
    intro parts
    induction parts with
    | nil => exact fun _ calm => calm
    | cons part rest ih =>
        intro locals calm
        apply Prog.Meets.bind (stays_getPart password tp part locals calm)
        intro after calm
        rcases after with ⟨⟨⟩, after⟩
        · exact calm
        · exact ih after calm
  apply Prog.Meets.bind (all _ _ Nat.zero_ne_one)
  exact fun after calm => code_ne calm

theorem stays_connectionHandler (password : Bytes) (nh : Nat) (tp : ThreadParam) (stack : Bytes) :
    Stays (Handler.connectionHandler password nh tp stack) (· ≠ .code 1) := by
  rw [Handler.connectionHandler]
  split_ifs
  · exact stays_handleLs tp stack
  · exact stays_handlePut password nh tp stack
  · exact stays_handleGet password tp stack
  · exact stays_handleMkdir tp stack
  · exact code_ne Nat.zero_ne_one

theorem result_ne_one {password : Bytes} {nh : Nat} {tp : ThreadParam} {stack : Bytes}
    {world last : World} {result : Result}
    (ended : Prog.run respond (Handler.connectionHandler password nh tp stack) world =
      some (result, last)) (up : last.conn.up) : result ≠ .code 1 :=
  (stays_connectionHandler password nh tp stack).run respond (fun world => world.conn.up)
    (fun c state reply next answered up => (respond_up c state next reply answered up).1)
    (fun c state reply next answered up => (respond_up c state next reply answered up).2)
    world last result ended up

/-- A command of the client: the parameters of its thread, the bytes in its reply buffer, and
the directories of client and server when it starts, whatever others have made of them. -/
structure Command where
  tp : ThreadParam
  stack : Bytes
  disk : Disk
  remote : Disk
  size : tp.pkt.length = PACKET_SIZE

/-- The connection behind a command, and what the handler has returned. -/
structure Turn where
  conn : Conn
  result : Result

/-- Other connections have changed the directory of the server. -/
def Conn.serving (conn : Conn) (remote : Disk) : Conn :=
  { conn with server := { conn.server with disk := remote } }

/-- A command whose handler returns on a connection that is still up. -/
def turn (password : Bytes) (nh : Nat) (state : Turn) (command : Command) : Option Turn :=
  match Prog.run respond (Handler.connectionHandler password nh command.tp command.stack)
      ⟨state.conn.serving command.remote, command.disk⟩ with
  | none => none
  | some (result, world) => if lives world.conn.life 0 then some ⟨world.conn, result⟩ else none

/-- A GET can create the files of the partitions that it is given. -/
def Command.CanStore (command : Command) (users : Users) : Prop :=
  msgType command.tp.pkt = CMD_GET →
    Creates users command.tp command.disk.creatable command.remote command.tp.pkt
      [command.tp.parts.1, command.tp.parts.2]

theorem turn_synced {password : Bytes} {nh : Nat} {state next : Turn} {command : Command}
    (taken : turn password nh state command = some next) :
    next.result ≠ .code 1 ∧
      (Synced state.conn → (Synced next.conn ↔ command.CanStore state.conn.users)) := by
  rw [turn] at taken
  cases ended : Prog.run respond
      (Handler.connectionHandler password nh command.tp command.stack)
      ⟨state.conn.serving command.remote, command.disk⟩ with
  | none =>
      rw [ended] at taken
      cases taken
  | some behind =>
      rcases behind with ⟨result, world⟩
      rw [ended] at taken
      simp only at taken
      split_ifs at taken with up
      cases taken
      refine ⟨result_ne_one ended up, fun synced => ?_⟩
      have ready : Synced (state.conn.serving command.remote) := ⟨synced.idle, synced.drained⟩
      exact connectionHandler_synced command.size ready ended up

def sampleLink : Conn :=
  ⟨[(sampleUser.username, sampleUser.password)], ⟨sampleDisk, .idle, 0⟩, [], none, .error⟩

def sampleRemote : Disk :=
  { sampleDisk with
    files := fun path => if path = sampleUser.username then none else some []
    dirs := fun path => path = sampleUser.username }

def sampleMkdir : Command where
  tp := ⟨(-1, 0), [], [], buildMsgPacket CMD_MKDIR 0 (some (ascii "d")) (some sampleUser)⟩
  stack := zeros PACKET_SIZE
  disk := sampleDisk
  remote := sampleRemote
  size := length_buildMsgPacket CMD_MKDIR 0 (some (ascii "d")) (some sampleUser)

def sampleBlockedGet : Command where
  tp := ⟨(-1, 0), [], ascii "f", buildMsgPacket CMD_GET 0 none (some sampleUser)⟩
  stack := zeros PACKET_SIZE
  disk := { sampleDisk with allowed := fun _ => false }
  remote := sampleRemote
  size := length_buildMsgPacket CMD_GET 0 none (some sampleUser)

theorem run_request {α : Type} {world : World} {pkt buffer : Bytes}
    {next : Option Fault × Bytes → Program α} {other p : Program α}
    (asks : p = .call (.send pkt) fun sent =>
      if sent then recvBuffer buffer >>= next else other)
    (immortal : world.conn.life = none) (synced : Synced world.conn)
    (size : pkt.length = PACKET_SIZE) :
    ∃ conn, conn.life = none ∧ Prog.run respond p world =
      Prog.run respond (next (none, recvInto buffer (replyPacket pkt
        (handleRequest world.conn.users world.conn.server.disk pkt)))) { world with conn } := by
  rcases deliver_synced world.conn synced pkt size with ⟨rest, inbox, -⟩
  have alive : lives world.conn.life 0 = true := by rw [immortal]; rfl
  have still : (world.conn.deliver [pkt]).life = none := by
    simp only [Conn.deliver, immortal, spend, Option.map_none]
  refine ⟨{ world.conn.deliver [pkt] with inbox := rest, life := none }, rfl, ?_⟩
  simp only [asks, Prog.run_call, respond, Conn.send, alive, ↓reduceIte, Option.bind_some,
    recvBuffer, recv, Prog.perform_bind, Prog.call_bind, inbox, Prog.pure_eq, still, spend,
    Option.map_none]
  rfl

theorem turn_of_run {password : Bytes} {nh : Nat} {state : Turn} {command : Command}
    {result : Result} {conn : Conn} {disk : Disk}
    (ended : Prog.run respond (Handler.connectionHandler password nh command.tp command.stack)
      ⟨state.conn.serving command.remote, command.disk⟩ = some (result, ⟨conn, disk⟩))
    (immortal : conn.life = none) : turn password nh state command = some ⟨conn, result⟩ := by
  have alive : lives conn.life 0 = true := by rw [immortal]; rfl
  rw [turn, ended]
  exact if_pos alive

theorem run_getPart_blocked {password : Bytes} {tp : ThreadParam} {part : Int} {locals : Locals}
    {world : World} (real : part ≠ -1) (immortal : world.conn.life = none)
    (synced : Synced world.conn) (whole : locals.outpkt.length = PACKET_SIZE)
    (granted : (handleRequest world.conn.users world.conn.server.disk
      (partRequest tp part locals.outpkt)).errno = 0)
    (blocked : world.disk.creatable (setPartitionName tp.filename part) = false) :
    ∃ after conn, conn.life = none ∧ after.retval = 0 ∧
      Prog.run respond (Handler.getPart password tp part locals) world =
        some ((false, after), { world with conn }) := by
  have asks : Handler.getPart password tp part locals =
      .call (.send (partRequest tp part locals.outpkt)) fun sent =>
        if sent then recvBuffer locals.buffer >>= fun heard =>
          if heard.1 = some .error then
            .ret (false, ⟨partRequest tp part locals.outpkt, heard.2, 1⟩)
          else readMsg >>= fun _ => readErrno >>= fun _ =>
            fetchPart password (setPartitionName tp.filename part)
              ⟨partRequest tp part locals.outpkt, heard.2, locals.retval⟩
        else .ret (false, ⟨partRequest tp part locals.outpkt, locals.buffer, 1⟩) := by
    simp only [Handler.getPart, real, ne_eq, not_false_eq_true, ↓reduceIte]
    rfl
  rcases run_request asks immortal synced (length_setMsg _ _ whole) with ⟨conn, forever, run⟩
  refine ⟨⟨partRequest tp part locals.outpkt, recvInto locals.buffer (replyPacket
    (partRequest tp part locals.outpkt) (handleRequest world.conn.users world.conn.server.disk
      (partRequest tp part locals.outpkt))), 0⟩, conn, forever, rfl, ?_⟩
  rw [run]
  simp only [reduceCtorEq, ↓reduceIte, readMsg, readErrno, fetchPart, Prog.perform_bind,
    msgErrno_reply, granted, fopenWrite, Prog.run_call, respond, Disk.fopenWrite, blocked,
    Bool.false_eq_true, Option.bind_some]
  rfl

theorem run_handleMkdir {tp : ThreadParam} {stack : Bytes} {world : World}
    (immortal : world.conn.life = none) (synced : Synced world.conn)
    (size : tp.pkt.length = PACKET_SIZE) :
    ∃ conn, conn.life = none ∧
      Prog.run respond (handleMkdir tp stack) world = some (.code 0, { world with conn }) := by
  rcases run_request (p := handleMkdir tp stack) rfl immortal synced size with
      ⟨conn, forever, run⟩
  exact ⟨conn, forever, run⟩

end NetworkSystem.Dfc
