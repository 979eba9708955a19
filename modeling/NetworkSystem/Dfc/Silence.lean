import NetworkSystem.Dfc.Handlers
import NetworkSystem.Dfc.Rounds

/-! What a thread does when `recv` brings no reply, and which hosts `main` then takes for
unavailable. -/

namespace NetworkSystem.Dfc

open Bytes Calls

/-- What `main` makes of the return values of a GET or a LS; it does not look at those of
the other commands. -/
def markFailed (cmdType : UInt8) (nh : Nat) (results : Nat → Result) (available : Nat → Bool)
    (i : Nat) : Bool :=
  if (cmdType = CMD_GET ∨ cmdType = CMD_LS) ∧ i < nh ∧ results i = .code 1 then false
  else available i

/-- A call that reads a field of the reply, or sends or stores the data of a file. -/
def Call.usesReply : Call → Bool
  | .readMsg | .readErrno | .sendFile _ _ _ _ | .receiveFile _ _ _ => true
  | _ => false

/-- A thread takes its server for failed, and so does `main`. -/
structure Recognised (cmdType : UInt8) (rest : Handler.Program Result) : Prop where
  quiet : rest.Meets (fun _ _ => True) (fun c => c.usesReply = false) (· = .code 1)
  marked : cmdType = CMD_GET ∨ cmdType = CMD_LS → ∀ trace result,
    rest.Behind trace (.ret result) → ∀ (nh i : Nat) (results : Nat → Result)
      (available : Nat → Bool), i < nh → results i = result → (∀ j ≠ i, results j ≠ .code 1) →
      markFailed cmdType nh results available = Function.update available i false

theorem recognised_of_code (cmdType : UInt8) : Recognised cmdType (.ret (.code 1)) := by
  constructor
  · exact rfl
  · intro looked trace result way nh i results available host same others
    have value : result = .code 1 := by
      cases trace with
      | nil =>
          cases way
          rfl
      | cons event trace =>
          rcases way with ⟨next, call, -⟩
          cases call
    funext j
    by_cases here : j = i
    · rw [here, Function.update_self, markFailed, if_pos ⟨looked, host, same.trans value⟩]
    · have other : ¬ ((cmdType = CMD_GET ∨ cmdType = CMD_LS) ∧ j < nh ∧ results j = .code 1) :=
        fun marked => others j here marked.2.2
      rw [Function.update_of_ne here, markFailed, if_neg other]

theorem not_recognised_of_call (cmdType : UInt8) (c : Call) (uses : c.usesReply = true)
    (next : Reply c → Handler.Program Result) : ¬ Recognised cmdType (.call c next) := by
  intro recognised
  have quiet : c.usesReply = false := recognised.quiet.1
  rw [uses] at quiet
  cases quiet

/-- Behind a `recv` without a reply the failure is recognised outside of a PUT, and when it
was reported as an error. -/
def Classified (cmdType : UInt8) : (c : Call) → Reply c → Handler.Program Result → Prop
  | .recv, .error fault, rest =>
      Recognised cmdType rest ↔ cmdType ≠ CMD_PUT ∧ fault = .error
  | _, _, _ => True

section classified

variable {cmdType : UInt8}

theorem classified_read (fault : Fault) (closed : cmdType ≠ CMD_PUT → fault = .closed)
    (next : Unit → Handler.Program Result) :
    Recognised cmdType (.call .readMsg next) ↔ cmdType ≠ CMD_PUT ∧ fault = .error := by
  apply iff_of_false (not_recognised_of_call cmdType .readMsg rfl next)
  intro reported
  rw [closed reported.1] at reported
  cases reported.2

open Handler Prog

theorem throughout_recv (other : cmdType ≠ CMD_PUT) (next : Reply .recv → Program Result)
    (reads : ∀ reply, reply ≠ .error .error → ∃ later, next reply = .call .readMsg (fun _ => later) ∧
      later.Throughout (Classified cmdType))
    (failed : next (.error .error) = .ret (.code 1)) :
    (Prog.call Call.recv next).Throughout (Classified cmdType) := by
  intro reply
  by_cases error : reply = .error .error
  · rw [error, failed]
    exact ⟨iff_of_true (recognised_of_code cmdType) ⟨other, rfl⟩, trivial⟩
  · rcases reads reply error with ⟨later, same, all⟩
    rw [same]
    refine ⟨?_, fun _ => ⟨trivial, all⟩⟩
    cases reply with
    | ok bytes => exact trivial
    | error fault =>
        apply classified_read fault
        intro _
        cases fault with
        | closed => rfl
        | error => exact absurd rfl error

theorem throughout_handleLs (other : cmdType ≠ CMD_PUT) (tp : ThreadParam) (stack : Bytes) :
    (handleLs tp stack).Throughout (Classified cmdType) := by
  have printed : ∀ buffer, (takeListing buffer).Throughout (Classified cmdType) := by
    intro buffer
    rw [takeListing]
    split_ifs
    · intro read
      exact ⟨trivial, trivial⟩
    · intro read
      exact ⟨trivial, trivial⟩
    · exact trivial
  intro sent
  refine ⟨trivial, ?_⟩
  cases sent with
  | false => exact trivial
  | true =>
      apply throughout_recv other _ _ rfl
      intro reply brought
      rcases reply with ⟨⟨⟩⟩ | bytes
      · exact ⟨_, rfl, printed stack⟩
      · exact absurd rfl brought
      · exact ⟨_, rfl, printed (recvInto stack bytes)⟩

theorem throughout_handleMkdir (other : cmdType ≠ CMD_PUT) (tp : ThreadParam) (stack : Bytes) :
    (handleMkdir tp stack).Throughout (Classified cmdType) := by
  intro sent
  refine ⟨trivial, ?_⟩
  cases sent with
  | false => exact trivial
  | true =>
      apply throughout_recv other _ _ rfl
      intro reply brought
      rcases reply with ⟨⟨⟩⟩ | bytes
      · exact ⟨_, rfl, trivial⟩
      · exact absurd rfl brought
      · exact ⟨_, rfl, trivial⟩

theorem throughout_fetchPart (password filename : Bytes) (locals : Locals)
    (next : Bool × Locals → Program Result)
    (later : ∀ result, (next result).Throughout (Classified cmdType)) :
    (fetchPart password filename locals >>= next).Throughout (Classified cmdType) := by
  rw [fetchPart]
  split_ifs
  · intro opened
    refine ⟨trivial, ?_⟩
    cases opened with
    | none => exact later _
    | some fp =>
        intro received
        refine ⟨trivial, ?_⟩
        change ((if received.1 < 0 then .ret (false, { locals with retval := 1 })
          else .call (.fclose filename received.2) fun _ => .ret (true, locals) :
            Program (Bool × Locals)) >>= next).Throughout (Classified cmdType)
        split_ifs
        · exact later _
        · exact fun _ => ⟨trivial, later _⟩
  · exact later _

theorem throughout_getPart (other : cmdType ≠ CMD_PUT) (password : Bytes) (tp : ThreadParam)
    (part : Int) (locals : Locals) (next : Bool × Locals → Program Result)
    (returns : ∀ locals, next (false, locals) = .ret (.code locals.retval))
    (later : ∀ result, (next result).Throughout (Classified cmdType)) :
    (Handler.getPart password tp part locals >>= next).Throughout (Classified cmdType) := by
  by_cases skipped : part = -1
  · simp only [Handler.getPart, skipped, ne_eq, not_true_eq_false, ↓reduceIte]
    exact later _
  · simp only [Handler.getPart, skipped, ne_eq, not_false_eq_true, ↓reduceIte]
    generalize setPartitionName tp.filename part = filename
    generalize setMsg locals.outpkt (setPath tp.path filename) = outpkt
    have fetched : ∀ buffer, (readErrno >>= fun _ =>
        fetchPart password filename ⟨outpkt, buffer, locals.retval⟩ >>= next).Throughout
          (Classified cmdType) := by
      intro buffer read
      exact ⟨trivial, throughout_fetchPart password filename _ next later⟩
    intro sent
    refine ⟨trivial, ?_⟩
    cases sent with
    | false => exact later _
    | true =>
        apply throughout_recv other _ _ (returns _)
        intro reply brought
        rcases reply with ⟨⟨⟩⟩ | bytes
        · exact ⟨_, rfl, fetched locals.buffer⟩
        · exact absurd rfl brought
        · exact ⟨_, rfl, fetched (recvInto locals.buffer bytes)⟩

theorem throughout_handleGet (other : cmdType ≠ CMD_PUT) (password : Bytes) (tp : ThreadParam)
    (stack : Bytes) : (Handler.handleGet password tp stack).Throughout (Classified cmdType) := by
  have all : ∀ (parts : List Int) (locals : Locals),
      (Handler.getParts password tp parts locals >>= fun locals =>
        .ret (.code locals.retval)).Throughout (Classified cmdType) := by
    intro parts
    induction parts with
    | nil => exact fun _ => trivial
    | cons part rest ih =>
        intro locals
        rw [Handler.getParts, Prog.bind_assoc]
        apply throughout_getPart other
        · exact fun _ => rfl
        · intro result
          rcases result with ⟨⟨⟩, after⟩
          · exact trivial
          · exact ih after
  exact all _ _

theorem throughout_handlePut (isPut : cmdType = CMD_PUT) (password : Bytes) (nh : Nat)
    (tp : ThreadParam) (stack : Bytes) :
    (Handler.handlePut password nh tp stack).Throughout (Classified cmdType) := by
  have all : ∀ (size : Nat) (parts : List Int) (locals : Locals) (fp : FILE),
      (Handler.putParts password size tp parts locals fp >>= fun locals =>
        .ret (.code locals.retval)).Throughout (Classified cmdType) := by
    intro size parts
    induction parts with
    | nil => exact fun _ _ => trivial
    | cons part rest ih =>
        intro locals fp
        have stored : ∀ locals : Locals, (storePart password size part locals fp >>= fun result =>
            Handler.putParts password size tp rest result.1 result.2 >>= fun locals =>
              .ret (.code locals.retval)).Throughout (Classified cmdType) := by
          intro locals
          rw [storePart]
          split_ifs
          · exact fun _ => ⟨trivial, ih _ _⟩
          · exact ih _ _
        rw [Handler.putParts, Prog.bind_assoc]
        intro sent
        refine ⟨trivial, fun reply => ⟨?_, ?_⟩⟩
        · cases reply with
          | ok bytes => exact trivial
          | error fault => exact classified_read fault (fun other => absurd isPut other) _
        · cases reply with
          | ok bytes =>
              intro read
              exact ⟨trivial, fun _ => ⟨trivial, stored _⟩⟩
          | error fault =>
              intro read
              exact ⟨trivial, fun _ => ⟨trivial, stored _⟩⟩
  intro opened
  refine ⟨trivial, ?_⟩
  cases opened with
  | none => exact trivial
  | some fp => exact all _ _ _ _

theorem throughout_connectionHandler (password : Bytes) (nh : Nat) (tp : ThreadParam)
    (stack : Bytes) : (Handler.connectionHandler password nh tp stack).Throughout
      (Classified (msgType tp.pkt)) := by
  have isLs : CMD_LS ≠ CMD_PUT := by decide
  have isGet : CMD_GET ≠ CMD_PUT := by decide
  have isMkdir : CMD_MKDIR ≠ CMD_PUT := by decide
  rw [Handler.connectionHandler]
  split_ifs with ls put get mkdir
  · exact throughout_handleLs (ls ▸ isLs) tp stack
  · exact throughout_handlePut put password nh tp stack
  · exact throughout_handleGet (get ▸ isGet) password tp stack
  · exact throughout_handleMkdir (mkdir ▸ isMkdir) tp stack
  · exact trivial

end classified

/-- A request that is not answered: its server is taken for failed when the command is not
a PUT and `recv` has reported an error, and in no other case. -/
theorem failed_server_recognised (password : Bytes) (nh : Nat) (tp : ThreadParam) (stack : Bytes)
    (trace : List (Σ c, Reply c)) (fault : Fault) (rest : Handler.Program Result)
    (way : (Handler.connectionHandler password nh tp stack).Behind
      (trace ++ [⟨.recv, .error fault⟩]) rest) :
    Recognised (msgType tp.pkt) rest ↔ msgType tp.pkt ≠ CMD_PUT ∧ fault = .error :=
  (throughout_connectionHandler password nh tp stack).behind trace .recv (.error fault) way

def sampleGetThread : ThreadParam :=
  ⟨(-1, 0), [], ascii "f", buildMsgPacket CMD_GET 0 none (some sampleUser)⟩

def sampleGetPacket : Bytes :=
  setMsg sampleGetThread.pkt (setPath [] (setPartitionName (ascii "f") 0))

theorem sampleGetThread_handler (stack : Bytes) :
    Handler.connectionHandler sampleUser.password 2 sampleGetThread stack =
      Handler.handleGet sampleUser.password sampleGetThread stack := by
  have isGet : msgType sampleGetThread.pkt = CMD_GET := msgType_build CMD_GET 0 none (some sampleUser)
  have notLs : ¬ CMD_GET = CMD_LS := by decide
  have notPut : ¬ CMD_GET = CMD_PUT := by decide
  rw [Handler.connectionHandler, isGet, if_neg notLs, if_neg notPut, if_pos rfl]

theorem failed_server_recognised_get :
    Recognised (msgType sampleGetThread.pkt) (.ret (.code 1)) ↔
      msgType sampleGetThread.pkt ≠ CMD_PUT ∧ Fault.error = .error := by
  apply failed_server_recognised sampleUser.password 2 sampleGetThread []
    [⟨.send sampleGetPacket, true⟩] .error
  rw [sampleGetThread_handler]
  exact ⟨_, rfl, _, rfl, rfl⟩

/-- A GET whose server has closed the connection reads the bytes that its reply buffer
happens to hold, and returns 2. -/
theorem closed_server_not_recognised :
    ∃ rest, (Handler.connectionHandler sampleUser.password 2 sampleGetThread
        (List.replicate PACKET_SIZE 255)).Behind
      [⟨.send sampleGetPacket, true⟩, ⟨.recv, .error .closed⟩] rest ∧
      rest.Behind [⟨.readMsg, ()⟩, ⟨.readErrno, ()⟩] (.ret (.code 2)) ∧
      ¬ Recognised (msgType sampleGetThread.pkt) rest := by
  have way : ∀ stack, msgErrno stack ≠ 0 →
      ∃ next, (Handler.connectionHandler sampleUser.password 2 sampleGetThread stack).Behind
        [⟨.send sampleGetPacket, true⟩, ⟨.recv, .error .closed⟩] (.call .readMsg next) ∧
      (Prog.call Call.readMsg next).Behind [⟨.readMsg, ()⟩, ⟨.readErrno, ()⟩] (.ret (.code 2)) := by
    intro stack errno
    rw [sampleGetThread_handler]
    refine ⟨_, ⟨_, rfl, _, rfl, rfl⟩, ⟨_, rfl, _, rfl, ?_⟩⟩
    simp only [Handler.fetchPart, errno, ↓reduceIte]
    rfl
  rcases way (List.replicate PACKET_SIZE 255) (by decide +kernel) with ⟨next, here, later⟩
  exact ⟨_, here, later, not_recognised_of_call _ .readMsg rfl next⟩

end NetworkSystem.Dfc
