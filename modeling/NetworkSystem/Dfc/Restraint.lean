import NetworkSystem.Dfc.Handlers

/-! The calls that a thread of the client can make, whatever it is answered: the files
they open, and the key of their transfers. -/

namespace NetworkSystem.Dfc

open Bytes Calls

def Call.key : Call → Option Bytes
  | .sendFile _ _ _ key => key
  | .receiveFile _ _ key => key
  | _ => none

structure Footprint where
  reads : Bytes → Prop
  writes : Bytes → Prop

def Call.Within (files : Footprint) : Call → Prop
  | .fopenRead path => files.reads path
  | .fopenWrite path => files.writes path
  | .receiveFile path _ _ => files.writes path
  | .fclose path _ => files.writes path
  | _ => True

/-- The local file, and for a GET the files of the partitions that the thread asks for. -/
def ThreadParam.files (tp : ThreadParam) : Footprint where
  reads path := path = tp.filename
  writes path := msgType tp.pkt = CMD_GET ∧ ∃ part ∈ [tp.parts.1, tp.parts.2], part ≠ -1 ∧
    path = setPartitionName tp.filename part

namespace Handler

variable {files : Footprint} {password : Bytes} {α β : Type}

/-- Whatever a program is answered, its calls open no other files and have no other key than
the password. -/
def Restrained (files : Footprint) (password : Bytes) (p : Program α) : Prop :=
  p.Meets (fun _ _ => True)
    (fun c => c.Within files ∧ ∀ key, c.key = some key → key = password) (fun _ => True)

theorem Restrained.bind {p : Program α} {f : α → Program β} (first : Restrained files password p)
    (second : ∀ value, Restrained files password (f value)) :
    Restrained files password (p >>= f) :=
  Prog.Meets.bind first (fun value _ => second value)

theorem Restrained.ret (value : α) : Restrained files password (.ret value : Program α) := trivial

/-- A call on a file of the thread, without a key. -/
theorem Restrained.opens {c : Call} {next : Reply c → Program α} (within : c.Within files)
    (plain : c.key = none) (later : ∀ reply, Restrained files password (next reply)) :
    Restrained files password (Prog.perform c >>= next) := by
  refine ⟨⟨within, ?_⟩, fun reply _ => later reply⟩
  intro key given
  rw [plain] at given
  cases given

/-- A call on no file, without a key. -/
theorem Restrained.free {c : Call} {next : Reply c → Program α} (free : c.Within files = True)
    (plain : c.key = none) (later : ∀ reply, Restrained files password (next reply)) :
    Restrained files password (Prog.perform c >>= next) :=
  Restrained.opens (free ▸ trivial) plain later

/-- A transfer under the password. -/
theorem Restrained.transfers {c : Call} {next : Reply c → Program α} (within : c.Within files)
    (keyed : c.key = some password) (later : ∀ reply, Restrained files password (next reply)) :
    Restrained files password (Prog.perform c >>= next) := by
  refine ⟨⟨within, ?_⟩, fun reply _ => later reply⟩
  intro key given
  rw [keyed] at given
  exact (Option.some.inj given).symm

theorem restrained_recvBuffer (buffer : Bytes) : Restrained files password (recvBuffer buffer) := by
  apply Restrained.free rfl rfl
  intro reply
  cases reply with
  | ok bytes => exact Restrained.ret _
  | error fault => exact Restrained.ret _

/-- A request and the wait for its reply. -/
theorem Restrained.request {pkt buffer : Bytes} {next : Option Fault × Bytes → Program α}
    {unsent : Program α} (heard : ∀ received, Restrained files password (next received))
    (failed : Restrained files password unsent) :
    Restrained files password
      (send pkt >>= fun sent => if sent then recvBuffer buffer >>= next else unsent) := by
  apply Restrained.free rfl rfl
  intro sent
  split_ifs
  · exact Restrained.bind (restrained_recvBuffer buffer) heard
  · exact failed

theorem restrained_storePart (size : Nat) (part : Int) (locals : Locals) (fp : FILE) :
    Restrained files password (storePart password size part locals fp) := by
  rw [storePart]
  split_ifs
  · exact Restrained.transfers trivial rfl (fun _ => Restrained.ret _)
  · exact Restrained.ret _

theorem restrained_putPart (size : Nat) (tp : ThreadParam) (part : Int) (locals : Locals)
    (fp : FILE) : Restrained files password (putPart password size tp part locals fp) := by
  apply Restrained.free rfl rfl
  intro sent
  apply Restrained.bind (restrained_recvBuffer _)
  intro received
  apply Restrained.free rfl rfl
  intro read
  exact Restrained.free rfl rfl (fun _ => restrained_storePart _ _ _ _)

theorem restrained_putParts (size : Nat) (tp : ThreadParam) (parts : List Int) (locals : Locals)
    (fp : FILE) : Restrained files password (putParts password size tp parts locals fp) := by
  induction parts generalizing locals fp with
  | nil => exact Restrained.ret _
  | cons part rest ih =>
      apply Restrained.bind (restrained_putPart size tp part locals fp)
      intro after
      exact ih after.1 after.2

theorem restrained_handlePut (nh : Nat) (tp : ThreadParam) (stack : Bytes)
    (local_ : files.reads tp.filename) :
    Restrained files password (handlePut password nh tp stack) := by
  apply Restrained.opens (c := .fopenRead tp.filename) local_ rfl
  intro opened
  cases opened with
  | none => exact Restrained.ret _
  | some fp => exact Restrained.bind (restrained_putParts _ tp _ _ fp) (fun _ => Restrained.ret _)

theorem restrained_fetchPart (filename : Bytes) (locals : Locals) (own : files.writes filename) :
    Restrained files password (fetchPart password filename locals) := by
  rw [fetchPart]
  split_ifs
  · apply Restrained.opens (c := .fopenWrite filename) own rfl
    intro opened
    cases opened with
    | none => exact Restrained.ret _
    | some fp =>
        apply Restrained.transfers (c := .receiveFile filename fp (some password)) own rfl
        intro received
        rcases received with ⟨code, fp⟩
        dsimp only
        split_ifs
        · exact Restrained.ret _
        · exact Restrained.opens own rfl (fun _ => Restrained.ret _)
  · exact Restrained.ret _

theorem restrained_getPart (tp : ThreadParam) (part : Int) (locals : Locals)
    (own : part ≠ -1 → files.writes (setPartitionName tp.filename part)) :
    Restrained files password (getPart password tp part locals) := by
  rw [getPart]
  split_ifs with asked
  · apply Restrained.request
    · intro received
      rcases received with ⟨fault, buffer⟩
      dsimp only
      split_ifs
      · exact Restrained.ret _
      · apply Restrained.free rfl rfl
        intro read
        exact Restrained.free rfl rfl (fun _ => restrained_fetchPart _ _ (own asked))
    · exact Restrained.ret _
  · exact Restrained.ret _

theorem restrained_getParts (tp : ThreadParam) (parts : List Int) (locals : Locals)
    (own : ∀ part ∈ parts, part ≠ -1 → files.writes (setPartitionName tp.filename part)) :
    Restrained files password (getParts password tp parts locals) := by
  induction parts generalizing locals with
  | nil => exact Restrained.ret _
  | cons part rest ih =>
      rw [List.forall_mem_cons] at own
      apply Restrained.bind (restrained_getPart tp part locals own.1)
      intro after
      rcases after with ⟨goes, after⟩
      dsimp only
      split_ifs
      · exact ih after own.2
      · exact Restrained.ret _

theorem restrained_takeListing (buffer : Bytes) :
    Restrained files password (takeListing buffer) := by
  rw [takeListing]
  split_ifs
  · exact Restrained.free rfl rfl (fun _ => Restrained.ret _)
  · exact Restrained.free rfl rfl (fun _ => Restrained.ret _)
  · exact Restrained.ret _

theorem restrained_handleLs (tp : ThreadParam) (stack : Bytes) :
    Restrained files password (handleLs tp stack) := by
  apply Restrained.request
  · intro received
    rcases received with ⟨fault, buffer⟩
    dsimp only
    split_ifs
    · exact Restrained.ret _
    · exact Restrained.free rfl rfl (fun _ => restrained_takeListing buffer)
  · exact Restrained.ret _

theorem restrained_handleMkdir (tp : ThreadParam) (stack : Bytes) :
    Restrained files password (handleMkdir tp stack) := by
  apply Restrained.request
  · intro received
    rcases received with ⟨fault, buffer⟩
    dsimp only
    split_ifs
    · exact Restrained.ret _
    · exact Restrained.free rfl rfl (fun _ => Restrained.ret _)
  · exact Restrained.ret _

theorem restrained_connectionHandler (password : Bytes) (nh : Nat) (tp : ThreadParam)
    (stack : Bytes) :
    Restrained tp.files password (connectionHandler password nh tp stack) := by
  rw [connectionHandler]
  split_ifs with ls put get
  · exact restrained_handleLs tp stack
  · exact restrained_handlePut nh tp stack rfl
  · refine Restrained.bind (restrained_getParts tp _ _ ?_) (fun _ => Restrained.ret _)
    intro part member asked
    exact ⟨get, part, member, asked, rfl⟩
  · exact restrained_handleMkdir tp stack
  · exact Restrained.ret _

end Handler

end NetworkSystem.Dfc
