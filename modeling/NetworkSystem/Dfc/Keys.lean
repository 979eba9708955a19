import NetworkSystem.Dfc.ClientConfig
import NetworkSystem.Dfc.Restraint

/-! The keys of the client's transfers: the XOR loops of `trans.c` divide by the length of
the key, which is the password of the configuration. -/

namespace NetworkSystem.Dfc

open Bytes Calls

/-- The loop of `send_file` reads a byte in one of its rounds. -/
def SendsByte (accepts : Nat → Bool) (fp : FILE) (offset n : Int) (key : Option Bytes) : Prop :=
  ∃ rounds state, Loop.after (sendBody accepts key) rounds ⟨fp.fseek offset, n, 0, []⟩ = some state ∧
    ¬ state.Finished ∧ state.chunk ≠ []

def TakesByte (inbox : Inbox) : Prop :=
  ∃ front bytes rest, inbox.packets = front ++ bytes :: rest ∧
    (∀ before ∈ front ++ [bytes], dataLayout.eof (recvInto (zeros PACKET_SIZE) before) ≠ 1) ∧
    0 < dataLayout.dataLen (recvInto (zeros PACKET_SIZE) bytes)

def Processes : Call → World → Prop
  | .sendFile fp offset n key, world => SendsByte (lives world.conn.life) fp offset n key
  | .receiveFile _ _ _, world => TakesByte world.conn.arriving
  | _, _ => False

/-- No thread that `main` starts transfers a byte under an empty key, whatever the file and
the server are. -/
def Keyed (md5Mod : Bytes → Nat → Nat) (conf : ClientConfig) : Prop :=
  ∀ (cmdType : UInt8) (msg : Option Bytes) (filename path stack : Bytes) (available : Nat → Bool)
    (world : World) (i : Nat) (parts : Int × Int),
    (i, parts) ∈ schedule cmdType available (md5Mod filename conf.nh) conf.nh →
    ∀ event ∈ (Handler.connectionHandler conf.password.text conf.nh
        ⟨parts, path, filename, buildMsgPacket cmdType 0 msg (some conf.credentials)⟩
        stack).calls respond world,
      Processes event.1 event.2 → ∀ key, event.1.key = some key → 0 < key.length

namespace Handler

section password

variable (password : Bytes)

/-- The calls of a program that have a key have the password. -/
def Secret {α : Type} (p : Program α) : Prop :=
  p.Meets (fun _ _ => True) (fun c => ∀ key, c.key = some key → key = password) (fun _ => True)

theorem secret_connectionHandler (nh : Nat) (tp : ThreadParam) (stack : Bytes) :
    Secret password (connectionHandler password nh tp stack) :=
  (restrained_connectionHandler password nh tp stack).mono (fun _ own => own.2)

end password

end Handler

theorem keyed_of_password (md5Mod : Bytes → Nat → Nat) (conf : ClientConfig)
    (some_ : conf.password.text ≠ []) : Keyed md5Mod conf := by
  intro cmdType msg filename path stack available world i parts _ event member _ key given
  have secret : Handler.Secret conf.password.text (Handler.connectionHandler conf.password.text
      conf.nh ⟨parts, path, filename, buildMsgPacket cmdType 0 msg (some conf.credentials)⟩ stack) :=
    Handler.secret_connectionHandler conf.password.text conf.nh _ stack
  have same := secret.calls respond (fun _ _ _ _ _ => trivial) world event member key given
  rw [same]
  exact List.length_pos_iff.mpr some_

theorem keyed_of_no_hosts (md5Mod : Bytes → Nat → Nat) (conf : ClientConfig)
    (none_ : conf.hosts = []) : Keyed md5Mod conf := by
  intro cmdType msg filename path stack available world i parts started
  have bound := ((mem_schedule _ _ _ _ _ _).mp started).1
  rw [ClientConfig.nh, none_] at bound
  exact absurd bound (Nat.not_lt_zero i)

/-- The connection is closed from the server's side. -/
structure Hangup (conn : Conn) : Prop where
  down : conn.life = some 0
  closed : conn.fault = .closed

theorem Hangup.dead {conn : Conn} (hangup : Hangup conn) (k : Nat) : lives conn.life k = false := by
  rw [hangup.down]
  rfl

theorem Hangup.unsent {conn : Conn} (hangup : Hangup conn) (pkt : Bytes) : conn.send pkt = none := by
  rw [Conn.send, hangup.dead]
  rfl

theorem Hangup.recvBuffer {world : World} (hangup : Hangup world.conn) (buffer : Bytes) :
    Prog.run respond (Handler.recvBuffer buffer) world = some ((some .closed, buffer), world) := by
  simp only [Handler.recvBuffer, Handler.recv, Prog.perform_bind, Prog.run_call, respond,
    hangup.dead, hangup.closed, Bool.false_eq_true, ↓reduceIte, Option.bind_some, Prog.pure_eq,
    Prog.run_ret]

/-- Behind a hang-up the reply buffer of `handle_put` holds zeros, which are no error. -/
theorem sendFile_mem_putPart (password : Bytes) (size : Nat) (tp : ThreadParam) (part : Int)
    (locals : Handler.Locals) (fp : FILE) (world : World) (hangup : Hangup world.conn) :
    (Call.sendFile fp (size * part) size (some password), world) ∈
      (Handler.putPart password size tp part locals fp).calls respond world := by
  have zero : msgErrno (zeros PACKET_SIZE) = 0 := getD_zeros PACKET_SIZE 34
  simp only [Handler.putPart, Handler.send, Handler.readMsg, Handler.readErrno, Prog.perform_bind,
    Prog.calls_call, Prog.calls_bind, respond, hangup.unsent, hangup.recvBuffer, Option.elim_some,
    Handler.storePart, zero, ↓reduceIte, Handler.sendFile]
  apply List.mem_cons_of_mem
  apply List.mem_append_right
  exact List.mem_cons_of_mem _ (List.mem_cons_of_mem _ List.mem_cons_self)

theorem sendFile_mem_handlePut (password : Bytes) (nh : Nat) (tp : ThreadParam)
    (stack content : Bytes) (world : World) (there : world.disk.files tp.filename = some content)
    (hangup : Hangup world.conn) :
    (Call.sendFile (FILE.opened content) (psize content.length nh * tp.parts.1)
        (psize content.length nh) (some password), world) ∈
      (Handler.handlePut password nh tp stack).calls respond world := by
  have opened : world.disk.fopenRead tp.filename = some (FILE.opened content) := by
    rw [Disk.fopenRead, there]
    rfl
  simp only [Handler.handlePut, Handler.fopenRead, Prog.perform_bind, Prog.calls_call, respond,
    opened, Option.elim_some, Handler.putParts, Prog.calls_bind]
  apply List.mem_cons_of_mem
  apply List.mem_append_left
  apply List.mem_append_left
  exact sendFile_mem_putPart password _ tp tp.parts.1 _ _ world hangup

theorem sendsByte_of_content (accepts : Nat → Bool) (content : Bytes) (size : Nat)
    (some_ : content ≠ []) (more : 0 < size) (key : Option Bytes) :
    SendsByte accepts (FILE.opened content) (size * (0 : Int)) size key := by
  refine ⟨0, _, rfl, ?_, ?_⟩
  · intro finished
    rcases finished with ended | exhausted
    · rw [Int.mul_zero] at ended
      cases ended
    · have exhausted : (size : Int) ≤ 0 := exhausted.2
      omega
  · rw [← List.length_pos_iff, SendState.length_chunk]
    have filled := List.length_pos_iff.mpr some_
    have asked : 0 < wanted size := by
      simp only [wanted, DATA_SIZE_MAX]
      split <;> omega
    simp only [Int.mul_zero, FILE.fseek_content]
    have front : ((FILE.opened content).fseek 0).pos = 0 := rfl
    have whole : (FILE.opened content).content = content := rfl
    rw [front, whole]
    omega

theorem connectionHandler_put (password : Bytes) (nh : Nat) (parts : Int × Int)
    (path filename stack : Bytes) (conf : Credentials) :
    let tp : ThreadParam := ⟨parts, path, filename, buildMsgPacket CMD_PUT 0 none (some conf)⟩
    Handler.connectionHandler password nh tp stack = Handler.handlePut password nh tp stack := by
  intro tp
  have type : msgType tp.pkt = CMD_PUT := msgType_build CMD_PUT 0 none (some conf)
  rw [Handler.connectionHandler, type, if_neg (by decide), if_pos rfl]

/-- A connection that the server has closed, and a local file of one byte. -/
def closedWorld : World :=
  ⟨⟨[], ⟨sampleDisk, .idle, 0⟩, [], some 0, .closed⟩, sampleDisk.save [102] [1]⟩

/-- A client with a host and without a password divides by zero for some file and server. -/
theorem not_keyed (md5Mod : Bytes → Nat → Nat)
    (bounded : ∀ filename nh, 0 < nh → md5Mod filename nh < nh) (conf : ClientConfig)
    (hosts : conf.hosts ≠ []) (empty : conf.password.text = []) : ¬ Keyed md5Mod conf := by
  intro keyed
  have positive : 0 < conf.nh := List.length_pos_iff.mpr hosts
  have hash := bounded [102] conf.nh positive
  -- the host that takes the first partition
  have started := (mem_schedule CMD_PUT (fun _ => true) (md5Mod [102] conf.nh) conf.nh
    (md5Mod [102] conf.nh) _).mpr ⟨hash, rfl, rfl⟩
  have first : (threadParts CMD_PUT (!true) (md5Mod [102] conf.nh) (md5Mod [102] conf.nh)
      conf.nh).1 = 0 := by
    rw [threadParts, if_pos (Or.inl rfl), Int.sub_self, Int.zero_add, Int.tmod_self]
  have called := sendFile_mem_handlePut conf.password.text conf.nh
    ⟨threadParts CMD_PUT (!true) (md5Mod [102] conf.nh) (md5Mod [102] conf.nh) conf.nh, [], [102],
      buildMsgPacket CMD_PUT 0 none (some conf.credentials)⟩
    [] [1] closedWorld (Disk.save_files_self _ _ _) ⟨rfl, rfl⟩
  rw [← connectionHandler_put, first] at called
  have moved := sendsByte_of_content (lives (some 0)) [1] (psize 1 conf.nh) (by decide)
    (Nat.succ_pos _) (some conf.password.text)
  have divides := keyed CMD_PUT none [102] [] [] (fun _ => true) closedWorld _ _ started _ called
    moved _ rfl
  rw [empty] at divides
  exact absurd divides (by decide)

def keyedConfig : Bytes := ascii "Server DFS1 127.0.0.1:10001\nPassword: 1234567\n"

def bareConfig : Bytes := ascii "Server DFS1 127.0.0.1:10001\n"

end NetworkSystem.Dfc
