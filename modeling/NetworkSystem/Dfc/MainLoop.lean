import NetworkSystem.Dfc.AnyOrder
import NetworkSystem.Dfc.Listing
import NetworkSystem.Dfc.Silence

/-! `main` of the client: what it makes of a line of the user, the rounds of `mkdir` and
`list`, and the loop over the lines. -/

namespace NetworkSystem.Dfc

open Bytes Store Calls

/-- What `split` stores in `p` of a line that `fgets` has stored in `buffer`; `none` where
`strip` copies over itself, or a string runs past its array. -/
def lineStrings (piece : Bytes) : Option (List Bytes) :=
  match stripApart (removeEndl (cstr piece)) 32 with
  | none => none
  | some line => storeTokens BUF_SIZE LINE_SIZE ((tokens line [32]).filter (· ≠ []))

/-- `cmd_type` behind the strings of a line; `none` for a line that is passed over. -/
def lineCommand : List Bytes → Option UInt8
  | [] => none
  | word :: operands =>
      let word := lower word
      if word = ascii "mkdir" then if operands = [] then none else some CMD_MKDIR
      else if word = ascii "list" then some CMD_LS
      else if word = ascii "get" then if operands = [] then none else some CMD_GET
      else if word = ascii "put" then if operands = [] then none else some CMD_PUT
      else none

/-- Whether the line sets `msg` to `p[1]`. -/
def setsMsg (cmdType : UInt8) (p : List Bytes) : Bool :=
  (cmdType = CMD_MKDIR ∨ cmdType = CMD_LS) ∧ p.length > 1

/-- `c[0] % n`, where `digest` is the first byte of the MD5 sum. -/
def md5Mod (digest : Bytes → UInt8) (filename : Bytes) (n : Nat) : Nat :=
  (digest filename).toNat % n

/-- A thread's `void *` as `main` looks at it behind a `list`. -/
def Result.lsReturn : Result → LsReturn
  | .code value => if value = 1 then .failed else .nothing
  | .text result => .listing result

/-- What a line leaves to the next one. `msg` tells whether that variable points to
`p[1]`; `printed` is a history of what the `list` commands have printed. -/
structure Shell where
  client : Client
  msg : Bool
  printed : List (List (Bytes × Bool))

section main

variable (conf : Credentials) (nh : Nat) (digest : Bytes → UInt8)

/-- The parameters of the threads of a `get` or `put`; `none` without hosts and where a name
runs past an array. -/
def lineRequest (msg : Option Bytes) (p : List Bytes) : Option Request :=
  let filename := p.getD 1 []
  let path := p.getD 2 []
  if checks : 0 < nh ∧ 0 ∉ filename ∧ 0 ∉ path ∧ Fits conf.username nh filename path then
    some {
      conf, nh, filename, path, msg
      hash := md5Mod digest filename nh
      hosts := checks.1
      hash_lt := Nat.mod_lt _ checks.1
      filename_clean := checks.2.1
      path_clean := checks.2.2.1
      fits := checks.2.2.2 }
  else none

/-- The round of a `mkdir` or `list`, whose threads get no file. -/
def messageRound (cmdType : UInt8) (msg : Option Bytes) (stack : Nat → Bytes) (client : Client) :
    Option Round :=
  let pkt := buildMsgPacket cmdType 0 msg (some conf)
  let threads := schedule cmdType client.available 0 nh
  Round.inTurn (roundPrograms conf.password nh [] [] pkt stack threads) (threads.map Prod.fst)
    client.round

namespace Shell

def putLine (req : Request) (stack : Nat → Bytes) (shell : Shell) : Option Shell :=
  (putCommand req stack shell.client).map fun client => { shell with client }

def getLine (req : Request) (stack : Nat → Bytes) (shell : Shell) : Option Shell :=
  match getCommand (req.nh + 1) req stack shell.client with
  | some (some result) => some { shell with client := result.client }
  | _ => none

/-- Behind the round of a `mkdir` or `list`. -/
def join (cmdType : UInt8) (shell : Shell) (round : Round) : Option Shell :=
  let client : Client :=
    { available := markFailed cmdType nh round.results shell.client.available
      conns := round.conns
      disk := round.disk
      got := shell.client.got }
  if cmdType = CMD_LS then
    (listCommand ((List.range nh).map fun i => (round.results i).lsReturn)).map fun output =>
      { shell with client, printed := shell.printed ++ [output] }
  else some { shell with client }

/-- What `msg` points to behind the `split` of a line. -/
def message (p : List Bytes) (shell : Shell) : Option Bytes :=
  if shell.msg then some (p.getD 1 []) else none

/-- A line with a command. The packet of a `get` or `put` starts with a message as well,
which its threads overwrite. -/
def send (cmdType : UInt8) (p : List Bytes) (stack : Nat → Bytes) (shell : Shell) :
    Option Shell :=
  let msg := shell.message p
  if cmdType = CMD_PUT then (lineRequest conf nh digest msg p).bind (shell.putLine · stack)
  else if cmdType = CMD_GET then (lineRequest conf nh digest msg p).bind (shell.getLine · stack)
  else (messageRound conf nh cmdType msg stack shell.client).bind (shell.join nh cmdType)

/-- `msg = p[1]`, where the command does that. -/
def point (cmdType : UInt8) (p : List Bytes) (shell : Shell) : Shell :=
  { shell with msg := shell.msg || setsMsg cmdType p }

/-- The body of the loop; `none` when a thread never ends or an array is too short. -/
def line (piece : Bytes) (stack : Nat → Bytes) (shell : Shell) : Option Shell :=
  match lineStrings piece with
  | none => none
  | some p =>
      match lineCommand p with
      | none => some shell
      | some cmdType => (shell.point cmdType p).send conf nh digest cmdType p stack

end Shell

/-- A new connection to a server: its thread waits for a command. -/
def Conn.opened (conn : Conn) : Conn :=
  { conn with
    server := { conn.server with mode := .idle }
    inbox := []
    life := none }

/-- What happens at a client: it is started, where the available hosts can be connected to
and these connections do not fail; it reads a line; the user changes a file. -/
inductive Input where
  | start (available : Nat → Bool)
  | line (piece : Bytes) (stack : Nat → Bytes)
  | edit (filename : Bytes) (content : Option Bytes)

def Shell.next (shell : Shell) : Input → Option Shell
  | .start available =>
      some {
        client := { shell.client with
          available
          conns := fun i => (shell.client.conns i).opened }
        msg := false
        printed := shell.printed }
  | .line piece stack => shell.line conf nh digest piece stack
  | .edit filename content =>
      let files := Function.update shell.client.disk.files filename content
      some { shell with
        client := { shell.client with disk := { shell.client.disk with files } } }

end main

end NetworkSystem.Dfc
