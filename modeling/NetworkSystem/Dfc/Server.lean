import NetworkSystem.Dfc.Partition

/-! The server: how `connection_handler` answers a request, its command loop with
the file transfers inside, and the same server as a machine that takes one `recv`
result after the other. -/

namespace NetworkSystem.Dfc

open Bytes Store

/-- `conf.users`, in the order of the configuration file. -/
abbrev Users := List (Bytes × Bytes)

def checkUser : Users → Bytes → Bytes → Int
  | [], _, _ => -1
  | (name, secret) :: rest, username, password =>
      if username = name then if password = secret then 1 else -1
      else checkUser rest username password

/-- `create_dir`: 1 for a new directory, 0 for one that is there. -/
def createDir (disk : Disk) (dir : Bytes) : Int × Disk :=
  if disk.dirs dir then (0, disk)
  else if (disk.files dir).isSome then (-1, disk)
  else if disk.mkdirAllowed dir then
    (1, { disk with dirs := Function.update disk.dirs dir true })
  else (-1, disk)

/-- `list_dir`; a directory that cannot be opened gives the empty string. -/
def listDir (disk : Disk) (dirName : Bytes) (delimiter : UInt8) : Bytes :=
  match disk.readdir disk.files dirName with
  | none => []
  | some entries =>
      (entries.filter (fun entry => entry.name ≠ ascii "." ∧ entry.name ≠ ascii ".." ∧
        entry.isDir = false)).flatMap (fun entry => entry.name ++ [delimiter])

/-- What the command loop holds when it builds its reply: `errno`, `msg`, and the
opened stream with its path. -/
structure Verdict where
  errno : UInt8
  msg : Bytes
  fp : Option (Bytes × FILE)
  disk : Disk

/-- The `switch` over `msg_type`. -/
def runCommand (disk : Disk) (pkt : Bytes) : Verdict :=
  let path := setPath (msgUsername pkt) (msgText pkt)
  if msgType pkt = CMD_MKDIR then
    let (code, disk) := createDir disk path
    if code < 0 then ⟨1, ascii "Fail to mkdir", none, disk⟩
    else ⟨0, [], none, disk⟩
  else if msgType pkt = CMD_LS then ⟨0, listDir disk path 10, none, disk⟩
  else if msgType pkt = CMD_GET then
    if (msgText pkt).length > 0 then
      match disk.fopenRead path with
      | none => ⟨1, ascii "server: get: cannot open the file", none, disk⟩
      | some fp => ⟨0, [], some (path, fp), disk⟩
    else ⟨1, ascii "server: get: missing file operand", none, disk⟩
  else if msgType pkt = CMD_PUT then
    if (msgText pkt).length > 0 then
      match disk.fopenWrite path with
      | none => ⟨1, ascii "server: put: Cannot create the file", none, disk⟩
      | some (fp, disk) => ⟨0, [], some (path, fp), disk⟩
    else ⟨1, ascii "server: get: Missing file operand", none, disk⟩
  else ⟨0, msgText pkt, none, disk⟩

def handleRequest (users : Users) (disk : Disk) (pkt : Bytes) : Verdict :=
  if checkUser users (msgUsername pkt) (msgPassword pkt) ≤ 0 then
    ⟨1, ascii "Invalid Username/Password. Please try again.", none, disk⟩
  else
    let (code, disk) := createDir disk (msgUsername pkt)
    if code < 0 then
      ⟨1, ascii "Fail to create user's dir. Please try again.", none, disk⟩
    else runCommand disk pkt

def replyPacket (pkt : Bytes) (verdict : Verdict) : Bytes :=
  buildMsgPacket (msgType pkt) verdict.errno (some verdict.msg) none

/-- What `send` and `send_file` put on the wire for one request. `accepts 0` is the
outcome of the reply, the later ones are those of the file's packets. -/
def answer (accepts : Nat → Bool) (pkt : Bytes) (verdict : Verdict) : List Bytes :=
  if accepts 0 then
    match verdict.fp with
    | none => [replyPacket pkt verdict]
    | some (_, fp) =>
        if msgType pkt = CMD_GET then
          replyPacket pkt verdict :: (sendFile (fun k => accepts (k + 1)) fp 0 (-1) none).sent
        else [replyPacket pkt verdict]
  else []

/-- The stream that `receive_file` is called with, if it is called. -/
def upload (accepts : Nat → Bool) (pkt : Bytes) (verdict : Verdict) : Option (Bytes × FILE) :=
  if accepts 0 = true ∧ msgType pkt = CMD_PUT then verdict.fp else none

/-! The nested loops of the source. -/

/-- A connection between two rounds of the command loop; `served` counts the
requests. -/
structure Session where
  disk : Disk
  served : Nat
  sent : List Bytes
  inbox : Inbox

variable (users : Users) (accepts : Nat → Nat → Bool)

/-- One round of the command loop. `accepts` has a row of `send` outcomes for every
request. A round that ends in a failed or a waiting `recv` leaves no packet. -/
def commandBody (session : Session) : Session ⊕ Session :=
  match session.inbox.packets with
  | [] => .inr session
  | bytes :: rest =>
      let buffer := recvInto (zeros PACKET_SIZE) bytes
      let verdict := handleRequest users session.disk buffer
      let sent := session.sent ++ answer (accepts session.served) buffer verdict
      match upload (accepts session.served) buffer verdict with
      | none => .inl ⟨verdict.disk, session.served + 1, sent, ⟨rest, session.inbox.ending⟩⟩
      | some (path, fp) =>
          let received := receiveFile fp ⟨rest, session.inbox.ending⟩ none
          let disk := if received.code = none then verdict.disk.leave path received.fp
            else verdict.disk.close path received.fp
          .inl ⟨disk, session.served + 1, sent, received.inbox⟩

theorem receiveLoop_shrinks (key : Option Bytes) (ending : Option Fault) (receiver : Receiver)
    (packets : List Bytes) :
    (receiveLoop key ending receiver packets).inbox.packets.length ≤ packets.length := by
  induction packets generalizing receiver with
  | nil => exact Nat.le_refl 0
  | cons bytes rest ih =>
      rw [receiveLoop]
      by_cases ended : dataLayout.eof (recvInto (zeros PACKET_SIZE) bytes) = 1
      · simp only [ended, ↓reduceIte, List.length_cons]
        omega
      · simp only [ended, ↓reduceIte, List.length_cons]
        exact Nat.le_succ_of_le (ih _)

theorem commandBody_decreases (session next : Session)
    (continued : commandBody users accepts session = .inl next) :
    next.inbox.packets.length < session.inbox.packets.length := by
  simp only [commandBody] at continued
  cases packets : session.inbox.packets with
  | nil =>
      rw [packets] at continued
      cases continued
  | cons bytes rest =>
      simp only [packets] at continued
      cases opened : upload (accepts session.served) (recvInto (zeros PACKET_SIZE) bytes)
          (handleRequest users session.disk (recvInto (zeros PACKET_SIZE) bytes)) with
      | none =>
          rw [opened] at continued
          rw [← Sum.inl.inj continued]
          exact Nat.lt_succ_self _
      | some stream =>
          rw [opened] at continued
          rw [← Sum.inl.inj continued]
          have shorter := receiveLoop_shrinks none session.inbox.ending
            (Receiver.start stream.2) rest
          exact Nat.lt_succ_of_le shorter

/-- `connection_handler` on all that its socket will deliver. -/
def connectionHandler (session : Session) : Session :=
  Loop.run (commandBody users accepts) (fun session => session.inbox.packets.length)
    (commandBody_decreases users accepts) session

/-! The same server, one `recv` result at a time. -/

/-- Where the handler waits in `recv`. -/
inductive Mode where
  | idle
  | receiving (path : Bytes) (receiver : Receiver)

structure Server where
  disk : Disk
  mode : Mode
  served : Nat

def serverStep (server : Server) (bytes : Bytes) : Server × List Bytes :=
  let buffer := recvInto (zeros PACKET_SIZE) bytes
  match server.mode with
  | .idle =>
      let verdict := handleRequest users server.disk buffer
      let sent := answer (accepts server.served) buffer verdict
      match upload (accepts server.served) buffer verdict with
      | none => (⟨verdict.disk, .idle, server.served + 1⟩, sent)
      | some (path, fp) =>
          (⟨verdict.disk.leave path fp, .receiving path (Receiver.start fp), server.served + 1⟩,
            sent)
  | .receiving path receiver =>
      if dataLayout.eof buffer = 1 then
        (⟨server.disk.close path receiver.fp, .idle, server.served⟩, [])
      else
        let receiver := receiver.storePacket dataLayout none buffer
        (⟨server.disk.leave path receiver.fp, .receiving path receiver, server.served⟩, [])

def serverRun (server : Server) : List Bytes → Server × List Bytes
  | [] => (server, [])
  | bytes :: rest =>
      let (server, sent) := serverStep users accepts server bytes
      let (last, later) := serverRun server rest
      (last, sent ++ later)

/-- The end of the connection; a started upload is closed as it is. -/
def serverEnd (ending : Option Fault) (server : Server) : Disk :=
  match ending, server.mode with
  | some _, .receiving path receiver => server.disk.close path receiver.fp
  | _, _ => server.disk

/-- An upload runs through `receive_file`: it either meets the packet that ends it,
or takes all that comes. -/
theorem serverRun_receiving (ending : Option Fault) (disk : Disk) (path : Bytes)
    (receiver : Receiver) (served : Nat) (packets : List Bytes) :
    let result := receiveLoop none ending receiver packets
    let server : Server := ⟨disk.leave path receiver.fp, .receiving path receiver, served⟩
    (result.code = some 0 ∧ result.inbox.ending = ending ∧
      serverRun users accepts server packets =
        serverRun users accepts ⟨disk.close path result.fp, .idle, served⟩ result.inbox.packets) ∨
    (result.code = ending.map (fun _ => -1) ∧ result.inbox = ⟨[], ending⟩ ∧
      ∃ last : Receiver, last.fp = result.fp ∧ serverRun users accepts server packets =
        (⟨disk.leave path result.fp, .receiving path last, served⟩, [])) := by
  induction packets generalizing receiver with
  | nil => exact Or.inr ⟨rfl, rfl, receiver, rfl, rfl⟩
  | cons bytes rest ih =>
      simp only [receiveLoop, serverRun, serverStep]
      by_cases ended : dataLayout.eof (recvInto (zeros PACKET_SIZE) bytes) = 1
      · simp only [ended, ↓reduceIte, Disk.close_leave, List.nil_append]
        exact Or.inl ⟨trivial, trivial, trivial⟩
      · simp only [ended, ↓reduceIte, Disk.leave_leave, List.nil_append]
        exact ih _

/-- The handler with its nested loops is the machine, run on every `recv` result and
closed at the end. -/
theorem connectionHandler_eq (session : Session) :
    let run := serverRun users accepts ⟨session.disk, .idle, session.served⟩
      session.inbox.packets
    connectionHandler users accepts session =
      ⟨serverEnd session.inbox.ending run.1, run.1.served, session.sent ++ run.2,
        ⟨[], session.inbox.ending⟩⟩ := by
  -- Induction over the rounds of the command loop, from the last one to the first.
  apply Loop.run_induction (commandBody users accepts)
    (fun session => session.inbox.packets.length) (commandBody_decreases users accepts)
    (motive := fun session result =>
      let run := serverRun users accepts ⟨session.disk, .idle, session.served⟩
        session.inbox.packets
      result = ⟨serverEnd session.inbox.ending run.1, run.1.served, session.sent ++ run.2,
        ⟨[], session.inbox.ending⟩⟩)
  · intro session result returned
    rcases session with ⟨disk, served, sent, ⟨packets, ending⟩⟩
    cases packets with
    | nil =>
        rw [← Sum.inr.inj returned]
        cases ending <;> simp only [serverRun, serverEnd, List.append_nil]
    | cons bytes rest =>
        simp only [commandBody] at returned
        split at returned <;> cases returned
  · intro session next result continued ih
    rcases session with ⟨disk, served, sent, ⟨packets, ending⟩⟩
    cases packets with
    | nil => cases continued
    | cons bytes rest =>
        simp only [commandBody] at continued
        simp only [serverRun, serverStep]
        generalize recvInto (zeros PACKET_SIZE) bytes = buffer at continued ⊢
        generalize handleRequest users disk buffer = verdict at continued ⊢
        generalize answer (accepts served) buffer verdict = replies at continued ⊢
        cases opened : upload (accepts served) buffer verdict with
        | none =>
            rw [opened] at continued
            rw [← Sum.inl.inj continued] at ih
            simp only at ih ⊢
            rw [ih, List.append_assoc]
        | some stream =>
            rw [opened] at continued
            rw [← Sum.inl.inj continued] at ih
            simp only [receiveFile] at ih ⊢
            -- `receive_file` meets its last packet, or the connection ends in it.
            rcases serverRun_receiving users accepts ending verdict.disk stream.1
                (Receiver.start stream.2) (served + 1) rest with
              ⟨code, same, run⟩ | ⟨code, inbox, last, fp, run⟩
            · simp only [Receiver.start] at code same run ih ⊢
              rw [run]
              simp only [code, reduceCtorEq, ↓reduceIte] at ih
              rw [ih, same, List.append_assoc]
            · simp only [Receiver.start] at code inbox fp run ih ⊢
              rw [run]
              simp only [inbox, serverRun, List.append_nil] at ih ⊢
              rw [ih]
              cases ending with
              | none => simp only [code, Option.map_none, ↓reduceIte, serverEnd]
              | some fault =>
                  simp only [code, Option.map_some, reduceCtorEq, ↓reduceIte, serverEnd,
                    Disk.close_leave, fp]

def sampleDisk : Disk where
  files _ := none
  dirs _ := false
  allowed _ := true
  mkdirAllowed _ := true
  readdir _ _ := none
  flushed fp := fp.content

/-- The user is in the table, and the user's directory is there or can be made. -/
structure Admits (disk : Disk) (conf : Credentials) : Prop where
  known : checkUser users conf.username conf.password = 1
  home : 0 ≤ (createDir disk conf.username).1

@[simp] theorem createDir_files (disk : Disk) (dir : Bytes) :
    (createDir disk dir).2.files = disk.files := by
  simp only [createDir]
  split_ifs <;> rfl

/-- New directories stand only where `made` says. -/
structure Makes (made : Bytes → Prop) (before after : Disk) : Prop where
  allowed : after.allowed = before.allowed
  dirs : ∀ path, ¬ made path → after.dirs path = before.dirs path

namespace Makes

variable {made other : Bytes → Prop} {before middle after : Disk}

theorem refl (made : Bytes → Prop) (disk : Disk) : Makes made disk disk :=
  ⟨rfl, fun _ _ => rfl⟩

theorem trans (early : Makes made before middle) (late : Makes made middle after) :
    Makes made before after :=
  ⟨late.allowed.trans early.allowed,
    fun path unmade => (late.dirs path unmade).trans (early.dirs path unmade)⟩

theorem mono (makes : Makes made before after) (within : ∀ path, made path → other path) :
    Makes other before after :=
  ⟨makes.allowed, fun path unmade => makes.dirs path (mt (within path) unmade)⟩

theorem save (makes : Makes made before after) (path content : Bytes) :
    Makes made before (after.save path content) :=
  ⟨makes.allowed, makes.dirs⟩

theorem creatable (makes : Makes made before after) {path : Bytes} (unmade : ¬ made path) :
    after.creatable path = before.creatable path := by
  rw [Disk.creatable, Disk.creatable, makes.allowed, makes.dirs path unmade]

end Makes

theorem createDir_makes (disk : Disk) (dir : Bytes) :
    Makes (· = dir) disk (createDir disk dir).2 := by
  simp only [createDir]
  split_ifs
  · exact Makes.refl _ _
  · exact Makes.refl _ _
  · constructor
    · rfl
    · intro path other
      exact Function.update_of_ne other _ _
  · exact Makes.refl _ _

theorem createDir_dirs (disk : Disk) (dir : Bytes) (made : 0 ≤ (createDir disk dir).1) :
    (createDir disk dir).2.dirs dir = true := by
  simp only [createDir] at made ⊢
  split_ifs at made ⊢ with present taken allowed
  · exact present
  · omega
  · exact Function.update_self _ _ _
  · omega

theorem admits_of_dirs {disk : Disk} {conf : Credentials}
    (known : checkUser users conf.username conf.password = 1)
    (present : disk.dirs conf.username = true) : Admits users disk conf := by
  refine ⟨known, ?_⟩
  simp only [createDir, present, ↓reduceIte]
  exact Int.le_refl 0

section admitted

variable {users} {disk : Disk} {conf : Credentials} {pkt : Bytes} {type : UInt8} (served : Nat)
  (admits : Admits users disk conf)

include admits in
theorem handleRequest_admitted (carries : Carries conf type pkt) :
    handleRequest users disk pkt = runCommand (createDir disk conf.username).2 pkt := by
  have home := admits.home
  have stranger : ¬ ((1 : Int) ≤ 0) := by omega
  have failed : ¬ (createDir disk conf.username).1 < 0 := by omega
  simp only [handleRequest, carries.username, carries.password, admits.known, stranger, failed,
    ↓reduceIte]

include admits in
theorem admits_home : Admits users (createDir disk conf.username).2 conf :=
  admits_of_dirs users admits.known (createDir_dirs _ _ admits.home)

include admits in
theorem admits_save (path content : Bytes) :
    Admits users ((createDir disk conf.username).2.save path content) conf :=
  admits_of_dirs users admits.known (createDir_dirs _ _ admits.home)

variable (carries : Carries conf type pkt) (named : msgText pkt ≠ [])

include admits carries named in
theorem serverStep_get_missing (isGet : type = CMD_GET)
    (missing : disk.files (setPath conf.username (msgText pkt)) = none) :
    ∃ reply, reply.length = PACKET_SIZE ∧ msgErrno reply = 1 ∧
      serverStep users (fun _ _ => true) ⟨disk, .idle, served⟩ pkt =
        (⟨(createDir disk conf.username).2, .idle, served + 1⟩, [reply]) := by
  subst isGet
  have verdict : handleRequest users disk pkt =
      ⟨1, ascii "server: get: cannot open the file", none, (createDir disk conf.username).2⟩ := by
    have positive : (msgText pkt).length > 0 := List.length_pos_iff.mpr named
    rw [handleRequest_admitted admits carries]
    simp only [runCommand, carries.kind, carries.username, CMD_GET, CMD_MKDIR, CMD_LS,
      positive, Disk.fopenRead, createDir_files, missing, Option.map_none]
    simp
  refine ⟨replyPacket pkt (handleRequest users disk pkt), length_buildMsgPacket _ _ _ _, ?_, ?_⟩
  · rw [verdict]
    exact msgErrno_build _ _ _ _
  · simp only [serverStep, recvInto_whole pkt carries.size, answer, upload, verdict, ↓reduceIte,
      ite_self]

include admits carries named in
theorem serverStep_get_found (isGet : type = CMD_GET) (content : Bytes)
    (found : disk.files (setPath conf.username (msgText pkt)) = some content) :
    ∃ reply, reply.length = PACKET_SIZE ∧ msgErrno reply = 0 ∧
      serverStep users (fun _ _ => true) ⟨disk, .idle, served⟩ pkt =
        (⟨(createDir disk conf.username).2, .idle, served + 1⟩,
          reply :: (sendFile (fun _ => true) (FILE.opened content) 0 (-1) none).sent) := by
  subst isGet
  have verdict : handleRequest users disk pkt =
      ⟨0, [], some (setPath conf.username (msgText pkt), FILE.opened content),
        (createDir disk conf.username).2⟩ := by
    have positive : (msgText pkt).length > 0 := List.length_pos_iff.mpr named
    rw [handleRequest_admitted admits carries]
    simp only [runCommand, carries.kind, carries.username, CMD_GET, CMD_MKDIR, CMD_LS,
      positive, Disk.fopenRead, createDir_files, found, Option.map_some]
    simp
  have download : ¬ (CMD_GET = CMD_PUT) := by decide
  refine ⟨replyPacket pkt (handleRequest users disk pkt), length_buildMsgPacket _ _ _ _, ?_, ?_⟩
  · rw [verdict]
    exact msgErrno_build _ _ _ _
  · simp only [serverStep, recvInto_whole pkt carries.size, answer, upload, verdict, carries.kind,
      download, and_false, ↓reduceIte]

include admits carries named in
/-- A PUT of a file that can be created is answered without error, and the server
waits for the file. -/
theorem serverStep_put (isPut : type = CMD_PUT)
    (creatable : disk.creatable (setPath conf.username (msgText pkt)) = true) :
    ∃ reply, reply.length = PACKET_SIZE ∧ msgErrno reply = 0 ∧
      serverStep users (fun _ _ => true) ⟨disk, .idle, served⟩ pkt =
        (⟨(createDir disk conf.username).2.leave (setPath conf.username (msgText pkt))
            (FILE.opened []),
          .receiving (setPath conf.username (msgText pkt)) (Receiver.start (FILE.opened [])),
          served + 1⟩, [reply]) := by
  subst isPut
  let path := setPath conf.username (msgText pkt)
  have verdict : handleRequest users disk pkt =
      ⟨0, [], some (path, FILE.opened []), (createDir disk conf.username).2.save path []⟩ := by
    have positive : (msgText pkt).length > 0 := List.length_pos_iff.mpr named
    have still : (createDir disk conf.username).2.creatable
        (setPath conf.username (msgText pkt)) = true :=
      ((createDir_makes disk conf.username).creatable (setPath_ne _ _)).trans creatable
    rw [handleRequest_admitted admits carries]
    simp only [runCommand, carries.kind, carries.username, CMD_GET, CMD_PUT, CMD_MKDIR, CMD_LS,
      positive, Disk.fopenWrite, still, ↓reduceIte]
    simp [path]
  have toServer : ¬ (CMD_PUT = CMD_GET) := by decide
  refine ⟨replyPacket pkt (handleRequest users disk pkt), length_buildMsgPacket _ _ _ _, ?_, ?_⟩
  · rw [verdict]
    exact msgErrno_build _ _ _ _
  · simp only [serverStep, recvInto_whole pkt carries.size, answer, upload, verdict, carries.kind,
      toServer, and_self, ↓reduceIte]
    rw [show ((createDir disk conf.username).2.save path []).leave path (FILE.opened []) =
      (createDir disk conf.username).2.leave path (FILE.opened []) from Disk.save_save _ _ _ _]

end admitted

end NetworkSystem.Dfc
