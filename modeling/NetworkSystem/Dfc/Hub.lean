import NetworkSystem.Dfc.Confinement
import NetworkSystem.Lib.Unwinding

/-! The server with all its connections. `main` starts a thread for each of them, and the
threads share the directory; a step is what one of them does with a result of `recv`, up to
its next `recv`. -/

namespace NetworkSystem.Dfc

open Bytes NetworkSystem.Path

/-- The thread of a connection: where it waits, and how many requests it has answered. -/
structure Link where
  mode : Mode
  served : Nat

structure Hub where
  disk : Disk
  links : Nat → Option Link

/-- A result of `recv` on a connection. -/
structure Arrival where
  conn : Nat
  result : Except Fault Bytes

def Hub.fresh (disk : Disk) : Hub := ⟨disk, fun _ => some ⟨.idle, 0⟩⟩

def Link.server (link : Link) (disk : Disk) : Server := ⟨disk, link.mode, link.served⟩

def Server.link (server : Server) : Link := ⟨server.mode, server.served⟩

def Hub.command (hub : Hub) (arrival : Arrival) : Option Bytes :=
  match hub.links arrival.conn, arrival.result with
  | some ⟨.idle, _⟩, .ok bytes => some (recvInto (zeros PACKET_SIZE) bytes)
  | _, _ => none

section step

variable (users : Users) (accepts : Nat → Nat → Nat → Bool)

/-- A connection that has ended is not heard of again. -/
def Hub.step (hub : Hub) (arrival : Arrival) : Hub :=
  match hub.links arrival.conn with
  | none => hub
  | some link =>
      match arrival.result with
      | .ok bytes =>
          let server := (serverStep users (accepts arrival.conn) (link.server hub.disk) bytes).1
          ⟨server.disk, Function.update hub.links arrival.conn (some server.link)⟩
      | .error fault =>
          ⟨serverEnd (some fault) (link.server hub.disk),
            Function.update hub.links arrival.conn none⟩

def Hub.sent (hub : Hub) (arrival : Arrival) : List (Nat × Bytes) :=
  match hub.links arrival.conn, arrival.result with
  | some link, .ok bytes =>
      (serverStep users (accepts arrival.conn) (link.server hub.disk) bytes).2.map
        (fun pkt => (arrival.conn, pkt))
  | _, _ => []

end step

/-- What the system decides is the same on both. -/
structure SameSystem (disk other : Disk) : Prop where
  allowed : other.allowed = disk.allowed
  mkdirAllowed : other.mkdirAllowed = disk.mkdirAllowed
  readdir : other.readdir = disk.readdir
  flushed : other.flushed = disk.flushed

theorem SameSystem.refl (disk : Disk) : SameSystem disk disk := ⟨rfl, rfl, rfl, rfl⟩

theorem SameSystem.trans {first second third : Disk} (front : SameSystem first second)
    (back : SameSystem second third) : SameSystem first third where
  allowed := back.allowed.trans front.allowed
  mkdirAllowed := back.mkdirAllowed.trans front.mkdirAllowed
  readdir := back.readdir.trans front.readdir
  flushed := back.flushed.trans front.flushed

theorem SameSystem.symm {disk other : Disk} (same : SameSystem disk other) :
    SameSystem other disk where
  allowed := same.allowed.symm
  mkdirAllowed := same.mkdirAllowed.symm
  readdir := same.readdir.symm
  flushed := same.flushed.symm

/-- A path in the directory of a user. -/
def AtHome (user path : Bytes) : Prop := Inside (resolve user) (resolve path)

instance (user path : Bytes) : Decidable (AtHome user path) := inferInstanceAs (Decidable (Inside _ _))

/-- Both disks are the same in the directory of a user. -/
structure SameHome (user : Bytes) (disk other : Disk) : Prop where
  system : SameSystem disk other
  at_ : ∀ path, AtHome user path → SameAt path disk other

theorem SameHome.refl (user : Bytes) (disk : Disk) : SameHome user disk disk :=
  ⟨SameSystem.refl disk, fun path _ => SameAt.refl path disk⟩

/-- What `readdir` reports of a directory of the user depends on the files in it. -/
def ListsHome (user : Bytes)
    (readdir : (Bytes → Option Bytes) → Bytes → Option (List Dirent)) : Prop :=
  ∀ files others dirName, AtHome user dirName →
    (∀ path, AtHome user path → others path = files path) →
    readdir others dirName = readdir files dirName

theorem save_system (disk : Disk) (path content : Bytes) :
    SameSystem disk (disk.save path content) := ⟨rfl, rfl, rfl, rfl⟩

theorem createDir_system (disk : Disk) (dir : Bytes) : SameSystem disk (createDir disk dir).2 := by
  simp only [createDir]
  split_ifs <;> exact ⟨rfl, rfl, rfl, rfl⟩

theorem runCommand_system (disk : Disk) (pkt : Bytes) :
    SameSystem disk (runCommand disk pkt).disk := by
  rcases runCommand_cases disk pkt with ⟨same, _⟩ | ⟨_, same, _⟩ | ⟨_, same, _⟩ | ⟨_, same, _⟩
  · rw [same]
    exact SameSystem.refl disk
  · rw [same]
    exact createDir_system disk _
  · rw [same]
    exact SameSystem.refl disk
  · rw [same]
    exact save_system disk _ _

theorem handleRequest_system (users : Users) (disk : Disk) (pkt : Bytes) :
    SameSystem disk (handleRequest users disk pkt).disk := by
  have home := createDir_system disk (msgUsername pkt)
  simp only [handleRequest]
  split_ifs
  · exact SameSystem.refl disk
  · exact home
  · exact home.trans (runCommand_system _ pkt)

theorem serverStep_system (users : Users) (accepts : Nat → Nat → Bool) (server : Server)
    (bytes : Bytes) : SameSystem server.disk (serverStep users accepts server bytes).1.disk := by
  rcases server with ⟨disk, mode, served⟩
  cases mode with
  | idle =>
      have request := handleRequest_system users disk (recvInto (zeros PACKET_SIZE) bytes)
      simp only [serverStep]
      split
      · exact request
      · exact request.trans (save_system _ _ _)
  | receiving path receiver =>
      simp only [serverStep]
      split_ifs <;> exact save_system disk _ _

theorem serverEnd_system (ending : Option Fault) (server : Server) :
    SameSystem server.disk (serverEnd ending server) := by
  rcases server with ⟨disk, mode, served⟩
  cases ending with
  | none => exact SameSystem.refl disk
  | some fault =>
      cases mode with
      | idle => exact SameSystem.refl disk
      | receiving path receiver => exact save_system disk _ _

/-! A thread that works for the user does the same on both disks. -/

section home

variable {user : Bytes} {disk other : Disk}

theorem SameHome.save (same : SameHome user disk other) (path content : Bytes) :
    SameHome user (disk.save path content) (other.save path content) := by
  constructor
  · exact ((save_system disk path content).symm.trans same.system).trans
      (save_system other path content)
  · intro at_ inside
    rcases same.at_ at_ inside with ⟨files, dirs⟩
    constructor
    · by_cases here : at_ = path
      · rw [here, Disk.save_files_self, Disk.save_files_self]
      · rw [Disk.save_files_of_ne _ _ _ _ here, Disk.save_files_of_ne _ _ _ _ here, files]
    · exact dirs

theorem SameHome.leave (same : SameHome user disk other) (path : Bytes) (fp : FILE) :
    SameHome user (disk.leave path fp) (other.leave path fp) := by
  rw [Disk.leave, Disk.leave, same.system.flushed]
  exact same.save path _

theorem SameHome.createDir (same : SameHome user disk other) {dir : Bytes}
    (inside : AtHome user dir) :
    (createDir other dir).1 = (createDir disk dir).1 ∧
      SameHome user (createDir disk dir).2 (createDir other dir).2 := by
  have here := same.at_ dir inside
  have system : SameSystem (Dfc.createDir disk dir).2 (Dfc.createDir other dir).2 :=
    ((createDir_system disk dir).symm.trans same.system).trans (createDir_system other dir)
  simp only [Dfc.createDir, here.1, here.2, same.system.mkdirAllowed] at system ⊢
  split_ifs at system ⊢
  · exact ⟨rfl, same⟩
  · exact ⟨rfl, same⟩
  · apply And.intro rfl
    apply SameHome.mk system
    intro path home
    rcases same.at_ path home with ⟨files, dirs⟩
    constructor
    · exact files
    · simp only [Function.update_apply, dirs]
  · exact ⟨rfl, same⟩

theorem SameHome.creatable (same : SameHome user disk other) {path : Bytes}
    (inside : AtHome user path) : other.creatable path = disk.creatable path := by
  rw [Disk.creatable, Disk.creatable, same.system.allowed, (same.at_ path inside).2]

theorem SameHome.listDir (same : SameHome user disk other) (lists : ListsHome user disk.readdir)
    {dirName : Bytes} (inside : AtHome user dirName) (delimiter : UInt8) :
    listDir other dirName delimiter = listDir disk dirName delimiter := by
  have files : ∀ path, AtHome user path → other.files path = disk.files path := by
    intro path home
    exact (same.at_ path home).1
  simp only [Dfc.listDir, same.system.readdir, lists disk.files other.files dirName inside files]

/-- Two verdicts with one reply and one stream, on disks that are the same for the user. -/
structure Verdict.Matches (user : Bytes) (verdict other : Verdict) : Prop where
  errno : other.errno = verdict.errno
  msg : other.msg = verdict.msg
  fp : other.fp = verdict.fp
  disk : SameHome user verdict.disk other.disk

theorem SameHome.matches_ (same : SameHome user disk other) (errno : UInt8) (msg : Bytes)
    (fp : Option (Bytes × FILE)) :
    Verdict.Matches user ⟨errno, msg, fp, disk⟩ ⟨errno, msg, fp, other⟩ := ⟨rfl, rfl, rfl, same⟩

theorem SameHome.runCommand (same : SameHome user disk other) (lists : ListsHome user disk.readdir)
    (pkt : Bytes) (inside : AtHome user (setPath (msgUsername pkt) (msgText pkt))) :
    Verdict.Matches user (runCommand disk pkt) (runCommand other pkt) := by
  have here := same.at_ _ inside
  have made := same.createDir inside
  have may := same.creatable inside
  simp only [Dfc.runCommand, made.1, same.listDir lists inside, Disk.fopenRead, Disk.fopenWrite,
    here.1, may]
  by_cases mkdir : msgType pkt = CMD_MKDIR
  · simp only [if_pos mkdir]
    split_ifs
    · exact made.2.matches_ _ _ _
    · exact made.2.matches_ _ _ _
  · simp only [if_neg mkdir]
    split_ifs
    · exact same.matches_ _ _ _
    · cases disk.files (setPath (msgUsername pkt) (msgText pkt)) with
      | none => exact same.matches_ _ _ _
      | some content => exact same.matches_ _ _ _
    · exact same.matches_ _ _ _
    · exact (same.save _ _).matches_ _ _ _
    · exact same.matches_ _ _ _
    · exact same.matches_ _ _ _
    · exact same.matches_ _ _ _

/-- A request that the server lets in is the user's own and stays in the user's directory. -/
def OwnRequest (users : Users) (user pkt : Bytes) : Prop :=
  0 < checkUser users (msgUsername pkt) (msgPassword pkt) →
    msgUsername pkt = user ∧ Confined user (msgText pkt)

theorem SameHome.handleRequest (same : SameHome user disk other)
    (lists : ListsHome user disk.readdir) (plain : PlainName user) {users : Users} {pkt : Bytes}
    (own : OwnRequest users user pkt) :
    Verdict.Matches user (handleRequest users disk pkt) (handleRequest users other pkt) := by
  by_cases stranger : checkUser users (msgUsername pkt) (msgPassword pkt) ≤ 0
  · simp only [Dfc.handleRequest, stranger, ↓reduceIte]
    exact same.matches_ _ _ _
  · rcases own (by omega) with ⟨name, confined⟩
    have home : AtHome user (msgUsername pkt) := by
      rw [name]
      exact inside_self _
    have inside : AtHome user (setPath (msgUsername pkt) (msgText pkt)) := by
      rw [name]
      exact (inside_user user _ plain).mpr confined
    rcases same.createDir home with ⟨code, made⟩
    have lists' : ListsHome user (Dfc.createDir disk (msgUsername pkt)).2.readdir := by
      rw [(createDir_system disk (msgUsername pkt)).readdir]
      exact lists
    simp only [Dfc.handleRequest, stranger, ↓reduceIte, code]
    split_ifs
    · exact made.matches_ _ _ _
    · exact made.runCommand lists' pkt inside

end home

end NetworkSystem.Dfc
