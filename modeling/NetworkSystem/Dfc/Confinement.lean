import NetworkSystem.Dfc.Server
import NetworkSystem.Paths

/-! Which paths the server passes to the system for a request, and when they lie in the
directory of the user who asks. -/

namespace NetworkSystem.Dfc

open Bytes NetworkSystem.Path

/-- A system call that takes a path. -/
inductive Access where
  | createDir (dir : Bytes)
  | listDir (dirName : Bytes)
  | openRead (path : Bytes)
  | openWrite (path : Bytes)
  deriving DecidableEq

def Access.path : Access → Bytes
  | .createDir dir => dir
  | .listDir dirName => dirName
  | .openRead path => path
  | .openWrite path => path

/-- The calls of `runCommand`. -/
def commandAccesses (pkt : Bytes) : List Access :=
  let path := setPath (msgUsername pkt) (msgText pkt)
  if msgType pkt = CMD_MKDIR then [.createDir path]
  else if msgType pkt = CMD_LS then [.listDir path]
  else if msgType pkt = CMD_GET then
    if (msgText pkt).length > 0 then [.openRead path] else []
  else if msgType pkt = CMD_PUT then
    if (msgText pkt).length > 0 then [.openWrite path] else []
  else []

/-- The calls of `handleRequest`. -/
def accesses (users : Users) (disk : Disk) (pkt : Bytes) : List Access :=
  if checkUser users (msgUsername pkt) (msgPassword pkt) ≤ 0 then []
  else
    .createDir (msgUsername pkt) ::
      (if (createDir disk (msgUsername pkt)).1 < 0 then [] else commandAccesses pkt)

section run

variable (users : Users) (accepts : Nat → Nat → Bool)

/-- The calls of a step of the server, each with the packet it is made for. -/
def stepAccesses (server : Server) (bytes : Bytes) : List (Bytes × Access) :=
  match server.mode with
  | .idle =>
      let buffer := recvInto (zeros PACKET_SIZE) bytes
      (accesses users server.disk buffer).map (fun access => (buffer, access))
  | .receiving _ _ => []

def runAccesses (server : Server) : List Bytes → List (Bytes × Access)
  | [] => []
  | bytes :: rest =>
      stepAccesses users server bytes ++ runAccesses (serverStep users accepts server bytes).1 rest

end run

/-- Both disks hold the same at a path. -/
def SameAt (path : Bytes) (disk other : Disk) : Prop :=
  other.files path = disk.files path ∧ other.dirs path = disk.dirs path

theorem SameAt.refl (path : Bytes) (disk : Disk) : SameAt path disk disk := ⟨rfl, rfl⟩

theorem SameAt.trans {path : Bytes} {first second third : Disk} (front : SameAt path first second)
    (back : SameAt path second third) : SameAt path first third :=
  ⟨back.1.trans front.1, back.2.trans front.2⟩

theorem createDir_sameAt (disk : Disk) (dir path : Bytes) (other : dir ≠ path) :
    SameAt path disk (createDir disk dir).2 := by
  simp only [createDir]
  split_ifs
  · exact ⟨rfl, rfl⟩
  · exact ⟨rfl, rfl⟩
  · exact ⟨rfl, Function.update_of_ne other.symm _ _⟩
  · exact ⟨rfl, rfl⟩

theorem save_sameAt (disk : Disk) (written path content : Bytes) (other : written ≠ path) :
    SameAt path disk (disk.save written content) :=
  ⟨Disk.save_files_of_ne _ _ _ _ other.symm, rfl⟩

theorem runCommand_cases (disk : Disk) (pkt : Bytes) :
    let path := setPath (msgUsername pkt) (msgText pkt)
    let verdict := runCommand disk pkt
    (verdict.disk = disk ∧ verdict.fp = none) ∨
    (Access.createDir path ∈ commandAccesses pkt ∧ verdict.disk = (createDir disk path).2 ∧
      verdict.fp = none) ∨
    (Access.openRead path ∈ commandAccesses pkt ∧ verdict.disk = disk ∧
      ∃ fp, verdict.fp = some (path, fp)) ∨
    (Access.openWrite path ∈ commandAccesses pkt ∧ verdict.disk = disk.save path [] ∧
      ∃ fp, verdict.fp = some (path, fp)) := by
  simp only [commandAccesses, runCommand]
  by_cases mkdir : msgType pkt = CMD_MKDIR
  · simp only [if_pos mkdir]
    right
    left
    refine ⟨List.mem_singleton_self _, ?_⟩
    split_ifs <;> exact ⟨rfl, rfl⟩
  · simp only [if_neg mkdir]
    by_cases ls : msgType pkt = CMD_LS
    · simp only [if_pos ls]
      exact Or.inl ⟨trivial, trivial⟩
    · simp only [if_neg ls]
      by_cases get : msgType pkt = CMD_GET
      · simp only [if_pos get]
        split_ifs
        · cases disk.fopenRead (setPath (msgUsername pkt) (msgText pkt)) with
          | none => exact Or.inl ⟨rfl, rfl⟩
          | some fp => exact Or.inr (Or.inr (Or.inl ⟨List.mem_singleton_self _, rfl, fp, rfl⟩))
        · exact Or.inl ⟨rfl, rfl⟩
      · simp only [if_neg get]
        split_ifs
        · simp only [Disk.fopenWrite]
          split_ifs
          · exact Or.inr (Or.inr (Or.inr ⟨List.mem_singleton_self _, rfl, _, rfl⟩))
          · exact Or.inl ⟨rfl, rfl⟩
        · exact Or.inl ⟨rfl, rfl⟩
        · exact Or.inl ⟨rfl, rfl⟩

theorem runCommand_sameAt (disk : Disk) (pkt path : Bytes)
    (other : ∀ access ∈ commandAccesses pkt, access.path ≠ path) :
    SameAt path disk (runCommand disk pkt).disk ∧
      ∀ opened fp, (runCommand disk pkt).fp = some (opened, fp) → opened ≠ path := by
  rcases runCommand_cases disk pkt with ⟨same, closed⟩ | ⟨made, same, closed⟩ |
    ⟨read, same, fp, open_⟩ | ⟨written, same, fp, open_⟩
  · rw [same, closed]
    exact ⟨SameAt.refl path disk, nofun⟩
  · rw [same, closed]
    exact ⟨createDir_sameAt disk _ path (other _ made), nofun⟩
  · rw [same, open_]
    refine ⟨SameAt.refl path disk, fun opened _ found => ?_⟩
    rw [← (Prod.mk.inj (Option.some.inj found)).1]
    exact other _ read
  · rw [same, open_]
    refine ⟨save_sameAt disk _ path [] (other _ written), fun opened _ found => ?_⟩
    rw [← (Prod.mk.inj (Option.some.inj found)).1]
    exact other _ written

theorem handleRequest_sameAt (users : Users) (disk : Disk) (pkt path : Bytes)
    (other : ∀ access ∈ accesses users disk pkt, access.path ≠ path) :
    SameAt path disk (handleRequest users disk pkt).disk ∧
      ∀ opened fp, (handleRequest users disk pkt).fp = some (opened, fp) → opened ≠ path := by
  simp only [accesses] at other
  simp only [handleRequest]
  by_cases stranger : checkUser users (msgUsername pkt) (msgPassword pkt) ≤ 0
  · simp only [stranger, ↓reduceIte]
    exact ⟨SameAt.refl path disk, by simp⟩
  · simp only [stranger, ↓reduceIte, List.forall_mem_cons, Access.path] at other ⊢
    have home := createDir_sameAt disk _ path other.1
    by_cases failed : (createDir disk (msgUsername pkt)).1 < 0
    · simp only [failed, ↓reduceIte]
      exact ⟨home, by simp⟩
    · simp only [failed, ↓reduceIte] at other ⊢
      have command := runCommand_sameAt (createDir disk (msgUsername pkt)).2 pkt path other.2
      exact ⟨home.trans command.1, command.2⟩

/-- The path of a running upload is another one. -/
def Mode.Spares (path : Bytes) : Mode → Prop
  | .idle => True
  | .receiving written _ => written ≠ path

theorem serverStep_sameAt (users : Users) (accepts : Nat → Nat → Bool) (server : Server)
    (bytes path : Bytes) (spares : server.mode.Spares path)
    (other : ∀ entry ∈ stepAccesses users server bytes, entry.2.path ≠ path) :
    SameAt path server.disk (serverStep users accepts server bytes).1.disk ∧
      (serverStep users accepts server bytes).1.mode.Spares path := by
  rcases server with ⟨disk, mode, served⟩
  cases mode with
  | idle =>
      simp only [stepAccesses, List.forall_mem_map] at other
      have request := handleRequest_sameAt users disk _ path other
      simp only [serverStep, upload]
      split
      · exact ⟨request.1, trivial⟩
      · rename_i opened fp found
        have kept : (handleRequest users disk (recvInto (zeros PACKET_SIZE) bytes)).fp =
            some (opened, fp) := by
          split at found
          · exact found
          · cases found
        have spared := request.2 opened fp kept
        exact ⟨request.1.trans (save_sameAt _ _ path _ spared), spared⟩
  | receiving written receiver =>
      simp only [serverStep]
      split_ifs
      · exact ⟨save_sameAt disk written path _ spares, trivial⟩
      · exact ⟨save_sameAt disk written path _ spares, spares⟩

theorem mem_of_checkUser (users : Users) (username password : Bytes)
    (known : ¬ checkUser users username password ≤ 0) : (username, password) ∈ users := by
  induction users with
  | nil => exact absurd (by simp [checkUser]) known
  | cons user rest ih =>
      simp only [checkUser] at known
      split_ifs at known with name secret
      · rw [name, secret]
        exact List.mem_cons_self
      · exact absurd (by decide) known
      · exact List.mem_cons_of_mem _ (ih known)

/-- A message that does not lead out of the directory of its user, or leads right back. -/
def Confined (username text : Bytes) : Prop :=
  (pathMove text).ups = 0 ∨
    ((pathMove text).ups = 1 ∧ username ≠ [] ∧ [username] <+: (pathMove text).names)

instance (username text : Bytes) : Decidable (Confined username text) :=
  inferInstanceAs (Decidable (_ ∨ _))

/-- A user name that is a name in a directory. -/
structure PlainName (username : Bytes) : Prop where
  slash : 47 ∉ username
  stay : username ≠ ascii "."
  up : username ≠ ascii ".."

instance (username : Bytes) : Decidable (PlainName username) :=
  decidable_of_iff (47 ∉ username ∧ username ≠ ascii "." ∧ username ≠ ascii "..")
    ⟨fun all => ⟨all.1, all.2.1, all.2.2⟩, fun plain => ⟨plain.slash, plain.stay, plain.up⟩⟩

theorem PlainName.move {username : Bytes} (plain : PlainName username) :
    pathMove username = ⟨0, if username = [] then [] else [username]⟩ := by
  have one : components username = [component username] := components_single username plain.slash
  rw [pathMove, one, component]
  by_cases empty : username = []
  · simp only [empty, true_or, ↓reduceIte]
    rfl
  · simp only [empty, plain.stay, plain.up, or_self, ↓reduceIte]
    rfl

theorem PlainName.not_absolute {username : Bytes} (plain : PlainName username) :
    ¬ Absolute username := by
  intro slash
  exact plain.slash (List.mem_of_head? slash)

theorem inside_user (username text : Bytes) (plain : PlainName username) :
    Inside (resolve username) (resolve (setPath username text)) ↔ Confined username text := by
  have path : pathMove (setPath username text) = (pathMove username).append (pathMove text) := by
    calc pathMove (setPath username text) =
        (pathMove (ascii ".")).append (pathMove (username ++ 47 :: text)) :=
          pathMove_slash (ascii ".") (username ++ 47 :: text)
      _ = pathMove (username ++ 47 :: text) := still_append _
      _ = (pathMove username).append (pathMove text) := pathMove_slash username text
  have relative : ¬ Absolute (setPath username text) := by
    intro slash
    exact absurd (Option.some.inj slash) (by decide)
  simp only [resolve, plain.not_absolute, relative, decide_false, path]
  rw [inside_append, plain.move, Confined]
  by_cases empty : username = []
  · simp [empty]
  · simp only [empty, ↓reduceIte, Bool.false_eq_true, false_or, List.length_singleton, ne_eq,
      not_false_eq_true, true_and]
    rcases Nat.lt_trichotomy (pathMove text).ups 1 with less | one | more
    · have none_ : (pathMove text).ups = 0 := by omega
      simp [none_]
    · simp [one]
    · exact iff_of_false (fun both => by omega) (fun either => by omega)

theorem path_of_mem_accesses (users : Users) (disk : Disk) (pkt : Bytes) (access : Access)
    (member : access ∈ accesses users disk pkt) :
    (msgUsername pkt, msgPassword pkt) ∈ users ∧
      (access = .createDir (msgUsername pkt) ∨
        access.path = setPath (msgUsername pkt) (msgText pkt)) := by
  simp only [accesses] at member
  split_ifs at member with stranger failed
  · cases member
  · exact ⟨mem_of_checkUser _ _ _ stranger, Or.inl (List.mem_singleton.mp member)⟩
  · refine ⟨mem_of_checkUser _ _ _ stranger, ?_⟩
    rcases List.mem_cons.mp member with home | command
    · exact Or.inl home
    · right
      simp only [commandAccesses] at command
      split_ifs at command
      · rw [List.mem_singleton.mp command]
        rfl
      · rw [List.mem_singleton.mp command]
        rfl
      · rw [List.mem_singleton.mp command]
        rfl
      · cases command
      · rw [List.mem_singleton.mp command]
        rfl
      · cases command
      · cases command

theorem mem_runAccesses (users : Users) (accepts : Nat → Nat → Bool) (server : Server)
    (packets : List Bytes) (entry : Bytes × Access)
    (member : entry ∈ runAccesses users accepts server packets) :
    ∃ disk, entry.2 ∈ accesses users disk entry.1 := by
  induction packets generalizing server with
  | nil => cases member
  | cons bytes rest ih =>
      rcases List.mem_append.mp member with here | later
      · simp only [stepAccesses] at here
        split at here
        · obtain ⟨access, inside, rfl⟩ := List.mem_map.mp here
          exact ⟨server.disk, inside⟩
        · cases here
      · exact ih _ later

/-- Every path that the server passes to the system is asked for with the name and the
password of a user, and lies in the directory of this user unless the message leads out
of it. -/
theorem per_user_confinement (users : Users) (accepts : Nat → Nat → Bool) (server : Server)
    (names : ∀ user ∈ users, PlainName user.1) (packets : List Bytes) (pkt : Bytes)
    (access : Access) (member : (pkt, access) ∈ runAccesses users accepts server packets) :
    (msgUsername pkt, msgPassword pkt) ∈ users ∧
      (access = .createDir (msgUsername pkt) ∨
        access.path = setPath (msgUsername pkt) (msgText pkt)) ∧
      (Inside (resolve (msgUsername pkt)) (resolve access.path) ↔
        access = .createDir (msgUsername pkt) ∨ Confined (msgUsername pkt) (msgText pkt)) := by
  rcases mem_runAccesses users accepts server packets (pkt, access) member with ⟨disk, called⟩
  rcases path_of_mem_accesses users disk pkt access called with ⟨known, path⟩
  have plain := names _ known
  refine ⟨known, path, ?_⟩
  rcases path with home | command
  · have here : Inside (resolve (msgUsername pkt)) (resolve access.path) := by
      rw [home]
      exact inside_self _
    exact ⟨fun _ => Or.inl home, fun _ => here⟩
  · rw [command, inside_user (msgUsername pkt) (msgText pkt) plain]
    constructor
    · intro confined
      exact Or.inr confined
    · intro either
      rcases either with home | confined
      · have same : msgUsername pkt = setPath (msgUsername pkt) (msgText pkt) := by
          rw [← command, home]
          rfl
        have size := congrArg List.length same
        simp only [setPath, List.length_cons, List.length_append] at size
        omega
      · exact confined

def sampleTable : Users := [([117], [112]), ([118], [113])]

def sampleGet (text : Bytes) : Bytes := buildMsgPacket CMD_GET 0 (some text) (some sampleUser)

theorem sampleTable_plain : ∀ user ∈ sampleTable, PlainName user.1 := by decide

theorem per_user_confinement_file :
    ∃ pkt access, (pkt, access) ∈ runAccesses sampleTable (fun _ _ => true)
        ⟨sampleDisk, .idle, 0⟩ [sampleGet (ascii "f")] ∧
      access = .openRead (ascii "./u/f") ∧ (msgUsername pkt, msgPassword pkt) ∈ sampleTable ∧
      Inside (resolve (msgUsername pkt)) (resolve access.path) := by
  have called : (sampleGet (ascii "f"), Access.openRead (ascii "./u/f")) ∈
      runAccesses sampleTable (fun _ _ => true) ⟨sampleDisk, .idle, 0⟩ [sampleGet (ascii "f")] := by
    decide +kernel
  have confined : Confined (msgUsername (sampleGet (ascii "f"))) (msgText (sampleGet (ascii "f"))) := by
    decide +kernel
  generalize sampleGet (ascii "f") = pkt at called confined ⊢
  rcases per_user_confinement sampleTable (fun _ _ => true) _ sampleTable_plain _ pkt _ called with
    ⟨known, -, inside⟩
  exact ⟨pkt, _, called, rfl, known, inside.mpr (Or.inr confined)⟩

/-- A user opens a file of another one. -/
theorem per_user_confinement_left :
    ∃ pkt access, (pkt, access) ∈ runAccesses sampleTable (fun _ _ => true)
        ⟨sampleDisk, .idle, 0⟩ [sampleGet (ascii "../v/f")] ∧
      access = .openRead (ascii "./u/../v/f") ∧
      ¬ ∃ user ∈ sampleTable, user = (msgUsername pkt, msgPassword pkt) ∧
        Inside (resolve user.1) (resolve access.path) := by
  refine ⟨sampleGet (ascii "../v/f"), .openRead (ascii "./u/../v/f"), ?_, rfl, ?_⟩
  · decide +kernel
  · decide +kernel

end NetworkSystem.Dfc
