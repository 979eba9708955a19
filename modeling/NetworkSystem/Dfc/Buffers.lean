import NetworkSystem.Dfc.Server

/-! The buffers of the command loop: every store that `connection_handler` makes by way
of `set_path`, `list_dir` and `build_msg_packet`, and the requests for which all of them
are in range. -/

namespace NetworkSystem.Dfc

open Bytes Store

/-- A store of `count` bytes from `at_` on into a buffer of `size` bytes. -/
structure Write where
  size : Nat
  at_ : Nat
  count : Nat
  deriving DecidableEq

def Write.InRange (write : Write) : Prop := write.at_ + write.count ≤ write.size

instance : DecidablePred Write.InRange := fun write =>
  inferInstanceAs (Decidable (write.at_ + write.count ≤ write.size))

def REPLY_SIZE : Nat := 1024

/-- The text and its final zero. -/
def setPathWrites (p1 p2 : Bytes) : List Write := [⟨PATH_SIZE, 0, (setPath p1 p2).length + 1⟩]

/-- A name, its delimiter and a zero for every entry, and the zero behind the loop. -/
def entryWrites : List Dirent → Nat → List Write
  | [], pos => [⟨REPLY_SIZE, pos, 1⟩]
  | entry :: rest, pos =>
      ⟨REPLY_SIZE, pos, entry.name.length + 2⟩ :: entryWrites rest (pos + entry.name.length + 1)

def listDirWrites (disk : Disk) (dirName : Bytes) : List Write :=
  match disk.readdir disk.files dirName with
  | none => entryWrites [] 0
  | some entries =>
      entryWrites (entries.filter (fun entry => entry.name ≠ ascii "." ∧ entry.name ≠ ascii ".." ∧
        entry.isDir = false)) 0

/-- The `memset`, the three fields and the text. There are no credentials in a reply. -/
def buildMsgPacketWrites (msg : Bytes) : List Write :=
  [⟨PACKET_SIZE, 0, PACKET_SIZE⟩, ⟨PACKET_SIZE, 1, 1⟩, ⟨PACKET_SIZE, 35, 1⟩, ⟨PACKET_SIZE, 34, 1⟩,
    ⟨PACKET_SIZE, 36, msg.length⟩]

/-- The commands that make a path. -/
def MakesPath (pkt : Bytes) : Prop :=
  msgType pkt = CMD_MKDIR ∨ msgType pkt = CMD_LS ∨
    ((msgType pkt = CMD_GET ∨ msgType pkt = CMD_PUT) ∧ (msgText pkt).length > 0)

/-- The stores of `runCommand`. -/
def commandWrites (disk : Disk) (pkt : Bytes) : List Write :=
  let path := setPathWrites (msgUsername pkt) (msgText pkt)
  if msgType pkt = CMD_MKDIR then path
  else if msgType pkt = CMD_LS then
    path ++ listDirWrites disk (setPath (msgUsername pkt) (msgText pkt))
  else if msgType pkt = CMD_GET then
    if (msgText pkt).length > 0 then path else []
  else if msgType pkt = CMD_PUT then
    if (msgText pkt).length > 0 then path else []
  else []

def requestWrites (users : Users) (disk : Disk) (pkt : Bytes) : List Write :=
  (if checkUser users (msgUsername pkt) (msgPassword pkt) ≤ 0 then []
  else if (createDir disk (msgUsername pkt)).1 < 0 then []
  else commandWrites (createDir disk (msgUsername pkt)).2 pkt) ++
    buildMsgPacketWrites (handleRequest users disk pkt).msg

theorem setPath_inRange (p1 p2 : Bytes) :
    (∀ write ∈ setPathWrites p1 p2, write.InRange) ↔ p1.length + p2.length ≤ 252 := by
  simp only [setPathWrites, List.forall_mem_singleton, Write.InRange, setPath, PATH_SIZE,
    List.length_cons, List.length_append]
  omega

theorem entries_inRange (entries : List Dirent) (pos : Nat) :
    (∀ write ∈ entryWrites entries pos, write.InRange) ↔
      pos + (entries.flatMap (fun entry => entry.name ++ [10])).length < REPLY_SIZE := by
  induction entries generalizing pos with
  | nil =>
      simp only [entryWrites, List.forall_mem_singleton, Write.InRange, List.flatMap_nil,
        List.length_nil]
      omega
  | cons entry rest ih =>
      rw [entryWrites, List.forall_mem_cons, ih]
      simp only [Write.InRange, List.flatMap_cons, List.length_append, List.length_singleton]
      omega

theorem listDir_inRange (disk : Disk) (dirName : Bytes) :
    (∀ write ∈ listDirWrites disk dirName, write.InRange) ↔
      (listDir disk dirName 10).length < REPLY_SIZE := by
  simp only [listDirWrites, listDir]
  cases disk.readdir disk.files dirName with
  | none => simp [entries_inRange]
  | some entries =>
      simp only
      rw [entries_inRange, Nat.zero_add]

theorem buildMsgPacket_inRange (msg : Bytes) :
    (∀ write ∈ buildMsgPacketWrites msg, write.InRange) ↔ msg.length ≤ 524 := by
  simp only [buildMsgPacketWrites, List.forall_mem_cons, Write.InRange, PACKET_SIZE]
  constructor
  · intro all
    have text := all.2.2.2.2.1
    omega
  · intro fits
    refine ⟨?_, ?_, ?_, ?_, ?_, List.forall_mem_nil _⟩
    all_goals omega

theorem command_inRange (disk : Disk) (pkt : Bytes) :
    (∀ write ∈ commandWrites disk pkt, write.InRange) ↔
      (MakesPath pkt → (msgUsername pkt).length + (msgText pkt).length ≤ 252) ∧
      (msgType pkt = CMD_LS →
        (listDir disk (setPath (msgUsername pkt) (msgText pkt)) 10).length < REPLY_SIZE) := by
  have path := setPath_inRange (msgUsername pkt) (msgText pkt)
  have list := listDir_inRange disk (setPath (msgUsername pkt) (msgText pkt))
  rw [commandWrites, MakesPath, ← path, ← list]
  by_cases mkdir : msgType pkt = CMD_MKDIR
  · simp [mkdir, CMD_MKDIR, CMD_LS]
  · by_cases ls : msgType pkt = CMD_LS
    · simp only [if_neg mkdir, if_pos ls, List.forall_mem_append]
      simp [ls]
    · simp only [mkdir, ls, false_or, false_implies, and_true, ↓reduceIte]
      by_cases named : (msgText pkt).length > 0
      · by_cases get : msgType pkt = CMD_GET
        · simp [get, named]
        · by_cases put : msgType pkt = CMD_PUT
          · simp only [if_neg get, if_pos put, if_pos named]
            simp [put, named]
          · simp [get, put]
      · simp [named]

theorem command_reply (disk : Disk) (pkt : Bytes) (short : (msgText pkt).length ≤ 524) :
    (runCommand disk pkt).msg.length ≤ 524 ↔
      (msgType pkt = CMD_LS →
        (listDir disk (setPath (msgUsername pkt) (msgText pkt)) 10).length ≤ 524) := by
  have texts : ∀ text ∈ [[], ascii "Fail to mkdir", ascii "server: get: cannot open the file",
      ascii "server: get: missing file operand", ascii "server: put: Cannot create the file",
      ascii "server: get: Missing file operand"], text.length ≤ 524 := by
    decide
  simp only [runCommand]
  by_cases ls : msgType pkt = CMD_LS
  · have other : ¬ CMD_LS = CMD_MKDIR := by decide
    simp only [ls, other, ↓reduceIte, true_implies]
  · simp only [ls, ↓reduceIte, false_implies, iff_true]
    split_ifs
    · exact texts _ (by simp)
    · exact texts _ (by simp)
    · cases disk.fopenRead (setPath (msgUsername pkt) (msgText pkt)) with
      | none => exact texts _ (by simp)
      | some fp => exact texts _ (by simp)
    · exact texts _ (by simp)
    · cases disk.fopenWrite (setPath (msgUsername pkt) (msgText pkt)) with
      | none => exact texts _ (by simp)
      | some pair => exact texts _ (by simp)
    · exact texts _ (by simp)
    · exact short

theorem length_msgText_lt (pkt : Bytes) (size : pkt.length = PACKET_SIZE)
    (terminated : 0 ∈ pkt.drop 36) : (msgText pkt).length < 524 := by
  have text := length_cstr_lt (pkt.drop 36) terminated
  rw [List.length_drop, size, PACKET_SIZE] at text
  rw [msgText]
  omega

/-- The stores of a round of the command loop for a user are in range exactly when the
path fits, and the listing fits into the reply. -/
theorem server_buffers (users : Users) (disk : Disk) (pkt : Bytes) (size : pkt.length = PACKET_SIZE)
    (terminated : 0 ∈ pkt.drop 36)
    (known : 0 < checkUser users (msgUsername pkt) (msgPassword pkt)) :
    (∀ write ∈ requestWrites users disk pkt, write.InRange) ↔
      (0 ≤ (createDir disk (msgUsername pkt)).1 →
        (MakesPath pkt → (msgUsername pkt).length + (msgText pkt).length ≤ 252) ∧
        (msgType pkt = CMD_LS → (listDir (createDir disk (msgUsername pkt)).2
          (setPath (msgUsername pkt) (msgText pkt)) 10).length ≤ 524)) := by
  have short := length_msgText_lt pkt size terminated
  have stranger : ¬ checkUser users (msgUsername pkt) (msgPassword pkt) ≤ 0 := by omega
  rw [requestWrites, List.forall_mem_append, buildMsgPacket_inRange]
  simp only [handleRequest, stranger, ↓reduceIte]
  by_cases failed : (createDir disk (msgUsername pkt)).1 < 0
  · have closed : ¬ 0 ≤ (createDir disk (msgUsername pkt)).1 := by omega
    simp only [failed, closed, ↓reduceIte, false_implies, iff_true]
    exact ⟨List.forall_mem_nil _, by decide⟩
  · have open_ : 0 ≤ (createDir disk (msgUsername pkt)).1 := by omega
    simp only [failed, open_, ↓reduceIte, true_implies]
    rw [command_inRange, command_reply _ _ (by omega)]
    constructor
    · intro all
      exact ⟨all.1.1, all.2⟩
    · intro all
      refine ⟨⟨all.1, fun ls => ?_⟩, all.2⟩
      have listed := all.2 ls
      simp only [REPLY_SIZE]
      omega

def sampleDownload (text : Bytes) : Bytes := buildMsgPacket CMD_GET 0 (some text) (some sampleUser)

theorem server_buffers_file :
    msgType (sampleDownload (ascii "f")) = CMD_GET ∧
      ∀ write ∈ requestWrites [([117], [112])] sampleDisk (sampleDownload (ascii "f")),
        write.InRange := by
  have kind : msgType (sampleDownload (ascii "f")) = CMD_GET := by decide +kernel
  have lengths : (msgUsername (sampleDownload (ascii "f"))).length +
      (msgText (sampleDownload (ascii "f"))).length ≤ 252 := by decide +kernel
  have size : (sampleDownload (ascii "f")).length = PACKET_SIZE := length_buildMsgPacket _ _ _ _
  have terminated : 0 ∈ (sampleDownload (ascii "f")).drop 36 := by decide +kernel
  have known : 0 < checkUser [([117], [112])] (msgUsername (sampleDownload (ascii "f")))
      (msgPassword (sampleDownload (ascii "f"))) := by decide +kernel
  generalize sampleDownload (ascii "f") = pkt at *
  refine ⟨kind, (server_buffers [([117], [112])] sampleDisk pkt size terminated known).mpr ?_⟩
  exact fun _ => ⟨fun _ => lengths, fun ls => absurd (kind.symm.trans ls) (by decide)⟩

/-- A message of 252 bytes runs past `path`. -/
theorem server_buffers_long_message :
    ∃ write ∈ requestWrites [([117], [112])] sampleDisk (sampleDownload (List.replicate 252 102)),
      ¬ write.InRange := by
  decide +kernel

end NetworkSystem.Dfc
