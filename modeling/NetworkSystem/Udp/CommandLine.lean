import NetworkSystem.Lib.Fields
import NetworkSystem.Strutil
import NetworkSystem.Udp.Server

/-! What a command line is cut into, and the arrays of fixed size that the words of a line
and the names of a directory are stored in. -/

namespace NetworkSystem.Udp

open Bytes

def ARG_MAX : Nat := 16
def ARG_LEN_MAX : Nat := 256
def LINE_LEN_MAX : Nat := 256

def removeEndl (line : Bytes) : Bytes :=
  if line.getLast? = some 10 then line.dropLast else line

/-- `none` when the copy overlaps. -/
def strip (line : Bytes) : Option Bytes := stripApart line 32

/-- `argv`, an array of strings. -/
structure Argv where
  args : List Bytes
  size : args.length = ARG_MAX
  deriving DecidableEq

namespace Argv

def arg (argv : Argv) (i : Nat) : Bytes := argv.args.getD i []

/-- `strcpy(argv[i], p)`; `none` when there is no such string, or no room in it. -/
def store (argv : Argv) (i : Nat) (p : Bytes) : Option Argv :=
  if i < ARG_MAX ∧ p.length < ARG_LEN_MAX then
    some ⟨argv.args.set i p, by rw [List.length_set, argv.size]⟩
  else none

end Argv

/-- The loop over `strsep(&buffer, " ")`, with what it still has to store. -/
def storeArgs (argv : Argv) (i : Nat) : List Bytes → Option (Nat × Argv)
  | [] => some (i, argv)
  | p :: rest =>
      match argv.store i p with
      | none => none
      | some argv => storeArgs argv (i + 1) rest

/-- `parse_line`: what it returns, and `argv` behind it. `buffer` has room for the line. -/
def parseLine (cmdline : CString LINE_LEN_MAX) (argv : Argv) : Option (Nat × Argv) :=
  match strip (removeEndl cmdline.text) with
  | none => none
  | some buffer => if buffer.length = 0 then some (0, argv) else storeArgs argv 0 (buffer.splitOn 32)

/-- The words of a line: the runs without a space, up to the newline that ends it. -/
def words (line : Bytes) : List Bytes := Fields.fields (fun byte => byte == 32) (removeEndl line)

def inner (line : Bytes) : Bytes :=
  ((removeEndl line).dropWhile (· = 32)).rdropWhile (· = 32)

/-- No space stands in front of the line, or more of them than there are bytes behind. -/
def Apart (line : Bytes) : Prop := ¬ Overlaps (removeEndl line) 32

instance : DecidablePred Apart :=
  fun line => inferInstanceAs (Decidable (¬ Overlaps (removeEndl line) 32))

theorem strip_eq_inner (line : Bytes) :
    strip (removeEndl line) = if Apart line then some (inner line) else none := by
  split_ifs with apart
  · exact stripApart_eq_some.mpr ⟨apart, trim_eq _ _⟩
  · exact if_pos (not_not.mp apart)

theorem storeArgs_eq_some {argv after : Argv} {i count : Nat} {found : List Bytes}
    (inside : i ≤ ARG_MAX) (stored : storeArgs argv i found = some (count, after)) :
    count = i + found.length ∧ count ≤ ARG_MAX ∧
      after.args.take count = argv.args.take i ++ found := by
  induction found generalizing argv i with
  | nil =>
      have same := Prod.mk.inj (Option.some.inj stored)
      rw [← same.1, ← same.2, List.append_nil]
      exact ⟨rfl, inside, rfl⟩
  | cons p rest ih =>
      rw [storeArgs, Argv.store] at stored
      split_ifs at stored with room
      have later := ih (Nat.succ_le_of_lt room.1) stored
      have reach : i < (argv.args.set i p).length := by
        rw [List.length_set, argv.size]
        exact room.1
      refine ⟨by rw [later.1, List.length_cons]; omega, later.2.1, ?_⟩
      calc after.args.take count
          = (argv.args.set i p).take (i + 1) ++ rest := later.2.2
        _ = (argv.args.set i p).take i ++ [p] ++ rest := by
            rw [List.take_succ_eq_append_getElem reach, List.getElem_set_self]
        _ = argv.args.take i ++ [p] ++ rest := by rw [List.take_set_of_le (Nat.le_refl i)]
        _ = argv.args.take i ++ p :: rest := by rw [List.append_assoc, List.singleton_append]

theorem storeArgs_isSome {argv : Argv} {i : Nat} {found : List Bytes}
    (room : i + found.length ≤ ARG_MAX) (short : ∀ p ∈ found, p.length < ARG_LEN_MAX) :
    (storeArgs argv i found).isSome = true := by
  induction found generalizing argv i with
  | nil => rfl
  | cons p rest ih =>
      rw [List.length_cons] at room
      rw [List.forall_mem_cons] at short
      rw [storeArgs, Argv.store, if_pos ⟨by omega, short.1⟩]
      exact ih (by omega) short.2

theorem removeEndl_length (line : Bytes) : (removeEndl line).length ≤ line.length := by
  rw [removeEndl]
  split_ifs
  · rw [List.length_dropLast]
    exact Nat.sub_le _ _
  · exact Nat.le_refl _

theorem inner_length (line : Bytes) : (inner line).length ≤ line.length :=
  calc (inner line).length
    _ ≤ ((removeEndl line).dropWhile (· = 32)).length := (List.rdropWhile_prefix _ _).length_le
    _ ≤ (removeEndl line).length := (List.dropWhile_sublist _).length_le
    _ ≤ line.length := removeEndl_length line

theorem words_eq_inner (line : Bytes) :
    words line = Fields.fields (fun byte => byte == 32) (inner line) := by
  have blanks : ∀ byte : UInt8, decide (byte = 32) = true → (byte == 32) = true := by
    intro byte isSpace
    rw [beq_iff_eq]
    exact of_decide_eq_true isSpace
  rw [inner, Fields.fields_rdropWhile _ _ blanks, Fields.fields_dropWhile _ _ blanks, words]

theorem inner_getLast? (line : Bytes) : (inner line).getLast? ≠ some 32 := by
  intro last
  have full : inner line ≠ [] := by
    intro empty
    rw [empty] at last
    cases last
  have other := List.rdropWhile_last_not (fun byte : UInt8 => decide (byte = 32))
    ((removeEndl line).dropWhile (· = 32)) full
  rw [List.getLast?_eq_some_getLast full] at last
  exact other (decide_eq_true (Option.some.inj last))

theorem inner_head? (line : Bytes) : (inner line).head? ≠ some 32 := by
  intro head
  obtain ⟨rest, front⟩ := List.head?_eq_some_iff.mp head
  obtain ⟨back, whole⟩ := List.rdropWhile_prefix (fun byte : UInt8 => decide (byte = 32))
    ((removeEndl line).dropWhile (· = 32))
  change inner line ++ back = _ at whole
  have full : (removeEndl line).dropWhile (· = 32) ≠ [] := by
    rw [← whole, front]
    exact List.cons_ne_nil _ _
  have other := List.head_dropWhile_not (fun byte : UInt8 => decide (byte = 32)) full
  simp only [← whole, front, List.cons_append, List.head_cons] at other
  cases other

variable (cmdline : CString LINE_LEN_MAX) (argv : Argv)

theorem parseLine_of_empty (apart : Apart cmdline.text) (empty : inner cmdline.text = []) :
    parseLine cmdline argv = some (0, argv) := by
  rw [parseLine, strip_eq_inner, if_pos apart, empty]
  rfl

theorem parseLine_of_full (apart : Apart cmdline.text) (full : inner cmdline.text ≠ []) :
    parseLine cmdline argv = storeArgs argv 0 ((inner cmdline.text).splitOn 32) := by
  rw [parseLine, strip_eq_inner, if_pos apart]
  exact if_neg (mt List.eq_nil_of_length_eq_zero full)

theorem parseLine_of_overlap (overlaps : ¬ Apart cmdline.text) : parseLine cmdline argv = none := by
  rw [parseLine, strip_eq_inner, if_neg overlaps]

theorem length_piece (p : Bytes) (cut : p ∈ (inner cmdline.text).splitOn 32) :
    p.length < ARG_LEN_MAX := by
  rw [List.splitOn_eq_splitOnP] at cut
  have inside := (Fields.mem_piece _ (inner cmdline.text) p cut).1
  exact Nat.lt_of_le_of_lt (inside.trans (inner_length _)) cmdline.fits

theorem length_pieces :
    ((inner cmdline.text).splitOn 32).length = (inner cmdline.text).count 32 + 1 := by
  rw [List.splitOn_eq_splitOnP, Fields.length_splitOnP]
  rfl

theorem parseLine_isSome_iff :
    (parseLine cmdline argv).isSome = true ↔
      Apart cmdline.text ∧ (inner cmdline.text).count 32 < ARG_MAX := by
  by_cases apart : Apart cmdline.text
  · by_cases empty : inner cmdline.text = []
    · rw [parseLine_of_empty cmdline argv apart empty, empty]
      exact ⟨fun _ => ⟨apart, by decide⟩, fun _ => rfl⟩
    · have pieces := length_pieces cmdline
      rw [parseLine_of_full cmdline argv apart empty]
      constructor
      · intro stored
        obtain ⟨⟨count, after⟩, same⟩ := Option.isSome_iff_exists.mp stored
        have counted := storeArgs_eq_some (Nat.zero_le _) same
        exact ⟨apart, by omega⟩
      · intro few
        have room := few.2
        exact storeArgs_isSome (by omega) (length_piece cmdline)
  · rw [parseLine_of_overlap cmdline argv apart]
    constructor
    · intro stored
      cases stored
    · intro both
      exact absurd both.1 apart

/-- `parse_line` gives the words of a line exactly when `strip` does not copy over itself, no
two spaces stand together between the words and `argv` has a place for each. -/
theorem parse_line_words_iff :
    (∃ after : Argv, parseLine cmdline argv = some ((words cmdline.text).length, after) ∧
      after.args.take (words cmdline.text).length = words cmdline.text) ↔
    Apart cmdline.text ∧ ¬ [32, 32] <:+: inner cmdline.text ∧
      (words cmdline.text).length ≤ ARG_MAX := by
  by_cases apart : Apart cmdline.text
  · rw [and_iff_right apart]
    by_cases empty : inner cmdline.text = []
    · rw [parseLine_of_empty cmdline argv apart empty, words_eq_inner, empty, Fields.fields_nil]
      refine ⟨fun _ => ⟨by decide, by decide⟩, fun _ => ⟨argv, rfl, rfl⟩⟩
    · have single := Fields.fields_eq_splitOn_iff 32 (inner cmdline.text) empty
        (inner_head? _) (inner_getLast? _)
      rw [← words_eq_inner] at single
      rw [parseLine_of_full cmdline argv apart empty, ← single]
      constructor
      · intro found
        rcases found with ⟨after, stored, taken⟩
        have counted := storeArgs_eq_some (Nat.zero_le _) stored
        rw [taken, List.take_zero, List.nil_append] at counted
        exact ⟨counted.2.2.symm, counted.2.1⟩
      · intro both
        rcases both with ⟨same, few⟩
        have stored : (storeArgs argv 0 ((inner cmdline.text).splitOn 32)).isSome = true :=
          storeArgs_isSome (by rw [same, Nat.zero_add]; exact few) (length_piece cmdline)
        obtain ⟨⟨count, after⟩, result⟩ := Option.isSome_iff_exists.mp stored
        have counted := storeArgs_eq_some (Nat.zero_le _) result
        rw [same, Nat.zero_add, List.take_zero, List.nil_append] at counted
        rcases counted with ⟨total, -, taken⟩
        rw [total] at result taken
        exact ⟨after, result, taken⟩
  · rw [parseLine_of_overlap cmdline argv apart]
    constructor
    · intro found
      obtain ⟨after, stored, -⟩ := found
      cases stored
    · intro all
      exact absurd all.1 apart

def emptyArgv : Argv := ⟨List.replicate ARG_MAX [], List.length_replicate⟩

/-- Two spaces in front of a file name put the empty name in its place. -/
theorem parse_line_doubled :
    ¬ ∃ after : Argv, parseLine ⟨ascii "get  x\n", by decide, by decide⟩ emptyArgv =
        some ((words (ascii "get  x\n")).length, after) ∧
      after.args.take (words (ascii "get  x\n")).length = words (ascii "get  x\n") := by
  intro found
  rcases found with ⟨after, stored, -⟩
  have count : (parseLine ⟨ascii "get  x\n", by decide, by decide⟩ emptyArgv).map Prod.fst =
      some 3 := by
    decide +kernel
  rw [stored] at count
  have three : (words (ascii "get  x\n")).length = 3 := Option.some.inj count
  exact absurd three (by decide +kernel)

/-- The names that `list_dir` writes: none when the directory cannot be opened. -/
def listedNames (disk : Disk) (dirName : Bytes) : List Bytes :=
  match disk.readdir disk.files dirName with
  | none => []
  | some entries =>
      (entries.map Dirent.name).filter (fun name => name ≠ ascii "." ∧ name ≠ ascii "..")

/-- `sprintf(buffer + pos, "%s%c", …)` for one name after the other; `none` when it runs past
the end of the buffer. -/
def writeNames (size : Nat) (delimiter : UInt8) : Bytes → List Bytes → Option Bytes
  | buffer, [] => storeText size buffer
  | buffer, name :: rest =>
      match storeText size (buffer ++ name ++ [delimiter]) with
      | none => none
      | some buffer => writeNames size delimiter buffer rest

/-- `list_dir` into a buffer of `size` bytes. -/
def listDirInto (size : Nat) (disk : Disk) (dirName : Bytes) (delimiter : UInt8) : Option Bytes :=
  writeNames size delimiter [] (listedNames disk dirName)

theorem writeNames_eq (size : Nat) (delimiter : UInt8) (buffer : Bytes) (names : List Bytes) :
    writeNames size delimiter buffer names =
      storeText size (buffer ++ names.flatMap (fun name => name ++ [delimiter])) := by
  induction names generalizing buffer with
  | nil => rw [writeNames, List.flatMap_nil, List.append_nil]
  | cons name rest ih =>
      rw [writeNames, List.flatMap_cons, ← List.append_assoc, ← List.append_assoc]
      by_cases fits : (buffer ++ name ++ [delimiter]).length < size
      · rw [storeText, if_pos fits]
        exact ih _
      · have long : ¬ (buffer ++ name ++ [delimiter] ++
            rest.flatMap (fun name => name ++ [delimiter])).length < size := by
          rw [List.length_append]
          omega
        rw [storeText, if_neg fits, storeText, if_neg long]

theorem listDir_eq (disk : Disk) (dirName : Bytes) (delimiter : UInt8) :
    listDir disk dirName delimiter =
      (listedNames disk dirName).flatMap (fun name => name ++ [delimiter]) := by
  rw [listDir, listedNames]
  cases disk.readdir disk.files dirName with
  | none => rfl
  | some entries =>
      simp only [List.filter_map, List.flatMap_map]
      rfl

theorem listDirInto_eq (size : Nat) (disk : Disk) (dirName : Bytes) (delimiter : UInt8) :
    listDirInto size disk dirName delimiter = storeText size (listDir disk dirName delimiter) := by
  rw [listDirInto, writeNames_eq, List.nil_append, listDir_eq]

theorem length_listDir (disk : Disk) (dirName : Bytes) (delimiter : UInt8) :
    (listDir disk dirName delimiter).length =
      ((listedNames disk dirName).map (fun name => name.length + 1)).sum := by
  rw [listDir_eq, List.length_flatMap]
  congr 1
  exact List.map_congr_left (fun name _ => List.length_append)

theorem listDirInto_fits_iff (disk : Disk) (dirName : Bytes) (delimiter : UInt8) :
    (∃ msg, listDirInto LINE_LEN_MAX disk dirName delimiter = some msg ∧
        msg.length ≤ MSG_SIZE_MAX) ↔
      ((listedNames disk dirName).map (fun name => name.length + 1)).sum < LINE_LEN_MAX := by
  rw [listDirInto_eq, ← length_listDir disk dirName delimiter]
  constructor
  · intro stored
    rcases stored with ⟨msg, same, -⟩
    exact (storeText_eq_some.mp same).1
  · intro short
    exact ⟨_, storeText_eq_some.mpr ⟨short, rfl⟩, Nat.le_of_lt short⟩

/-- The arrays of the client and of the server suffice exactly when a line has fewer than 16
spaces between its words, `strip` not copying over itself, and the names, with a newline each,
take less than 256 bytes. -/
theorem fixed_buffers_suffice_iff (disk : Disk) :
    ((parseLine cmdline argv).isSome = true ↔
      Apart cmdline.text ∧ (inner cmdline.text).count 32 < ARG_MAX) ∧
    ((∃ msg, listDirInto LINE_LEN_MAX disk (ascii ".") 10 = some msg ∧
        msg.length ≤ MSG_SIZE_MAX) ↔
      ((listedNames disk (ascii ".")).map (fun name => name.length + 1)).sum < LINE_LEN_MAX) :=
  ⟨parseLine_isSome_iff cmdline argv, listDirInto_fits_iff disk (ascii ".") 10⟩

def longLine : CString LINE_LEN_MAX :=
  ⟨ascii "a b c d e f g h i j k l m n o p q", by decide +kernel, by decide +kernel⟩

def longNames : Disk where
  files _ := some []
  dirs _ := false
  allowed _ := true
  mkdirAllowed _ := true
  readdir _ _ := some [⟨List.replicate 200 97, false⟩, ⟨List.replicate 200 98, false⟩]
  flushed fp := fp.content

theorem fixed_buffers_overrun :
    ¬ (parseLine longLine emptyArgv).isSome = true ∧
    ¬ ∃ msg, listDirInto LINE_LEN_MAX longNames (ascii ".") 10 = some msg ∧
      msg.length ≤ MSG_SIZE_MAX := by
  rw [listDirInto_fits_iff]
  exact ⟨by decide +kernel, by decide +kernel⟩

end NetworkSystem.Udp
