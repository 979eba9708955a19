import NetworkSystem.Dfc.Transfer

/-! Partitions of a file: their names, how the client cuts a file into them and
puts it together again, and the way of a file through a server and back. -/

namespace NetworkSystem.Dfc

open Bytes Store Blocks

/-- `%d` -/
def formatInt (value : Int) : Bytes :=
  if value < 0 then 45 :: decimal value.natAbs else decimal value.natAbs

/-- `sprintf(partname, ".%s.%d", filename, n)` -/
def setPartitionName (filename : Bytes) (n : Int) : Bytes :=
  46 :: (filename ++ 46 :: formatInt n)

/-- `pname` -/
def PNAME_SIZE : Nat := 128

/-- `path` of the server -/
def PATH_SIZE : Nat := 256

/-- `sprintf(path, "./%s/%s", p1, p2)` -/
def setPath (p1 p2 : Bytes) : Bytes := 46 :: 47 :: (p1 ++ 47 :: p2)

/-- The length of every partition but the last ones. -/
def psize (fsize nh : Nat) : Nat := fsize / nh + 1

def partition (content : Bytes) (nh part : Nat) : Bytes :=
  (content.drop (psize content.length nh * part)).take (psize content.length nh)

def COPY_SIZE : Nat := 4096

/-- One run of the copying loop of `merge_partitions`, on the streams read and
written. -/
def copyBody (streams : FILE × FILE) : (FILE × FILE) ⊕ FILE :=
  let (buffer, reader) := streams.1.fread COPY_SIZE
  if buffer.length > 0 then .inl (reader, streams.2.fwrite buffer) else .inr streams.2

def unread (streams : FILE × FILE) : Nat := streams.1.content.length - streams.1.pos

theorem copyBody_cases (reader writer : FILE) :
    (reader.content.length ≤ reader.pos ∧ copyBody (reader, writer) = .inr writer) ∨
      (reader.pos < reader.content.length ∧ copyBody (reader, writer) =
        .inl ((reader.fread COPY_SIZE).2, writer.fwrite (reader.fread COPY_SIZE).1)) := by
  have size : (reader.fread COPY_SIZE).1.length = min 4096 (reader.content.length - reader.pos) :=
    FILE.fread_length reader COPY_SIZE
  by_cases ended : reader.content.length ≤ reader.pos
  · have empty : ¬ (reader.fread COPY_SIZE).1.length > 0 := by omega
    exact Or.inl ⟨ended, if_neg empty⟩
  · have full : (reader.fread COPY_SIZE).1.length > 0 := by omega
    exact Or.inr ⟨by omega, if_pos full⟩

theorem copyBody_decreases (streams next : FILE × FILE)
    (continued : copyBody streams = .inl next) : unread next < unread streams := by
  rcases streams with ⟨reader, writer⟩
  rcases copyBody_cases reader writer with ⟨-, returned⟩ | ⟨open_, copied⟩
  · rw [returned] at continued
    cases continued
  · rw [copied] at continued
    have size : (reader.fread COPY_SIZE).1.length = min 4096 (reader.content.length - reader.pos) :=
      FILE.fread_length reader COPY_SIZE
    rw [← Sum.inl.inj continued]
    change reader.content.length - (reader.pos + (reader.fread COPY_SIZE).1.length) <
      reader.content.length - reader.pos
    omega

def copyAll (reader writer : FILE) : FILE :=
  Loop.run copyBody unread copyBody_decreases (reader, writer)

/-- The loop over the partitions of `merge_partitions`, which stops at the first one
that cannot be opened. -/
def mergeFrom (disk : Disk) (filename : Bytes) : List Nat → FILE → FILE
  | [], writer => writer
  | i :: rest, writer =>
      match disk.fopenRead (setPartitionName filename i) with
      | none => writer
      | some reader => mergeFrom disk filename rest (copyAll reader writer)

def mergePartitions (filename : Bytes) (n : Nat) (disk : Disk) : Int × Disk :=
  match disk.fopenWrite filename with
  | none => (-1, disk)
  | some (writer, disk) =>
      let written := mergeFrom disk filename (List.range n) writer
      (0, disk.close filename written)

def deletePartitions (filename : Bytes) (n : Nat) (disk : Disk) : Disk :=
  (List.range n).foldl (fun disk (i : Nat) => disk.unlink (setPartitionName filename i)) disk

theorem setPartitionName_ne_filename (filename : Bytes) (n : Int) :
    setPartitionName filename n ≠ filename := by
  intro same
  have lengths := congrArg List.length same
  simp only [setPartitionName, List.length_cons, List.length_append] at lengths
  omega

theorem setPartitionName_injective (filename : Bytes) (first second : Nat)
    (same : setPartitionName filename first = setPartitionName filename second) :
    first = second := by
  simp only [setPartitionName, List.cons.injEq, List.append_cancel_left_eq, true_and] at same
  have nonneg : ∀ n : Nat, ¬ ((n : Int) < 0) := fun n => by omega
  simp only [formatInt, nonneg, ↓reduceIte, Int.natAbs_natCast] at same
  exact decimal_injective same

theorem setPartitionName_clean (filename : Bytes) (part : Nat) (clean : 0 ∉ filename) :
    0 ∉ setPartitionName filename part := by
  have nonneg : ¬ ((part : Int) < 0) := by omega
  have digits := zero_not_mem_decimal part
  simp only [setPartitionName, formatInt, nonneg, ↓reduceIte, Int.natAbs_natCast, List.mem_cons,
    List.mem_append, not_or]
  exact ⟨by decide, clean, by decide, digits⟩

theorem setPath_injective (p1 first second : Bytes) (same : setPath p1 first = setPath p1 second) :
    first = second := by
  simpa only [setPath, List.cons.injEq, List.append_cancel_left_eq, true_and] using same

theorem setPath_ne (p1 p2 : Bytes) : setPath p1 p2 ≠ p1 := by
  intro same
  have lengths := congrArg List.length same
  simp only [setPath, List.length_cons, List.length_append] at lengths
  omega

theorem setPath_clean (p1 p2 : Bytes) (first : 0 ∉ p1) (second : 0 ∉ p2) :
    0 ∉ setPath p1 p2 := by
  simp only [setPath, List.mem_cons, List.mem_append, not_or]
  exact ⟨by decide, by decide, first, by decide, second⟩

theorem copyAll_content (reader writer : FILE) (atEnd : writer.pos = writer.content.length) :
    (copyAll reader writer).content = writer.content ++ reader.content.drop reader.pos ∧
      (copyAll reader writer).pos = (copyAll reader writer).content.length := by
  have every := Loop.run_induction copyBody unread copyBody_decreases
    (motive := fun streams result => streams.2.pos = streams.2.content.length →
      result.content = streams.2.content ++ streams.1.content.drop streams.1.pos ∧
        result.pos = result.content.length)
    (by
      intro streams result returned atEnd
      rcases streams with ⟨reader, writer⟩
      rcases copyBody_cases reader writer with ⟨ended, stopped⟩ | ⟨-, copied⟩
      · rw [stopped] at returned
        rw [← Sum.inr.inj returned]
        change writer.content = writer.content ++ reader.content.drop reader.pos ∧ _
        rw [List.drop_eq_nil_of_le ended, List.append_nil]
        exact ⟨rfl, atEnd⟩
      · rw [copied] at returned
        cases returned)
    (by
      intro streams next result continued ih atEnd
      rcases streams with ⟨reader, writer⟩
      rcases copyBody_cases reader writer with ⟨-, stopped⟩ | ⟨-, copied⟩
      · rw [stopped] at continued
        cases continued
      · rw [copied] at continued
        rw [← Sum.inl.inj continued] at ih
        simp only at atEnd
        simp only [FILE.fwrite, FILE.fread, atEnd, store_end] at ih
        rcases ih (by rw [List.length_append]) with ⟨content, pos⟩
        refine ⟨?_, pos⟩
        have parts := drop_of_load (load_of_length reader.content reader.pos COPY_SIZE)
        simp only
        rw [content, List.append_assoc, ← parts])
    (reader, writer)
  exact every atEnd

/-- The partitions on the disk one behind the other, up to the first that is
missing. -/
def joined (disk : Disk) (filename : Bytes) : List Nat → Bytes
  | [] => []
  | i :: rest =>
      match disk.files (setPartitionName filename i) with
      | none => []
      | some content => content ++ joined disk filename rest

theorem mergeFrom_content (disk : Disk) (filename : Bytes) (parts : List Nat) (writer : FILE)
    (atEnd : writer.pos = writer.content.length) :
    (mergeFrom disk filename parts writer).content =
      writer.content ++ joined disk filename parts := by
  induction parts generalizing writer with
  | nil => simp [mergeFrom, joined]
  | cons i rest ih =>
      simp only [mergeFrom, joined, Disk.fopenRead]
      cases disk.files (setPartitionName filename i) with
      | none => simp
      | some content =>
          rcases copyAll_content (FILE.opened content) writer atEnd with ⟨copied, pos⟩
          simp only [Option.map_some]
          rw [ih _ pos, copied, List.append_assoc]
          rfl

theorem joined_congr (first second : Disk) (filename : Bytes) (parts : List Nat)
    (same : ∀ i ∈ parts, first.files (setPartitionName filename i) =
      second.files (setPartitionName filename i)) :
    joined first filename parts = joined second filename parts := by
  induction parts with
  | nil => rfl
  | cons i rest ih =>
      simp only [joined, same i List.mem_cons_self]
      rw [ih (fun next member => same next (List.mem_cons_of_mem _ member))]

theorem joined_of_present (disk : Disk) (filename : Bytes) (parts : List Nat)
    (piece : Nat → Bytes)
    (present : ∀ i ∈ parts, disk.files (setPartitionName filename i) = some (piece i)) :
    joined disk filename parts = parts.flatMap piece := by
  induction parts with
  | nil => rfl
  | cons i rest ih =>
      simp only [joined, present i List.mem_cons_self, List.flatMap_cons]
      rw [ih (fun next member => present next (List.mem_cons_of_mem _ member))]

theorem mergePartitions_files (filename : Bytes) (n : Nat) (disk : Disk)
    (creatable : disk.creatable filename = true) :
    (mergePartitions filename n disk).1 = 0 ∧
      (mergePartitions filename n disk).2.files =
        (disk.save filename (joined disk filename (List.range n))).files := by
  simp only [mergePartitions, Disk.fopenWrite, creatable, ↓reduceIte]
  refine ⟨trivial, ?_⟩
  have content := mergeFrom_content (disk.save filename []) filename (List.range n)
    (FILE.opened []) rfl
  have same := joined_congr (disk.save filename []) disk filename (List.range n)
    (fun i _ => Disk.save_files_of_ne _ _ _ _ (setPartitionName_ne_filename filename i))
  rw [Disk.close, content, same, Disk.save_save]
  rfl

theorem flatMap_partition (content : Bytes) (nh : Nat) (positive : 0 < nh) :
    (List.range nh).flatMap (partition content nh) = content := by
  have enough : content.length ≤ psize content.length nh * nh := by
    have division := Nat.div_add_mod content.length nh
    have remainder := Nat.mod_lt content.length positive
    simp only [psize, Nat.add_mul, Nat.mul_comm (content.length / nh)]
    omega
  have pieces := flatMap_range_pieces content (psize content.length nh) nh
  rw [List.take_of_length_le enough] at pieces
  exact pieces

section round_trip

/-- A file as it lies on a server. -/
def encrypted (password content : Bytes) : Bytes := cipher DATA_SIZE_MAX password content

/-- What is stored of one file when one of both ends has the key. -/
theorem transfer_stores (sending receiving : Option Bytes) (password content : Bytes)
    (once : ∀ chunk, applyKey receiving (applyKey sending chunk) = applyKey (some password) chunk)
    (fp : FILE) (offset : Nat) (n : Int) (rest : List Bytes) (ending : Option Fault)
    (source : segment fp.content offset n = content) (short : content.length < 2 ^ 32) :
    let transfer := sendFile (fun _ => true) fp offset n sending
    let stored := receiveFile (FILE.opened []) ⟨transfer.sent ++ rest, ending⟩ receiving
    transfer.code = 0 ∧ stored.code = some 0 ∧ stored.inbox = ⟨rest, ending⟩ ∧
      stored.fp.content = encrypted password content := by
  rcases sendFile_sent sending fp offset n with ⟨code, chunks, blocked, flat, sent⟩
  rw [source] at flat
  rcases receiveFile_dataPackets sending receiving ending chunks
    rest blocked (by rw [flat]; exact short) with ⟨received, inbox, stored⟩
  simp only [sent, List.append_assoc, List.singleton_append]
  refine ⟨code, received, inbox, ?_⟩
  have keyed := flatten_map_applyKey DATA_SIZE_MAX password chunks blocked
  rw [stored, List.map_congr_left (fun chunk _ => once chunk), keyed, flat, encrypted]

/-- What a server stores of one upload: `send_file` with the key against
`receive_file` without one. -/
theorem upload_stores (password content : Bytes) (fp : FILE) (offset : Nat) (n : Int)
    (rest : List Bytes) (ending : Option Fault)
    (source : segment fp.content offset n = content) (short : content.length < 2 ^ 32) :
    let upload := sendFile (fun _ => true) fp offset n (some password)
    let stored := receiveFile (FILE.opened []) ⟨upload.sent ++ rest, ending⟩ none
    upload.code = 0 ∧ stored.code = some 0 ∧ stored.inbox = ⟨rest, ending⟩ ∧
      stored.fp.content = encrypted password content :=
  transfer_stores (some password) none password content (fun _ => rfl) fp offset n rest ending
    source short

/-- What the client stores of one download: `send_file` without a key against
`receive_file` with it. -/
theorem download_stores (password content : Bytes) (rest : List Bytes) (ending : Option Fault)
    (short : content.length < 2 ^ 32) :
    let download := sendFile (fun _ => true) (FILE.opened content) 0 (-1) none
    let stored := receiveFile (FILE.opened []) ⟨download.sent ++ rest, ending⟩ (some password)
    download.code = 0 ∧ stored.code = some 0 ∧ stored.inbox = ⟨rest, ending⟩ ∧
      stored.fp.content = encrypted password content :=
  transfer_stores none (some password) password content (fun _ => rfl) (FILE.opened content) 0 (-1)
    rest ending rfl short

theorem encrypted_encrypted (password content : Bytes) :
    encrypted password (encrypted password content) = content :=
  cipher_cipher DATA_SIZE_MAX password content

/-- One partition of a PUT: the client's `send_file` against the server's
`receive_file`. -/
def putPartition (fp : FILE) (nh part : Nat) (password : Bytes) : ReceiveResult :=
  let size := psize fp.sizeOfFp nh
  let upload := sendFile (fun _ => true) fp (size * part : Nat) (size : Nat) (some password)
  receiveFile (FILE.opened []) ⟨upload.sent, none⟩ none

/-- One partition of a GET: the server's `send_file` against the client's
`receive_file`. -/
def getPartition (stored password : Bytes) : ReceiveResult :=
  let download := sendFile (fun _ => true) (FILE.opened stored) 0 (-1) none
  receiveFile (FILE.opened []) ⟨download.sent, none⟩ (some password)

theorem putPartition_stores (fp : FILE) (nh part : Nat) (password : Bytes)
    (short : (partition fp.content nh part).length < 2 ^ 32) :
    (putPartition fp nh part password).code = some 0 ∧
      (putPartition fp nh part password).fp.content =
        encrypted password (partition fp.content nh part) := by
  have size : ((psize fp.content.length nh : Nat) : Int) ≠ -1 := by omega
  have source : segment fp.content (psize fp.content.length nh * part)
      (psize fp.content.length nh : Nat) = partition fp.content nh part := by
    rw [segment, if_neg size, Int.toNat_natCast, partition]
  rcases upload_stores password (partition fp.content nh part) fp
    (psize fp.content.length nh * part) (psize fp.content.length nh : Nat) [] none source short with
      ⟨-, code, -, stored⟩
  simp only [List.append_nil] at code stored
  exact ⟨code, stored⟩

theorem getPartition_stores (stored password : Bytes) (short : stored.length < 2 ^ 32) :
    (getPartition stored password).code = some 0 ∧
      (getPartition stored password).fp.content = encrypted password stored := by
  rcases download_stores password stored [] none short with ⟨-, code, -, content⟩
  simp only [List.append_nil] at code content
  exact ⟨code, content⟩

/-- Cutting a file, sending every partition to a server and back, and merging what
arrives gives the file, whatever stood in the target before. -/
theorem data_path_round_trip (fp : FILE) (nh : Nat) (password filename : Bytes) (disk : Disk)
    (hosts : 1 ≤ nh) (_keyed : password ≠ [])
    (short : ∀ part < nh, (partition fp.content nh part).length < 2 ^ 32)
    (creatable : disk.creatable filename = true)
    (fetched : ∀ part < nh, disk.files (setPartitionName filename part) =
      some (getPartition (putPartition fp nh part password).fp.content password).fp.content) :
    (∀ part < nh, (putPartition fp nh part password).code = some 0 ∧
      (getPartition (putPartition fp nh part password).fp.content password).code = some 0) ∧
    (mergePartitions filename nh disk).1 = 0 ∧
    (mergePartitions filename nh disk).2.files filename = some fp.content := by
  have every : ∀ part < nh, (putPartition fp nh part password).code = some 0 ∧
      (getPartition (putPartition fp nh part password).fp.content password).code = some 0 ∧
      disk.files (setPartitionName filename part) = some (partition fp.content nh part) := by
    intro part bound
    rcases putPartition_stores fp nh part password (short part bound) with ⟨put, stored⟩
    rcases getPartition_stores (putPartition fp nh part password).fp.content
      password (by rw [stored, encrypted, length_cipher]; exact short part bound) with
        ⟨got, content⟩
    refine ⟨put, got, ?_⟩
    rw [fetched part bound, content, stored, encrypted_encrypted]
  rcases mergePartitions_files filename nh disk creatable with ⟨code, files⟩
  refine ⟨fun part bound => ⟨(every part bound).1, (every part bound).2.1⟩, code, ?_⟩
  have present := joined_of_present disk filename (List.range nh) (partition fp.content nh)
    (fun part member => (every part (List.mem_range.mp member)).2.2)
  rw [files, Disk.save_files_self, present, flatMap_partition fp.content nh hosts]

/-- A client directory after both partitions of a three-byte file came back. -/
def fetchedDisk (fp : FILE) (password filename : Bytes) : Disk where
  files path :=
    let part := if path = setPartitionName filename 0 then 0 else 1
    some (getPartition (putPartition fp 2 part password).fp.content password).fp.content
  dirs _ := false
  allowed _ := true
  mkdirAllowed _ := true
  readdir _ _ := none
  flushed fp := fp.content

theorem data_path_round_trip_two_hosts :
    (mergePartitions [97] 2 (fetchedDisk (FILE.opened [1, 2, 3]) [7] [97])).2.files [97] =
      some [1, 2, 3] :=
  (data_path_round_trip (FILE.opened [1, 2, 3]) 2 [7] [97]
    (fetchedDisk (FILE.opened [1, 2, 3]) [7] [97]) (by decide) (by decide) (by decide) rfl (by
      intro part bound
      have cases_ : part = 0 ∨ part = 1 := by omega
      rcases cases_ with rfl | rfl
      · simp only [fetchedDisk, Int.ofNat_zero, ↓reduceIte]
      · have other : setPartitionName [97] 1 ≠ setPartitionName [97] 0 := by decide
        simp only [fetchedDisk, Int.ofNat_one, other, ↓reduceIte])).2.2

end round_trip

end NetworkSystem.Dfc
