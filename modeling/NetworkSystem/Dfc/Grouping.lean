import NetworkSystem.Dfc.Listing

/-! The loop of `list` over the lines, on the arrays themselves: the strings in `p`, the
scratch buffer that holds a name, and the counts. -/

namespace NetworkSystem.Dfc

open Bytes Groups

/-- `p`, `count`, `buffer` and `j`; a string in `p` is a row of bytes. -/
structure Arrays where
  p : List Bytes
  count : List Nat
  buffer : Bytes
  j : Nat

/-- `parse_partition_name` into the array `filename`; `none` where there is no second dot
or the array is too short. -/
def parsePartitionRow (filename partname : Bytes) : Option (Bytes × Int) :=
  let text := cstr partname
  if 46 ∈ text.drop 1 then
    -- the place of the last dot
    let c := (text.rdropWhile (· ≠ 46)).length - 1
    (strncpy filename (text.drop 1) (c - 1)).map (fun copied => (copied, atoi (text.drop (c + 1))))
  else none

/-- The body of the loop; `none` for a shift past the bits of an `int` and where a string
does not fit its array. -/
def groupRow (arrays : Arrays) (i : Nat) : Option Arrays :=
  match parsePartitionRow (zeros arrays.buffer.length) (arrays.p.getD i []) with
  | none => none
  | some (buffer, pi) =>
      if 0 ≤ pi ∧ pi < 32 then
        let bits := 1 <<< pi.toNat
        let names := (arrays.p.take arrays.j).map cstr
        let (count, flag) := markNames (cstr buffer) bits names arrays.count
        if flag then some { arrays with count, buffer }
        else if arrays.j < arrays.count.length then
          match strcpy (arrays.p.getD arrays.j []) (cstr buffer) with
          | none => none
          | some copied =>
              some { p := arrays.p.set arrays.j copied
                     count := count.set arrays.j (count.getD arrays.j 0 ||| bits)
                     buffer
                     j := arrays.j + 1 }
        else none
      else none

/-- The strings in `p` are lines, in front of what else is there, and nothing is counted
yet. -/
structure Holds (lines : List Bytes) (arrays : Arrays) : Prop where
  size : arrays.p.length = BUF_SIZE
  rows : ∀ row ∈ arrays.p, Terminated LINE_SIZE row
  lines : (arrays.p.take lines.length).map cstr = lines
  count : arrays.count = List.replicate BUF_SIZE 0
  buffer : arrays.buffer.length = BUF_SIZE
  j : arrays.j = 0

structure Sound (arrays : Arrays) : Prop where
  size : arrays.p.length = BUF_SIZE
  rows : ∀ row ∈ arrays.p, Terminated LINE_SIZE row
  count : arrays.count.length = BUF_SIZE
  buffer : arrays.buffer.length = BUF_SIZE

theorem Holds.sound {lines : List Bytes} {arrays : Arrays} (holds : Holds lines arrays) :
    Sound arrays where
  size := holds.size
  rows := holds.rows
  count := by rw [holds.count, List.length_replicate]
  buffer := holds.buffer

/-- The strings in the first `n` rows, and the rest as it is. -/
def view (n : Nat) (arrays : Arrays) : Rows :=
  { p := (arrays.p.take n).map cstr, count := arrays.count, j := arrays.j }

theorem length_strncpy {dest text copied : Bytes} {count : Nat}
    (stored : strncpy dest text count = some copied) : copied.length = dest.length := by
  simp only [strncpy] at stored
  split_ifs at stored with room
  rw [← Option.some.inj stored, List.length_append, List.length_take, List.length_append,
    List.length_drop, zeros, List.length_replicate]
  omega

/-- The part of a text between its first byte and its last dot, and what is behind it. -/
theorem last_dot_parts {text : Bytes} (dot : 46 ∈ text.drop 1) :
    ∃ c, (text.rdropWhile (· ≠ 46)).length - 1 = c ∧ c < text.length ∧
      (text.drop 1).take (c - 1) = (text.rdropWhile (· ≠ 46)).dropLast.drop 1 ∧
      text.drop (c + 1) = text.rtakeWhile (· ≠ 46) := by
  have whole : text.rdropWhile (· ≠ 46) ++ text.rtakeWhile (· ≠ 46) = text :=
    List.rdropWhile_append_rtakeWhile
  have some_ : text.rdropWhile (· ≠ 46) ≠ [] := by
    rw [ne_eq, List.rdropWhile_eq_nil_iff]
    intro other
    exact absurd (other 46 (List.mem_of_mem_drop dot)) (by decide)
  generalize text.rdropWhile (· ≠ 46) = front at whole some_ ⊢
  generalize text.rtakeWhile (· ≠ 46) = back at whole ⊢
  have positive := List.length_pos_iff.mpr some_
  refine ⟨front.length - 1, rfl, ?_, ?_, ?_⟩
  · rw [← whole, List.length_append]
    omega
  · calc
      _ = (text.take (front.length - 1)).drop 1 := by rw [List.drop_take]
      _ = front.dropLast.drop 1 := by
        rw [← whole, List.take_append_of_le_length (Nat.sub_le _ 1), List.dropLast_eq_take]
  · rw [Nat.sub_add_cancel positive, ← whole, List.drop_left]

theorem parsePartitionRow_zeros {row name : Bytes} {pi : Int} (size : Nat)
    (fits : name.length < size) (parsed : parsePartitionName (cstr row) = some (name, pi)) :
    ∃ buffer, parsePartitionRow (zeros size) row = some (buffer, pi) ∧ cstr buffer = name := by
  have clean := zero_not_mem_cstr row
  simp only [parsePartitionRow]
  generalize cstr row = text at parsed clean ⊢
  simp only [parsePartitionName] at parsed
  split_ifs at parsed with dot
  obtain ⟨named, numbered⟩ := Prod.mk.inj (Option.some.inj parsed)
  rcases last_dot_parts dot with ⟨c, place, inside, name_, number⟩
  have less : c - 1 ≤ (text.drop 1).length := by
    rw [List.length_drop]
    omega
  have room : c - 1 < size := by
    rw [← named, ← name_, List.length_take, Nat.min_eq_left less] at fits
    exact fits
  rcases cstr_strncpy_zeros (fun member => clean (List.mem_of_mem_drop member)) less room with
    ⟨buffer, copied, held⟩
  refine ⟨buffer, ?_, held.trans (name_.trans named)⟩
  rw [if_pos dot, place, copied, number, numbered]
  rfl

theorem length_parsed_le {text name : Bytes} {pi : Int}
    (parsed : parsePartitionName text = some (name, pi)) : name.length ≤ text.length := by
  simp only [parsePartitionName] at parsed
  split_ifs at parsed
  have prefix_ := (List.rdropWhile_prefix (fun byte : UInt8 => decide (byte ≠ 46)) (l := text)).length_le
  rw [← (Prod.mk.inj (Option.some.inj parsed)).1, List.length_drop, List.length_dropLast]
  omega

theorem parsePartitionRow_eq {row name : Bytes} {pi : Int} (terminated : Terminated LINE_SIZE row)
    (parsed : parsePartitionName (cstr row) = some (name, pi)) :
    ∃ buffer, parsePartitionRow (zeros BUF_SIZE) row = some (buffer, pi) ∧ cstr buffer = name ∧
      buffer.length = BUF_SIZE := by
  have short := length_cstr_lt row terminated.zero
  have less := length_parsed_le parsed
  have sizes : LINE_SIZE < BUF_SIZE := by decide
  rw [terminated.size] at short
  rcases parsePartitionRow_zeros BUF_SIZE (by omega) parsed with ⟨buffer, read, held⟩
  refine ⟨buffer, read, held, ?_⟩
  simp only [parsePartitionRow] at read
  split_ifs at read
  obtain ⟨copied, stored, same⟩ := Option.map_eq_some_iff.mp read
  rw [← (Prod.mk.inj same).1, length_strncpy stored, zeros, List.length_replicate]

/-- A pair of a name and a number is read back from its partition name, and so no other pair
has that name. -/
theorem partition_names_decode (filename : Bytes) (clean : 0 ∉ filename) (n : Fin (2 ^ 31)) :
    (∀ (size : Nat) (behind : Bytes), filename.length < size →
      ∃ copied, parsePartitionRow (zeros size)
          (setPartitionName filename (n : Nat) ++ 0 :: behind) = some (copied, ((n : Nat) : Int)) ∧
        cstr copied = filename) ∧
    ∀ (other : Bytes) (m : Fin (2 ^ 31)),
      setPartitionName filename (n : Nat) = setPartitionName other (m : Nat) →
        filename = other ∧ n = m := by
  have parsed := parsePartitionName_set filename n
  constructor
  · intro size behind fits
    apply parsePartitionRow_zeros size fits
    rw [cstr_append_zero _ _ (setPartitionName_clean filename n clean)]
    exact parsed
  · intro other m same
    rw [same, parsePartitionName_set other m] at parsed
    obtain ⟨names, numbers⟩ := Prod.mk.inj (Option.some.inj parsed)
    exact ⟨names.symm, Fin.ext (Int.ofNat.inj numbers.symm)⟩

/-- A file with the name of a partition. -/
theorem partition_names_decode_nested :
    ∃ copied, parsePartitionRow (zeros 8) (ascii "..a.1.12" ++ [0, 46, 51]) = some (copied, 12) ∧
      cstr copied = ascii ".a.1" :=
  (partition_names_decode (ascii ".a.1") (by decide) 12).1 8 [46, 51] (by decide)

theorem length_markNames (name : Bytes) (bits : Nat) (names : List Bytes) (count : List Nat) :
    (markNames name bits names count).1.length = count.length := by
  induction names generalizing count with
  | nil => cases count <;> rfl
  | cons head names ih =>
      cases count with
      | nil => rfl
      | cons mask count =>
          simp only [markNames]
          split_ifs <;> rw [List.length_cons, List.length_cons, ih]

theorem Sound.row {arrays : Arrays} (sound : Sound arrays) {i : Nat} (inside : i < BUF_SIZE) :
    Terminated LINE_SIZE (arrays.p.getD i []) := by
  have place : i < arrays.p.length := sound.size.symm ▸ inside
  rw [List.getD_eq_getElem _ _ place]
  exact sound.rows _ (List.getElem_mem place)

theorem Sound.view_getD {arrays : Arrays} (sound : Sound arrays) {n i : Nat} (few : n ≤ BUF_SIZE)
    (inside : i < n) : (view n arrays).p.getD i [] = cstr (arrays.p.getD i []) := by
  have place : i < arrays.p.length := by
    rw [sound.size]
    omega
  simp only [view, List.getD_eq_getElem?_getD, List.getElem?_map, List.getElem?_take, inside,
    ↓reduceIte, List.getElem?_eq_getElem place, Option.map_some, Option.getD_some]

theorem Sound.strcpy {arrays : Arrays} (sound : Sound arrays) {name : Bytes} (clean : 0 ∉ name)
    (fits : name.length < LINE_SIZE) (inside : arrays.j < BUF_SIZE) :
    ∃ copied, Bytes.strcpy (arrays.p.getD arrays.j []) name = some copied ∧ cstr copied = name ∧
      ∀ row ∈ arrays.p.set arrays.j copied, Terminated LINE_SIZE row := by
  rcases (sound.row inside).strcpy clean fits with ⟨copied, stored, terminated, same⟩
  refine ⟨copied, stored, same, ?_⟩
  intro row member
  rcases List.mem_or_eq_of_mem_set member with old | new
  · exact sound.rows row old
  · exact new ▸ terminated

/-- One round of the loop does to the strings what it does on lists of them. -/
theorem groupRow_view {n i : Nat} {arrays : Arrays} {rows : Rows} (sound : Sound arrays)
    (few : n ≤ BUF_SIZE) (inside : i < n) (behind : arrays.j ≤ i)
    (grouped : groupLine (view n arrays) i = some rows) :
    ∃ next, groupRow arrays i = some next ∧ view n next = rows ∧ Sound next := by
  have terminated := sound.row (Nat.lt_of_lt_of_le inside few)
  have names : ((arrays.p.take n).map cstr).take arrays.j = (arrays.p.take arrays.j).map cstr := by
    rw [← List.map_take, List.take_take, Nat.min_eq_left (by omega)]
  simp only [groupLine, sound.view_getD few inside] at grouped
  simp only [view, names] at grouped
  cases parsed : parsePartitionName (cstr (arrays.p.getD i [])) with
  | none =>
      rw [parsed] at grouped
      cases grouped
  | some both =>
      rcases both with ⟨name, pi⟩
      rcases parsePartitionRow_eq terminated parsed with ⟨buffer, read, held, size⟩
      have counts := length_markNames name (1 <<< pi.toNat) ((arrays.p.take arrays.j).map cstr)
        arrays.count
      simp only [parsed] at grouped
      split_ifs at grouped with number flag
      · have next := Option.some.inj grouped
        simp only [groupRow, sound.buffer, read, held, number, flag, and_self, ↓reduceIte]
        refine ⟨_, rfl, next, sound.size, sound.rows, ?_, size⟩
        rw [counts, sound.count]
      · have next := Option.some.inj grouped
        have fits : name.length < LINE_SIZE := by
          have less := length_parsed_le parsed
          have short := length_cstr_lt _ terminated.zero
          rw [terminated.size] at short
          omega
        have room : arrays.j < BUF_SIZE := by omega
        rcases sound.strcpy (held ▸ zero_not_mem_cstr buffer) fits room with
          ⟨copied, stored, same, rows_⟩
        simp only [groupRow, sound.buffer, read, held, number, flag, and_self, ↓reduceIte,
          sound.count, room, stored]
        refine ⟨_, rfl, ?_, ?_, rows_, ?_, size⟩
        · rw [← next, view, List.take_set, List.map_set, same]
        · rw [List.length_set, sound.size]
        · rw [List.length_set, counts, sound.count]

theorem Holds.lines_le {parts : List (Bytes × Nat)} {arrays : Arrays}
    (holds : Holds (parts.map partLine) arrays) : parts.length ≤ BUF_SIZE := by
  have sizes := congrArg List.length holds.lines
  rw [List.length_map, List.length_take, holds.size, List.length_map] at sizes
  omega

theorem groupRows (parts : List (Bytes × Nat)) (arrays : Arrays)
    (holds : Holds (parts.map partLine) arrays) (small : ∀ part ∈ parts, part.2 < 32) (m : Nat)
    (bound : m ≤ parts.length) :
    ∃ last, (List.range m).foldlM groupRow arrays = some last ∧ Sound last ∧
      Grouped (parts.map partLine) m (collect (parts.take m)) (view parts.length last) := by
  induction m with
  | zero =>
      have lines := holds.lines
      rw [List.length_map] at lines
      refine ⟨arrays, rfl, holds.sound, ?_⟩
      rw [view, lines, holds.count, holds.j]
      exact ⟨rfl, rfl, rfl, rfl, rfl, Nat.le_refl 0⟩
  | succ m ih =>
      rcases ih (by omega) with ⟨before, looped, sound, grouped⟩
      rcases grouped.nextPart holds.lines_le small bound with ⟨rows, stepped, later⟩
      rcases groupRow_view sound holds.lines_le bound grouped.behind stepped with
        ⟨last, rowed, same, kept⟩
      refine ⟨last, ?_, kept, same ▸ later⟩
      rw [List.range_succ, List.foldlM_append, looped]
      simp only [Option.bind_eq_bind, Option.bind_some, List.foldlM_cons, List.foldlM_nil, rowed]
      rfl

/-- The names stand in front of `p`, each once and in the order in which the lines have
them first, and each count has the bits of exactly the lines with its name. -/
theorem list_groups_in_place (parts : List (Bytes × Nat)) (arrays : Arrays)
    (holds : Holds (parts.map partLine) arrays) (small : ∀ part ∈ parts, part.2 ≤ 31) :
    ∃ last, (List.range parts.length).foldlM groupRow arrays = some last ∧
      last.j = (parts.map Prod.fst).eraseDups.length ∧
      (last.p.take last.j).map cstr = (parts.map Prod.fst).eraseDups ∧
      ∀ m < last.j, last.count.getD m 0 = bitsOf (cstr (last.p.getD m [])) parts := by
  rcases groupRows parts arrays holds (fun part member => Nat.lt_succ_of_le (small part member))
    parts.length (Nat.le_refl _) with ⟨last, looped, sound, grouped⟩
  rw [List.take_length, collect_eq] at grouped
  have found : last.j = (parts.map Prod.fst).eraseDups.length := by
    have found := grouped.found
    rw [List.length_map] at found
    exact found
  have names : (last.p.take last.j).map cstr = (parts.map Prod.fst).eraseDups := by
    have names := grouped.names
    have behind : last.j ≤ parts.length := grouped.behind
    rw [List.map_map] at names
    simp only [view, ← List.map_take, List.take_take, Nat.min_eq_left behind] at names
    exact names.trans (List.map_id _)
  refine ⟨last, looped, found, names, ?_⟩
  intro m inside
  have less : m < (parts.map Prod.fst).eraseDups.length := found ▸ inside
  have place : m < last.p.length := by
    have behind : last.j ≤ parts.length := grouped.behind
    have few := holds.lines_le
    rw [sound.size]
    omega
  have name : cstr (last.p.getD m []) = (parts.map Prod.fst).eraseDups[m] := by
    apply Option.some.inj
    calc some (cstr (last.p.getD m []))
        = ((last.p.take last.j).map cstr)[m]? := by
          rw [List.getElem?_map, List.getElem?_take_of_lt inside, List.getElem?_eq_getElem place,
            List.getD_eq_getElem _ _ place]
          rfl
      _ = (parts.map Prod.fst).eraseDups[m]? := by rw [names]
      _ = some (parts.map Prod.fst).eraseDups[m] := List.getElem?_eq_getElem less
  have masks : last.count = (parts.map Prod.fst).eraseDups.map (fun name => bitsOf name parts) ++
      List.replicate (BUF_SIZE - (parts.map Prod.fst).eraseDups.length) 0 := by
    have masks := grouped.masks
    rw [List.map_map, List.length_map] at masks
    exact masks
  calc last.count.getD m 0
      = ((parts.map Prod.fst).eraseDups.map (fun name => bitsOf name parts)).getD m 0 := by
        rw [masks, List.getD_append _ _ _ _ (by simpa using less)]
    _ = bitsOf (parts.map Prod.fst).eraseDups[m] parts := by
        rw [List.getD_eq_getElem _ _ (by simpa using less), List.getElem_map]
    _ = bitsOf (cstr (last.p.getD m [])) parts := by rw [name]

/-- The arrays behind `split`, in cleared memory. -/
def splitArrays (lines : List Bytes) : Arrays :=
  { p := lines.map (fun line => line ++ zeros (LINE_SIZE - line.length)) ++
      List.replicate (BUF_SIZE - lines.length) (zeros LINE_SIZE)
    count := List.replicate BUF_SIZE 0
    buffer := zeros BUF_SIZE
    j := 0 }

theorem holds_splitArrays (lines : List Bytes) (few : lines.length ≤ BUF_SIZE)
    (fits : ∀ line ∈ lines, line.length < LINE_SIZE) (clean : ∀ line ∈ lines, 0 ∉ line) :
    Holds lines (splitArrays lines) := by
  have filled : ∀ line ∈ lines, line ++ zeros (LINE_SIZE - line.length) =
      line ++ 0 :: zeros (LINE_SIZE - line.length - 1) := by
    intro line member
    have room := fits line member
    have positive : LINE_SIZE - line.length = LINE_SIZE - line.length - 1 + 1 := by omega
    rw [zeros, positive, List.replicate_succ]
    rfl
  constructor
  · simp only [splitArrays, List.length_append, List.length_map, List.length_replicate]
    omega
  · intro row member
    rcases List.mem_append.mp member with used | free
    · obtain ⟨line, inside, rfl⟩ := List.mem_map.mp used
      have room := fits line inside
      constructor
      · rw [List.length_append, zeros, List.length_replicate]
        omega
      · rw [filled line inside]
        exact List.mem_append_right _ List.mem_cons_self
    · rw [List.eq_of_mem_replicate free]
      exact ⟨List.length_replicate, by decide⟩
  · simp only [splitArrays]
    rw [List.take_left' (List.length_map _), List.map_map]
    calc
      _ = lines.map id := by
        apply List.map_congr_left
        intro line member
        rw [Function.comp_apply, filled line member, cstr_append_zero _ _ (clean line member)]
        rfl
      _ = lines := List.map_id lines
  · rfl
  · exact List.length_replicate
  · rfl

def sampleLines : List (Bytes × Nat) := [(ascii "f", 0), (ascii "g.h", 1), (ascii "f", 31)]

theorem list_groups_in_place_three_lines :
    ∃ last, (List.range 3).foldlM groupRow (splitArrays (sampleLines.map partLine)) = some last ∧
      last.j = 2 ∧ (last.p.take last.j).map cstr = [ascii "f", ascii "g.h"] ∧
      ∀ m < last.j, last.count.getD m 0 = bitsOf (cstr (last.p.getD m [])) sampleLines :=
  list_groups_in_place sampleLines _
    (holds_splitArrays _ (by decide) (by decide +kernel) (by decide +kernel)) (by decide)

end NetworkSystem.Dfc
