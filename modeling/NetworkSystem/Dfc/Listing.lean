import NetworkSystem.Dfc.Partition
import NetworkSystem.Lib.Fields
import NetworkSystem.Lib.Groups
import NetworkSystem.Strutil

/-! The `list` command of the client: the listings of the servers put together, the names
in them, and which of them are printed as complete. -/

namespace NetworkSystem.Dfc

open Bytes Groups

def BUF_SIZE : Nat := 4096

/-- The bytes of one of the strings in `p`. -/
def LINE_SIZE : Nat := 256

def isSpace (byte : UInt8) : Bool := byte = 32 ∨ (9 ≤ byte ∧ byte ≤ 13)

def isDigit (byte : UInt8) : Bool := 48 ≤ byte ∧ byte ≤ 57

/-- `atoi` of a number that fits an `int`. -/
def atoi (text : Bytes) : Int :=
  let text := text.dropWhile isSpace
  let digits (text : Bytes) : Int := ofDigits (text.takeWhile isDigit)
  if text.head? = some 45 then - digits (text.drop 1)
  else if text.head? = some 43 then digits (text.drop 1)
  else digits text

/-- `parse_partition_name`; `none` where the last dot is missing or comes first. -/
def parsePartitionName (partname : Bytes) : Option (Bytes × Int) :=
  if 46 ∈ partname.drop 1 then
    some ((partname.rdropWhile (· ≠ 46)).dropLast.drop 1, atoi (partname.rtakeWhile (· ≠ 46)))
  else none

/-- `retval[i]` behind the threads of a `list`: a 1, a 0 for a host without a thread, or
the string of `handle_ls`. -/
inductive LsReturn where
  | failed
  | nothing
  | listing (text : Bytes)

/-- The calls of `strcat` into `buffer`. -/
def gather : List LsReturn → Bytes → Option Bytes
  | [], buffer => some buffer
  | .listing text :: rest, buffer =>
      match storeText BUF_SIZE (buffer ++ text) with
      | none => none
      | some buffer => gather rest buffer
  | .failed :: rest, buffer => gather rest buffer
  | .nothing :: rest, buffer => gather rest buffer

/-- The arrays `p`, up to the last line in it, and `count`, and the number of names in
front of them. -/
structure Rows where
  p : List Bytes
  count : List Nat
  j : Nat

/-- The loop over the names found so far, with its `flag`. -/
def markNames (name : Bytes) (bits : Nat) : List Bytes → List Nat → List Nat × Bool
  | head :: names, mask :: count =>
      let (marked, flag) := markNames name bits names count
      if head = name then ((mask ||| bits) :: marked, true) else (mask :: marked, flag)
  | _, count => (count, false)

/-- The body of the loop over the lines. The names take the place of lines that have been
read. -/
def groupLine (rows : Rows) (i : Nat) : Option Rows :=
  match parsePartitionName (rows.p.getD i []) with
  | none => none
  | some (name, pi) =>
      if 0 ≤ pi ∧ pi < 32 then
        let bits := 1 <<< pi.toNat
        let (count, flag) := markNames name bits (rows.p.take rows.j) rows.count
        if flag then some { rows with count }
        else
          some { p := rows.p.set rows.j name
                 count := count.set rows.j (count.getD rows.j 0 ||| bits)
                 j := rows.j + 1 }
      else none

def printed (rows : Rows) : List (Bytes × Bool) :=
  (rows.p.take rows.j).zip ((rows.count.take rows.j).map (fun mask => decide (mask = 15)))

/-- What `main` does with the return values of a `list`; `none` where it runs past one of
its arrays. -/
def listCommand (retvals : List LsReturn) : Option (List (Bytes × Bool)) :=
  match gather retvals [] with
  | none => none
  | some buffer =>
      match storeTokens BUF_SIZE LINE_SIZE ((tokens buffer [10]).filter (· ≠ [])) with
      | none => none
      | some p =>
          ((List.range p.length).foldlM groupLine ⟨p, List.replicate BUF_SIZE 0, 0⟩).map printed

theorem atoi_digits (digits rest : Bytes) (some_ : digits ≠ [])
    (clean : ∀ byte ∈ digits, isDigit byte = true) (stop : rest.head?.map isDigit ≠ some true) :
    atoi (digits ++ rest) = ofDigits digits := by
  obtain ⟨first, later, same⟩ := List.exists_cons_of_ne_nil some_
  have digit : isDigit first = true := clean first (same ▸ List.mem_cons_self)
  have bounds : 48 ≤ first.toNat ∧ first.toNat ≤ 57 := by
    simpa only [isDigit, decide_eq_true_eq, UInt8.le_iff_toNat_le, UInt8.reduceToNat] using digit
  have apart : isSpace first = false ∧ first ≠ 45 ∧ first ≠ 43 := by
    simp only [isSpace, decide_eq_false_iff_not, UInt8.le_iff_toNat_le, ne_eq,
      ← UInt8.toNat_inj, UInt8.reduceToNat]
    omega
  have space : (digits ++ rest).dropWhile isSpace = digits ++ rest := by
    rw [same, List.cons_append, List.dropWhile_cons_of_neg (by rw [apart.1]; exact Bool.false_ne_true)]
  have head : (digits ++ rest).head? = some first := by rw [same]; rfl
  have minus : (digits ++ rest).head? ≠ some 45 := by
    rw [head]
    exact fun equal => apart.2.1 (Option.some.inj equal)
  have plus : (digits ++ rest).head? ≠ some 43 := by
    rw [head]
    exact fun equal => apart.2.2 (Option.some.inj equal)
  have ends : rest.takeWhile isDigit = [] := by
    cases rest with
    | nil => rfl
    | cons byte rest => exact List.takeWhile_cons_of_neg (fun digit => stop (congrArg some digit))
  simp only [atoi, space, minus, plus, ↓reduceIte, List.takeWhile_append_of_pos clean, ends,
    List.append_nil]

theorem atoi_decimal (value : Nat) : atoi (decimal value) = value := by
  have clean : ∀ byte ∈ decimal value, isDigit byte = true := by
    intro byte member
    have range := decimal_bounds value byte member
    simp only [isDigit, decide_eq_true_eq, UInt8.le_iff_toNat_le, UInt8.reduceToNat]
    exact range
  have some_ : decimal value ≠ [] := by
    intro empty
    have digits : Nat.toDigits 10 value = [] := List.map_eq_nil_iff.mp empty
    exact absurd digits (Nat.toDigits_ne_nil)
  have number := atoi_digits (decimal value) [] some_ clean (by simp)
  rwa [List.append_nil, ofDigits_decimal] at number

theorem split_last_dot (front back : Bytes) (clean : 46 ∉ back) :
    (front ++ 46 :: back).rtakeWhile (· ≠ 46) = back ∧
      (front ++ 46 :: back).rdropWhile (· ≠ 46) = front ++ [46] := by
  have others : ∀ byte ∈ back.reverse, decide (byte ≠ 46) = true := by
    intro byte member
    simp only [ne_eq, decide_not, Bool.not_eq_eq_eq_not, Bool.not_true, decide_eq_false_iff_not]
    intro same
    exact clean (same ▸ List.mem_reverse.mp member)
  have turned : (front ++ 46 :: back).reverse = back.reverse ++ 46 :: front.reverse := by simp
  constructor
  · rw [List.rtakeWhile, turned, List.takeWhile_append_of_pos others]
    simp
  · rw [List.rdropWhile, turned, List.dropWhile_append_of_pos others]
    simp

theorem formatInt_natCast (k : Nat) : formatInt (k : Int) = decimal k := by
  have nonneg : ¬ (k : Int) < 0 := by omega
  rw [formatInt, if_neg nonneg, Int.natAbs_natCast]

theorem parsePartitionName_set (name : Bytes) (k : Nat) :
    parsePartitionName (setPartitionName name k) = some (name, (k : Int)) := by
  have shape : setPartitionName name k = (46 :: name) ++ 46 :: decimal k := by
    rw [setPartitionName, formatInt_natCast]
    rfl
  have inside : 46 ∈ (setPartitionName name k).drop 1 := by
    rw [shape]
    exact List.mem_append_right _ List.mem_cons_self
  have split := split_last_dot (46 :: name) (decimal k) (not_mem_decimal k 46 (by decide))
  calc parsePartitionName (setPartitionName name k)
      = some (((46 :: name ++ [46]).dropLast).drop 1, atoi (decimal k)) := by
        rw [parsePartitionName, if_pos inside, shape, split.1, split.2]
    _ = some ((46 :: name).drop 1, (k : Int)) := by rw [List.dropLast_concat, atoi_decimal]
    _ = some (name, (k : Int)) := rfl

/-- The loop over the names adds the number to the group of its name, if there is one. -/
theorem markNames_groups (name : Bytes) (bits : Nat) (groups : List (Bytes × Nat))
    (behind : List Nat) :
    markNames name bits (groups.map Prod.fst) (groups.map Prod.snd ++ behind) =
      ((groups.map (mark name bits)).map Prod.snd ++ behind,
        decide (name ∈ groups.map Prod.fst)) := by
  induction groups with
  | nil => rfl
  | cons group rest ih =>
      simp only [List.map_cons, List.cons_append, markNames, ih, mark]
      by_cases same : group.1 = name
      · simp [same]
      · simp [same, Ne.symm same]

/-- The arrays behind the first `i` lines: the names of the groups in front of the lines
not yet read, and their masks in front of zeros. -/
structure Grouped (lines : List Bytes) (i : Nat) (groups : List (Bytes × Nat)) (rows : Rows) :
    Prop where
  size : rows.p.length = lines.length
  unread : rows.p.drop i = lines.drop i
  names : rows.p.take rows.j = groups.map Prod.fst
  masks : rows.count =
    groups.map Prod.snd ++ List.replicate (BUF_SIZE - groups.length) 0
  found : rows.j = groups.length
  behind : rows.j ≤ i

namespace Grouped

variable {lines : List Bytes} {i : Nat} {groups : List (Bytes × Nat)} {rows : Rows}
  (grouped : Grouped lines i groups rows)

include grouped

theorem line : rows.p.getD i [] = lines.getD i [] := by
  have first := congrArg (fun rest : List Bytes => rest[0]?) grouped.unread
  simp only [List.getElem?_drop, Nat.add_zero] at first
  rw [List.getD_eq_getElem?_getD, List.getD_eq_getElem?_getD, first]

theorem later : rows.p.drop (i + 1) = lines.drop (i + 1) := by
  rw [← List.drop_drop, grouped.unread, List.drop_drop]

theorem marked (name : Bytes) (bits : Nat) :
    Grouped lines (i + 1) (groups.map (mark name bits))
      { rows with count := (groups.map (mark name bits)).map Prod.snd ++
          List.replicate (BUF_SIZE - groups.length) 0 } where
  size := grouped.size
  unread := grouped.later
  names := by
    rw [map_mark_fst]
    exact grouped.names
  masks := by rw [List.length_map]
  found := by
    rw [List.length_map]
    exact grouped.found
  behind := Nat.le_succ_of_le grouped.behind

theorem added (name : Bytes) (bits : Nat) (inside : i < lines.length)
    (few : lines.length ≤ BUF_SIZE) :
    Grouped lines (i + 1) (groups ++ [(name, bits)])
      { p := rows.p.set rows.j name
        count := rows.count.set rows.j (rows.count.getD rows.j 0 ||| bits)
        j := rows.j + 1 } where
  size := by
    rw [List.length_set]
    exact grouped.size
  unread := by
    rw [List.drop_set_of_lt (Nat.lt_succ_of_le grouped.behind)]
    exact grouped.later
  names := by
    have place : rows.j < rows.p.length := by
      have size := grouped.size
      have behind := grouped.behind
      omega
    have front : (rows.p.take rows.j).length = rows.j := by
      rw [List.length_take]
      omega
    rw [List.set_eq_take_append_cons_drop, if_pos place, List.map_append, ← grouped.names]
    rw [List.take_append, front, List.take_take, Nat.min_eq_right (Nat.le_succ _)]
    simp
  masks := by
    have room : BUF_SIZE - groups.length = BUF_SIZE - (groups.length + 1) + 1 := by
      have found := grouped.found
      have behind := grouped.behind
      omega
    have front : (groups.map Prod.snd).length = groups.length := List.length_map _
    have cleared : rows.count =
        groups.map Prod.snd ++ 0 :: List.replicate (BUF_SIZE - (groups.length + 1)) 0 := by
      rw [grouped.masks, room, List.replicate_succ]
    -- No group has had this place before, so its bits are still zero.
    have zero : rows.count.getD rows.j 0 = 0 := by
      rw [cleared, grouped.found, List.getD_append_right _ _ _ _ (by omega), front, Nat.sub_self]
      rfl
    calc rows.count.set rows.j (rows.count.getD rows.j 0 ||| bits)
        = (groups.map Prod.snd ++ 0 :: List.replicate (BUF_SIZE - (groups.length + 1)) 0).set
            groups.length bits := by rw [zero, Nat.zero_or, cleared, grouped.found]
      _ = groups.map Prod.snd ++ bits :: List.replicate (BUF_SIZE - (groups.length + 1)) 0 := by
          rw [List.set_append_right _ _ (by omega), front, Nat.sub_self, List.set_cons_zero]
      _ = _ := by simp
  found := by
    rw [List.length_append, grouped.found]
    rfl
  behind := Nat.succ_le_succ grouped.behind

theorem groupLine (inside : i < lines.length) (few : lines.length ≤ BUF_SIZE) (name : Bytes)
    (k : Nat) (small : k < 32) (shape : lines.getD i [] = setPartitionName name k) :
    ∃ next, Dfc.groupLine rows i = some next ∧
      Grouped lines (i + 1) (add name (1 <<< k) groups) next := by
  have number : (0 : Int) ≤ k ∧ (k : Int) < 32 := by omega
  have marks := markNames_groups name (1 <<< k) groups
    (List.replicate (BUF_SIZE - groups.length) 0)
  rw [← grouped.names, ← grouped.masks] at marks
  simp only [Dfc.groupLine, grouped.line, shape, parsePartitionName_set, number, and_self,
    ↓reduceIte, Int.toNat_natCast, marks]
  by_cases known : name ∈ groups.map Prod.fst
  · rw [add, if_pos known]
    simp only [grouped.names, known, decide_true, ↓reduceIte]
    exact ⟨_, rfl, grouped.marked name (1 <<< k)⟩
  · rw [add, if_neg known]
    simp only [grouped.names, known, decide_false, Bool.false_eq_true, ↓reduceIte]
    rw [map_mark_of_not_mem known, ← grouped.masks]
    exact ⟨_, rfl, grouped.added name (1 <<< k) inside few⟩

end Grouped

def partLine (part : Bytes × Nat) : Bytes := setPartitionName part.1 part.2

def listingText (parts : List (Bytes × Nat)) : Bytes := parts.flatMap (fun part => partLine part ++ [10])

theorem Grouped.nextPart {parts : List (Bytes × Nat)} {m : Nat} {rows : Rows}
    (grouped : Grouped (parts.map partLine) m (collect (parts.take m)) rows)
    (few : parts.length ≤ BUF_SIZE) (small : ∀ part ∈ parts, part.2 < 32) (inside : m < parts.length) :
    ∃ next, Dfc.groupLine rows m = some next ∧
      Grouped (parts.map partLine) (m + 1) (collect (parts.take (m + 1))) next := by
  have place : m < (parts.map partLine).length := by
    rw [List.length_map]
    exact inside
  have line : (parts.map partLine).getD m [] = setPartitionName parts[m].1 parts[m].2 := by
    rw [List.getD_eq_getElem _ _ place, List.getElem_map]
    rfl
  rw [List.take_succ_eq_append_getElem inside, collect_append]
  exact grouped.groupLine place (by rw [List.length_map]; exact few) parts[m].1 parts[m].2
    (small _ (List.getElem_mem _)) line

theorem groupLines (parts : List (Bytes × Nat)) (few : parts.length ≤ BUF_SIZE)
    (small : ∀ part ∈ parts, part.2 < 32) (m : Nat) (bound : m ≤ parts.length) :
    ∃ rows, (List.range m).foldlM groupLine ⟨parts.map partLine, List.replicate BUF_SIZE 0, 0⟩ =
        some rows ∧ Grouped (parts.map partLine) m (collect (parts.take m)) rows := by
  induction m with
  | zero =>
      refine ⟨_, rfl, ?_⟩
      exact ⟨rfl, rfl, rfl, rfl, rfl, Nat.le_refl 0⟩
  | succ m ih =>
      rcases ih (by omega) with ⟨rows, looped, grouped⟩
      rcases grouped.nextPart few small bound with ⟨next, stepped, later⟩
      refine ⟨next, ?_, later⟩
      rw [List.range_succ, List.foldlM_append, looped]
      simp only [Option.bind_eq_bind, Option.bind_some, List.foldlM_cons, List.foldlM_nil, stepped]
      rfl

theorem Grouped.printed {lines : List Bytes} {i : Nat} {groups : List (Bytes × Nat)} {rows : Rows}
    (grouped : Grouped lines i groups rows) :
    Dfc.printed rows = groups.map (fun group => (group.1, decide (group.2 = 15))) := by
  have masks : rows.count.take rows.j = groups.map Prod.snd := by
    have front : (groups.map Prod.snd).length = rows.j := by rw [List.length_map, grouped.found]
    rw [grouped.masks, List.take_left' front]
  calc
    _ = (groups.map Prod.fst).zip ((groups.map Prod.snd).map (fun mask => decide (mask = 15))) := by
      rw [Dfc.printed, grouped.names, masks]
    _ = groups.map (fun group => (group.1, decide (group.2 = 15))) := by
      rw [List.map_map, List.zip_map']
      rfl

/-! The listings put together. -/

def LsReturn.text : LsReturn → Bytes
  | .listing text => text
  | _ => []

theorem gather_eq (retvals : List LsReturn) (buffer : Bytes) (fits : buffer.length < BUF_SIZE) :
    gather retvals buffer = storeText BUF_SIZE (buffer ++ retvals.flatMap LsReturn.text) := by
  induction retvals generalizing buffer with
  | nil =>
      rw [List.flatMap_nil, List.append_nil]
      exact (storeText_eq_some.mpr ⟨fits, rfl⟩).symm
  | cons retval rest ih =>
      rw [List.flatMap_cons]
      cases retval with
      | failed =>
          rw [gather, ih buffer fits]
          rfl
      | nothing =>
          rw [gather, ih buffer fits]
          rfl
      | listing text =>
          simp only [gather, LsReturn.text]
          by_cases room : (buffer ++ text).length < BUF_SIZE
          · have stored : storeText BUF_SIZE (buffer ++ text) = some (buffer ++ text) :=
              storeText_eq_some.mpr ⟨room, rfl⟩
            rw [stored]
            simp only
            rw [ih _ room, List.append_assoc]
          · have none_ : storeText BUF_SIZE (buffer ++ text) = none := if_neg room
            rw [none_]
            symm
            apply if_neg
            simp only [List.length_append] at room ⊢
            omega

theorem newline_not_mem_partLine {part : Bytes × Nat} (clean : 10 ∉ part.1) :
    10 ∉ partLine part := by
  have digits := not_mem_decimal part.2 10 (by decide)
  simp only [partLine, setPartitionName, formatInt_natCast, List.mem_cons, List.mem_append, not_or]
  exact ⟨by decide, clean, by decide, digits⟩

theorem lines_listingText (parts : List (Bytes × Nat)) (clean : ∀ part ∈ parts, 10 ∉ part.1) :
    (tokens (listingText parts) [10]).filter (· ≠ []) = parts.map partLine := by
  have split : ∀ text : Bytes,
      (tokens text [10]).filter (· ≠ []) = Fields.fields (· ∈ [10]) text := by
    intro text
    simp only [tokens]
    split_ifs with empty
    · rw [List.eq_nil_of_length_eq_zero empty]
      rfl
    · rfl
  rw [split]
  induction parts with
  | nil => rfl
  | cons part rest ih =>
      have line : ∀ byte ∈ partLine part, decide (byte ∈ [10]) = false := by
        intro byte member
        simp only [List.mem_singleton, decide_eq_false_iff_not]
        intro same
        exact newline_not_mem_partLine (clean part List.mem_cons_self) (same ▸ member)
      have shape : listingText (part :: rest) = partLine part ++ 10 :: listingText rest := by
        rw [listingText, List.flatMap_cons, List.append_assoc]
        rfl
      have some_ : partLine part ≠ [] := List.cons_ne_nil _ _
      have later := ih (fun other member => clean other (List.mem_cons_of_mem _ member))
      calc Fields.fields (· ∈ [10]) (listingText (part :: rest))
          = Fields.fields (· ∈ [10]) (partLine part) ++
              Fields.fields (· ∈ [10]) (listingText rest) := by
            rw [shape, Fields.fields_append_cons _ _ _ 10 (by decide)]
        _ = [partLine part] ++ rest.map partLine := by
            rw [Fields.fields_single _ _ some_ line, later]
        _ = (part :: rest).map partLine := rfl

/-- The listings stay within `buffer` and the strings of `p`. -/
structure InBuffers (parts : List (Bytes × Nat)) : Prop where
  whole : (listingText parts).length < BUF_SIZE
  lines : ∀ part ∈ parts, (partLine part).length < LINE_SIZE

theorem length_le_listingText (parts : List (Bytes × Nat)) :
    parts.length ≤ (listingText parts).length := by
  induction parts with
  | nil => exact Nat.le_refl 0
  | cons part rest ih =>
      rw [listingText, List.flatMap_cons, List.length_cons, List.length_append, List.length_append,
        List.length_singleton]
      rw [listingText] at ih
      omega

/-- What a `list` prints, if it stays within its arrays. -/
theorem listCommand_eq (retvals : List LsReturn) (parts : List (Bytes × Nat))
    (listed : retvals.flatMap LsReturn.text = listingText parts)
    (clean : ∀ part ∈ parts, 10 ∉ part.1) (small : ∀ part ∈ parts, part.2 < 32) :
    (InBuffers parts → listCommand retvals =
      some ((collect parts).map (fun group => (group.1, decide (group.2 = 15))))) ∧
    (¬ InBuffers parts → listCommand retvals = none) := by
  have text := gather_eq retvals [] (by decide)
  rw [List.nil_append, listed] at text
  rw [listCommand, text]
  constructor
  · intro fits
    have few := length_le_listingText parts
    have whole := fits.whole
    have stored : storeText BUF_SIZE (listingText parts) = some (listingText parts) :=
      storeText_eq_some.mpr ⟨whole, rfl⟩
    have lines : storeTokens BUF_SIZE LINE_SIZE (parts.map partLine) = some (parts.map partLine) := by
      apply storeTokens_eq_some.mpr
      rw [List.length_map, List.forall_mem_map]
      exact ⟨⟨by omega, fits.lines⟩, rfl⟩
    obtain ⟨rows, looped, grouped⟩ := groupLines parts (by omega) small parts.length (Nat.le_refl _)
    rw [List.take_length] at grouped
    simp only [stored, lines_listingText parts clean, lines, List.length_map, looped,
      Option.map_some, grouped.printed]
  · intro other
    by_cases whole : (listingText parts).length < BUF_SIZE
    · have stored : storeText BUF_SIZE (listingText parts) = some (listingText parts) :=
        storeText_eq_some.mpr ⟨whole, rfl⟩
      have lines : storeTokens BUF_SIZE LINE_SIZE (parts.map partLine) = none := by
        apply if_neg
        rw [List.forall_mem_map]
        exact fun both => other ⟨whole, both.2⟩
      simp only [stored, lines_listingText parts clean, lines]
    · have stored : storeText BUF_SIZE (listingText parts) = none := if_neg whole
      simp only [stored]

/-- Every name is printed once, and as complete when all of its partitions are there. -/
structure Reports (nh : Nat) (parts : List (Bytes × Nat)) (output : List (Bytes × Bool)) : Prop where
  once : (output.map Prod.fst).Nodup
  names : ∀ name, name ∈ output.map Prod.fst ↔ ∃ k, (name, k) ∈ parts
  marks : ∀ line ∈ output, line.2 = true ↔ ∀ k < nh, (line.1, k) ∈ parts

/-- With all numbers below `nh`, the first four are all of them only if `nh` is four. -/
theorem four_of_all (nh : Nat) (parts : List (Bytes × Nat)) (bound : ∀ part ∈ parts, part.2 < nh)
    (name : Bytes) (all : ∀ k < nh, (name, k) ∈ parts)
    (four : ∀ k, (name, k) ∈ parts ↔ k < 4) : nh = 4 := by
  have least : ∀ k < nh, k < 4 := fun k small => (four k).mp (all k small)
  have most : 3 < nh := bound (name, 3) ((four 3).mpr (by decide))
  by_contra other
  have excess := least 4 (by omega)
  omega

/-- The fixed mask tells whether the first four partitions are there, and no others. -/
theorem mask_eq_fifteen {parts : List (Bytes × Nat)} {group : Bytes × Nat}
    (member : group ∈ collect parts) : group.2 = 15 ↔ ∀ k, (group.1, k) ∈ parts ↔ k < 4 := by
  have bits := eq_mask_iff group.2 4
  simp only [(collects_collect parts).bits group member] at bits
  exact bits

theorem reports_collect (nh : Nat) (parts : List (Bytes × Nat)) :
    Reports nh parts ((collect parts).map (fun group => (group.1, decide (group.2 = 15)))) ↔
      ∀ name, (∃ k, (name, k) ∈ parts) →
        ((∀ k, (name, k) ∈ parts ↔ k < 4) ↔ ∀ k < nh, (name, k) ∈ parts) := by
  have collects := collects_collect parts
  have names : ((collect parts).map (fun group => (group.1, decide (group.2 = 15)))).map Prod.fst =
      (collect parts).map Prod.fst := by
    rw [List.map_map]
    rfl
  constructor
  · intro reports name present
    obtain ⟨group, member, rfl⟩ := List.mem_map.mp ((collects.names name).mpr present)
    have marked := reports.marks _ (List.mem_map_of_mem member)
    rw [← mask_eq_fifteen member, ← marked, decide_eq_true_eq]
  · intro same
    constructor
    · rw [names]
      exact collects.once
    · intro name
      rw [names]
      exact collects.names name
    · intro line member
      obtain ⟨group, inside, rfl⟩ := List.mem_map.mp member
      have present := (collects.names group.1).mp (List.mem_map_of_mem inside)
      calc
        _ ↔ group.2 = 15 := decide_eq_true_iff
        _ ↔ ∀ k, (group.1, k) ∈ parts ↔ k < 4 := mask_eq_fifteen inside
        _ ↔ ∀ k < nh, (group.1, k) ∈ parts := same group.1 present

theorem reports_iff (nh : Nat) (some_ : 1 ≤ nh) (parts : List (Bytes × Nat))
    (bound : ∀ part ∈ parts, part.2 < nh) :
    Reports nh parts ((collect parts).map (fun group => (group.1, decide (group.2 = 15)))) ↔
      (nh = 4 ∨ ∀ name, ¬ (∀ k < nh, (name, k) ∈ parts) ∧ ¬ (∀ k, (name, k) ∈ parts ↔ k < 4)) := by
  rw [reports_collect]
  constructor
  · intro same
    by_cases four : nh = 4
    · exact Or.inl four
    · right
      intro name
      constructor
      · intro all
        have first := (same name ⟨0, all 0 (by omega)⟩).mpr all
        exact four (four_of_all nh parts bound name all first)
      · intro first
        have all := (same name ⟨0, (first 0).mpr (by decide)⟩).mp first
        exact four (four_of_all nh parts bound name all first)
  · intro exact_ name _
    rcases exact_ with four | none_
    · constructor
      · intro first k small
        exact (first k).mpr (four ▸ small)
      · intro all k
        exact ⟨fun there => four ▸ bound _ there, fun small => all k (four ▸ small)⟩
    · exact iff_of_false (none_ name).2 (none_ name).1

/-- The return value of a host is the listing of some partitions, or none. -/
def Lists (nh : Nat) (retval : LsReturn) (parts : List (Bytes × Nat)) : Prop :=
  retval.text = listingText parts ∧ ∀ part ∈ parts, 10 ∉ part.1 ∧ part.2 < nh

theorem lists_flatten (nh : Nat) (retvals : List LsReturn) (listings : List (List (Bytes × Nat)))
    (listed : List.Forall₂ (Lists nh) retvals listings) :
    retvals.flatMap LsReturn.text = listingText listings.flatten ∧
      ∀ part ∈ listings.flatten, 10 ∉ part.1 ∧ part.2 < nh := by
  induction listed with
  | nil => exact ⟨rfl, fun part member => absurd member List.not_mem_nil⟩
  | @cons retval parts retvals listings head tail ih =>
      constructor
      · calc (retval :: retvals).flatMap LsReturn.text
            = listingText parts ++ listingText listings.flatten := by
              rw [List.flatMap_cons, head.1, ih.1]
          _ = listingText (parts ++ listings.flatten) := List.flatMap_append.symm
          _ = listingText (parts :: listings).flatten := by rw [List.flatten_cons]
      · rw [List.flatten_cons, List.forall_mem_append]
        exact ⟨head.2, ih.2⟩

/-- The `list` command reports rightly exactly when it stays within its arrays, and no
name is there with all partitions or with just the first four, unless these are all. -/
theorem list_completeness (nh : Nat) (some_ : 1 ≤ nh) (most : nh ≤ 32) (retvals : List LsReturn)
    (listings : List (List (Bytes × Nat))) (listed : List.Forall₂ (Lists nh) retvals listings) :
    (∃ output, listCommand retvals = some output ∧ Reports nh listings.flatten output) ↔
      InBuffers listings.flatten ∧ (nh = 4 ∨ ∀ name,
        ¬ (∀ k < nh, (name, k) ∈ listings.flatten) ∧
        ¬ (∀ k, (name, k) ∈ listings.flatten ↔ k < 4)) := by
  rcases lists_flatten nh retvals listings listed with ⟨text, parts⟩
  generalize listings.flatten = all at text parts ⊢
  have bound : ∀ part ∈ all, part.2 < nh := fun part member => (parts part member).2
  have command := listCommand_eq retvals all text (fun part member => (parts part member).1)
    (fun part member => Nat.lt_of_lt_of_le (bound part member) most)
  rw [← reports_iff nh some_ all bound]
  by_cases fits : InBuffers all
  · rw [command.1 fits]
    simp only [Option.some.injEq, exists_eq_left', fits, true_and]
  · rw [command.2 fits]
    simp only [reduceCtorEq, false_and, exists_false, fits]

def sampleListing : Bytes := listingText [(ascii "f", 0)]

theorem list_completeness_one_partition :
    ∃ output, listCommand [.listing sampleListing, .failed] = some output ∧
      Reports 2 [(ascii "f", 0)] output := by
  have listed : List.Forall₂ (Lists 2) [.listing sampleListing, .failed] [[(ascii "f", 0)], []] :=
    .cons ⟨rfl, by decide⟩ (.cons ⟨rfl, by decide⟩ .nil)
  apply (list_completeness 2 (by decide) (by decide) _ _ listed).mpr
  refine ⟨⟨by decide, by decide⟩, Or.inr fun name => ⟨?_, ?_⟩⟩
  · intro all
    have second := all 1 (by decide)
    simp at second
  · intro four
    have second := (four 1).mpr (by decide)
    simp at second

/-- Two partitions of two hosts are printed as incomplete. -/
theorem list_incomplete_on_two_hosts :
    listCommand [.listing (listingText [(ascii "f", 0), (ascii "f", 1)])] = some [(ascii "f", false)] ∧
      ¬ ∃ output, listCommand [.listing (listingText [(ascii "f", 0), (ascii "f", 1)])] = some output ∧
        Reports 2 [(ascii "f", 0), (ascii "f", 1)] output := by
  have printed : listCommand [.listing (listingText [(ascii "f", 0), (ascii "f", 1)])] =
      some [(ascii "f", false)] := by
    decide +kernel
  refine ⟨printed, ?_⟩
  intro reported
  rcases reported with ⟨output, same, reports⟩
  rw [printed] at same
  have mark := reports.marks (ascii "f", false) (by rw [← Option.some.inj same]; decide)
  have complete : ∀ k < 2, (ascii "f", k) ∈ [(ascii "f", 0), (ascii "f", 1)] := by decide
  exact absurd (mark.mpr complete) (by decide)

end NetworkSystem.Dfc
