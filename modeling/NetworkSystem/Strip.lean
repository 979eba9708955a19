import NetworkSystem.Lib.Memory
import NetworkSystem.Strutil

/-! `strip` on the bytes of its line: the copy over itself, the pointer that the copy leaves
behind, and the loop that runs back from it. -/

namespace NetworkSystem

open Bytes Memory

/-- One run of the ending loop, on the line and `p`. -/
def clearBody (sep : UInt8) (state : Bytes × Int) : (Bytes × Int) ⊕ Option Bytes :=
  match read state.1 state.2 with
  | none => .inr none
  | some byte =>
      if byte = sep then
        match write state.1 state.2 0 with
        | none => .inr none
        | some line => .inl (line, state.2 - 1)
      else .inr (some state.1)

theorem clearBody_decreases (sep : UInt8) (state next : Bytes × Int)
    (continued : clearBody sep state = .inl next) :
    (next.2 + 1).toNat < (state.2 + 1).toNat := by
  simp only [clearBody] at continued
  cases found : read state.1 state.2 with
  | none =>
      rw [found] at continued
      cases continued
  | some byte =>
      have inside := bounds_of_read found
      simp only [found] at continued
      split_ifs at continued
      cases stored : write state.1 state.2 0 with
      | none =>
          rw [stored] at continued
          cases continued
      | some line =>
          rw [stored] at continued
          rw [← Sum.inl.inj continued]
          change (state.2 - 1 + 1).toNat < _
          omega

/-- `while (*p == sep) { *p = '\0'; p--; }` -/
def clearEnd (line : Bytes) (sep : UInt8) (p : Int) : Option Bytes :=
  Loop.run (clearBody sep) (fun state => (state.2 + 1).toNat) (clearBody_decreases sep) (line, p)

/-- `strip` on the array that the line starts; `none` for an access in front of its first
byte or behind the array. A string of at most one byte leaves `p` where the first loop
left it. -/
def stripLine (line : Bytes) (sep : UInt8) : Option Bytes :=
  match scan line (· = sep) 0 with
  | none => none
  | some p =>
      match strcpy line 0 p with
      | none => none
      | some line =>
          match strlen line with
          | none => none
          | some n => clearEnd line sep (if n > 1 then (n : Int) - 1 else p)

/-- `strip` of `util.c`, which strips blanks. -/
def Udp.stripLine (line : Bytes) : Option Bytes := NetworkSystem.stripLine line 32

theorem clearEnd_stop {line : Bytes} {sep byte : UInt8} {p : Int}
    (found : read line p = some byte) (other : byte ≠ sep) : clearEnd line sep p = some line := by
  have stopped : clearBody sep (line, p) = .inr (some line) := by
    simp only [clearBody, found, other, ↓reduceIte]
  exact Loop.run_return _ _ _ _ _ stopped

/-- The separators behind another byte are overwritten, and that byte ends the loop. -/
theorem clearEnd_separators (front : Bytes) (byte sep : UInt8) (other : byte ≠ sep) (count : Nat)
    (back : Bytes) :
    clearEnd (front ++ byte :: (List.replicate count sep ++ back)) sep
        (front.length + count : Nat) =
      some (front ++ byte :: (zeros count ++ back)) := by
  induction count generalizing back with
  | zero => exact clearEnd_stop (read_append front byte back) other
  | succ count ih =>
      have place : (front.length + (count + 1) : Nat) =
          (front ++ byte :: List.replicate count sep).length := by
        rw [List.length_append, List.length_cons, List.length_replicate]
      have shape : ∀ last : UInt8, front ++ byte :: (List.replicate count sep ++ last :: back) =
          (front ++ byte :: List.replicate count sep) ++ last :: back := by
        intro last
        rw [List.append_assoc, List.cons_append]
      have cleared : clearBody sep
          ((front ++ byte :: List.replicate count sep) ++ sep :: back,
            ((front.length + (count + 1) : Nat) : Int)) =
          .inl (front ++ byte :: (List.replicate count sep ++ 0 :: back),
            ((front.length + count : Nat) : Int)) := by
        rw [place]
        simp only [clearBody, read_append, write_append, ↓reduceIte, shape]
        rw [← place]
        congr 2
        omega
      calc
        _ = clearEnd ((front ++ byte :: List.replicate count sep) ++ sep :: back) sep
              (front.length + (count + 1) : Nat) := by
          rw [List.replicate_succ', List.append_assoc, List.singleton_append, shape sep]
        _ = clearEnd (front ++ byte :: (List.replicate count sep ++ 0 :: back)) sep
              (front.length + count : Nat) :=
          Loop.run_continue _ _ _ _ _ cleared
        _ = some (front ++ byte :: (zeros count ++ 0 :: back)) := ih (0 :: back)
        _ = some (front ++ byte :: (zeros (count + 1) ++ back)) := by
          rw [zeros, zeros, List.replicate_succ', List.append_assoc, List.singleton_append]

/-! A line of leading separators, a text that starts with none, and its final zero. -/

section line

variable (sep : UInt8) (count : Nat) (text rest : Bytes)

/-- The array behind the copy: the text, and what the line had at the places behind it. -/
def shifted : Bytes :=
  text ++ 0 :: (List.replicate count sep ++ (text ++ 0 :: rest)).drop (text.length + 1)

/-- A text of at most one byte is shorter than the separators before it or in front of
them, so that the old place of its start still holds its first byte, its copy or a zero. -/
theorem read_stale (nonzero : sep ≠ 0) (head : text.head? ≠ some sep) (short : ¬ text.length > 1) :
    ∃ byte, read (shifted sep count text rest) count = some byte ∧ byte ≠ sep := by
  cases text with
  | nil =>
      refine ⟨0, ?_, nonzero.symm⟩
      cases count with
      | zero => exact read_append [] 0 _
      | succ count =>
          have found := read_append (0 :: List.replicate count sep) 0 rest
          rwa [List.length_cons, List.length_replicate] at found
  | cons byte text =>
      have single : text = [] := by
        rw [List.length_cons] at short
        exact List.eq_nil_of_length_eq_zero (by omega)
      have other : byte ≠ sep := fun same => head (congrArg some same)
      subst single
      rcases count with - | - | count
      · exact ⟨byte, read_append [] byte _, other⟩
      · exact ⟨0, read_append [byte] 0 _, nonzero.symm⟩
      · refine ⟨byte, ?_, other⟩
        have found := read_append (byte :: 0 :: List.replicate count sep) byte (0 :: rest)
        rwa [List.length_cons, List.length_cons, List.length_replicate] at found

/-- A text that starts with another byte is what is left of it without its last separators,
and those. -/
theorem text_parts (head : text.head? ≠ some sep) (long : text ≠ []) :
    ∃ front byte ending, byte ≠ sep ∧ text.rdropWhile (· = sep) = front ++ [byte] ∧
      text = front ++ byte :: List.replicate ending sep := by
  have whole : text.rdropWhile (· = sep) ++ text.rtakeWhile (· = sep) = text :=
    List.rdropWhile_append_rtakeWhile
  have kept : text.rdropWhile (· = sep) ≠ [] := by
    rw [ne_eq, List.rdropWhile_eq_nil_iff]
    intro all
    cases text with
    | nil => exact long rfl
    | cons byte text => exact head (congrArg some (of_decide_eq_true (all byte List.mem_cons_self)))
  have last := List.rdropWhile_last_not (fun byte => decide (byte = sep)) text kept
  have ending : text.rtakeWhile (· = sep) =
      List.replicate (text.rtakeWhile (· = sep)).length sep := by
    apply List.eq_replicate_of_mem
    intro byte member
    simpa only [decide_eq_true_eq] using List.mem_rtakeWhile_imp member
  refine ⟨_, _, (text.rtakeWhile (· = sep)).length, by simpa using last,
    (List.dropLast_append_getLast kept).symm, ?_⟩
  rw [← ending, ← List.singleton_append, ← List.append_assoc, List.dropLast_append_getLast, whole]

/-- The string behind the ending loop, the zeros in place of its separators, and the array
behind them as it was. -/
theorem clearEnd_shifted (nonzero : sep ≠ 0) (head : text.head? ≠ some sep) :
    ∃ ending, (text.rdropWhile (· = sep)).length + ending = text.length ∧
      clearEnd (shifted sep count text rest) sep
          (if text.length > 1 then (text.length : Int) - 1 else count) =
        some (text.rdropWhile (· = sep) ++ (zeros ending ++
          0 :: (List.replicate count sep ++ (text ++ 0 :: rest)).drop (text.length + 1))) := by
  by_cases long : text.length > 1
  · rcases text_parts sep text head (List.ne_nil_of_length_pos (by omega)) with
      ⟨front, byte, ending, other, kept, parts⟩
    have size : text.length = front.length + 1 + ending := by
      rw [parts, List.length_append, List.length_cons, List.length_replicate]
      omega
    have place : (text.length : Int) - 1 = (front.length + ending : Nat) := by omega
    refine ⟨ending, ?_, ?_⟩
    · rw [kept, size, List.length_append, List.length_singleton]
    · rw [if_pos long, place, kept, shifted]
      generalize
        0 :: (List.replicate count sep ++ (text ++ 0 :: rest)).drop (text.length + 1) = back
      rw [parts, List.append_assoc, List.append_assoc, List.cons_append, List.singleton_append]
      exact clearEnd_separators front byte sep other ending back
  · rcases read_stale sep count text rest nonzero head long with ⟨byte, found, other⟩
    have kept : text.rdropWhile (· = sep) = text := by
      rw [List.rdropWhile_eq_self_iff]
      intro some_ same
      cases text with
      | nil => exact some_ rfl
      | cons first text =>
          have single : text = [] := by
            rw [List.length_cons] at long
            exact List.eq_nil_of_length_eq_zero (by omega)
          subst single
          exact head (congrArg some (of_decide_eq_true same))
    refine ⟨0, by rw [kept, Nat.add_zero], ?_⟩
    rw [if_neg long, kept]
    exact clearEnd_stop found other

theorem stripLine_parts (nonzero : sep ≠ 0) (clean : 0 ∉ text) (head : text.head? ≠ some sep) :
    stripLine (List.replicate count sep ++ (text ++ 0 :: rest)) sep =
      clearEnd (shifted sep count text rest) sep
        (if text.length > 1 then (text.length : Int) - 1 else count) := by
  have first : ∃ stop back, text ++ 0 :: rest = stop :: back ∧ decide (stop = sep) = false := by
    cases text with
    | nil => exact ⟨0, rest, rfl, decide_eq_false nonzero.symm⟩
    | cons byte text =>
        have other : ¬ byte = sep := fun same => head (congrArg some same)
        exact ⟨byte, text ++ 0 :: rest, rfl, decide_eq_false other⟩
  have leading : scan (List.replicate count sep ++ (text ++ 0 :: rest)) (· = sep) 0 =
      some (count : Int) := by
    rcases first with ⟨stop, back, shape, ends⟩
    have all : ∀ byte ∈ List.replicate count sep, decide (byte = sep) = true := by
      intro byte member
      exact decide_eq_true (List.eq_of_mem_replicate member)
    have found := scan_append (fun byte => decide (byte = sep)) [] (List.replicate count sep) stop
      back all ends
    rwa [← shape, List.nil_append, List.length_nil, List.length_replicate, Nat.zero_add] at found
  have copied : strcpy (List.replicate count sep ++ (text ++ 0 :: rest)) 0 count =
      some (shifted sep count text rest) := by
    have moved := strcpy_down [] (List.replicate count sep) text rest clean
    rwa [List.nil_append, List.nil_append, List.length_nil, List.length_replicate,
      Nat.zero_add] at moved
  have size : strlen (shifted sep count text rest) = some text.length :=
    strlen_append text _ clean
  simp only [stripLine, leading, copied, size]

end line

theorem line_parts (line : Bytes) (sep : UInt8) (terminated : 0 ∈ line) :
    ∃ count text rest, line = List.replicate count sep ++ (text ++ 0 :: rest) ∧
      cstr line = List.replicate count sep ++ text ∧ (cstr line).dropWhile (· = sep) = text ∧
      0 ∉ text ∧ text.head? ≠ some sep := by
  rcases cstr_split line terminated with ⟨rest, split⟩
  have clean := zero_not_mem_cstr line
  have leading : (cstr line).takeWhile (· = sep) =
      List.replicate ((cstr line).takeWhile (· = sep)).length sep := by
    apply List.eq_replicate_of_mem
    intro byte member
    simpa only [decide_eq_true_eq] using List.mem_takeWhile_imp member
  have parts : (cstr line).takeWhile (· = sep) ++ (cstr line).dropWhile (· = sep) = cstr line :=
    List.takeWhile_append_dropWhile
  refine ⟨((cstr line).takeWhile (· = sep)).length, (cstr line).dropWhile (· = sep), rest,
    ?_, ?_, rfl, ?_, ?_⟩
  · rw [← leading, ← List.append_assoc, parts]
    exact split
  · rw [← leading, parts]
  · intro member
    exact clean (parts ▸ List.mem_append_right _ member)
  · intro same
    have first := List.head?_dropWhile_not (fun byte => decide (byte = sep)) (cstr line)
    rw [same] at first
    simp at first

/-- What `strip` is for, on an array: its string without the separators at both ends, in
place, and nothing changed behind the old end of the string. -/
def Stripped (line : Bytes) (sep : UInt8) (result : Option Bytes) : Prop :=
  ∃ stripped, result = some stripped ∧ stripped.length = line.length ∧
    cstr stripped = ((cstr line).dropWhile (· = sep)).rdropWhile (· = sep) ∧
    stripped.drop (cstr line).length = line.drop (cstr line).length

theorem stripLine_stripped (line : Bytes) (sep : UInt8) (terminated : 0 ∈ line)
    (nonzero : sep ≠ 0) : Stripped line sep (stripLine line sep) := by
  rcases line_parts line sep terminated with ⟨count, text, rest, shape, string, inner, clean, head⟩
  rcases clearEnd_shifted sep count text rest nonzero head with ⟨ending, size, cleared⟩
  have run := (stripLine_parts sep count text rest nonzero clean head).trans cleared
  rw [← shape] at run
  rw [Stripped, inner, string, List.length_append, List.length_replicate]
  have kept : 0 ∉ text.rdropWhile (· = sep) := by
    intro member
    exact clean ((List.rdropWhile_prefix (fun byte => decide (byte = sep)) text).subset member)
  generalize text.rdropWhile (· = sep) = left at size run kept ⊢
  have room : line.length = count + (text.length + (rest.length + 1)) := by
    rw [shape, List.length_append, List.length_append, List.length_replicate, List.length_cons]
  refine ⟨_, run, ?_, ?_, ?_⟩
  · rw [List.length_append, List.length_append, List.length_cons, List.length_drop, zeros,
      List.length_replicate]
    omega
  · cases ending with
    | zero => exact cstr_append_zero left _ kept
    | succ ending => exact cstr_append_zero left _ kept
  · have front : (left ++ zeros ending).length = text.length := by
      rw [List.length_append, zeros, List.length_replicate, size]
    rw [← List.append_assoc, Nat.add_comm count, ← List.drop_drop, ← front, List.drop_left, front]
    cases count with
    | zero =>
        rw [shape, List.replicate_zero, List.nil_append, List.drop_zero, ← List.drop_drop,
          List.drop_left]
        exact List.drop_left.symm
    | succ count =>
        rw [List.drop_succ_cons, List.drop_drop]
        congr 1
        omega

/-- Both forms of `strip` end with every access inside the line and leave the line without
its separators at both ends. -/
theorem strip_trims (line : Bytes) (terminated : 0 ∈ line) :
    (∀ sep : UInt8, sep ≠ 0 → Stripped line sep (stripLine line sep)) ∧
      Stripped line 32 (Udp.stripLine line) := by
  constructor
  · intro sep nonzero
    exact stripLine_stripped line sep terminated nonzero
  · exact stripLine_stripped line 32 terminated (by decide)

/-- One byte behind blanks: `p` stays at its old place, where the copy leaves it. -/
theorem strip_trims_single :
    stripLine [32, 32, 97, 0] 32 = some [97, 0, 97, 0] ∧
      Stripped [32, 32, 97, 0] 32 (stripLine [32, 32, 97, 0] 32) :=
  ⟨by decide +kernel, (strip_trims [32, 32, 97, 0] (by decide)).1 32 (by decide)⟩

/-- The string functions on lines have the lines as they are in memory, unless the copy
overlaps. -/
theorem stripLine_strip [Overlapping] (line : Bytes) (sep : UInt8) (terminated : 0 ∈ line)
    (nonzero : sep ≠ 0) (apart : ¬ Overlaps (cstr line) sep) :
    (stripLine line sep).map cstr = strip (cstr line) sep := by
  rcases stripLine_stripped line sep terminated nonzero with ⟨stripped, run, -, string, -⟩
  rw [run, Option.map_some, string, strip_of_apart apart, trim_eq]

end NetworkSystem
