import NetworkSystem.Lib.Fields
import NetworkSystem.Stdio
import NetworkSystem.Strutil

/-! The lines of a configuration file, as both programs read them: `fgets` into 128
bytes, the line ending and the spaces taken off, and the rest cut at single blanks. -/

namespace NetworkSystem

open Bytes

/-- What the calls of `fgets` with `size` bytes store, one after the other: up to and
with a LF, but no more than `size - 1` bytes. `front` is what a call has stored so
far. -/
def fgetsAll (size : Nat) : Bytes → Bytes → List Bytes
  | front, [] => if front = [] then [] else [front]
  | front, byte :: rest =>
      if byte = 10 ∨ front.length + 2 = size then (front ++ [byte]) :: fgetsAll size [] rest
      else fgetsAll size (front ++ [byte]) rest

theorem fgetsAll_fits (size : Nat) (room : 1 < size) (front content : Bytes)
    (short : front.length + 1 < size) (single : 10 ∉ front) :
    ∀ piece ∈ fgetsAll size front content, piece.length < size ∧ 10 ∉ piece.dropLast := by
  induction content generalizing front with
  | nil =>
      intro piece member
      simp only [fgetsAll] at member
      split at member
      · cases member
      · rw [List.mem_singleton.mp member]
        exact ⟨by omega, fun inside => single ((List.dropLast_sublist _).subset inside)⟩
  | cons byte rest ih =>
      intro piece member
      simp only [fgetsAll] at member
      split at member
      · cases List.mem_cons.mp member with
        | inl here =>
            rw [here, List.length_append, List.length_singleton, List.dropLast_concat]
            exact ⟨short, single⟩
        | inr later => exact ih [] room List.not_mem_nil piece later
      · rename_i goes
        rw [not_or] at goes
        refine ih (front ++ [byte]) ?_ ?_ piece member
        · rw [List.length_append, List.length_singleton]
          omega
        · simp only [List.mem_append, List.mem_singleton, not_or]
          exact ⟨single, Ne.symm goes.1⟩

theorem trim_sublist (line : Bytes) (sep : UInt8) : (trim line sep).Sublist line := by
  rw [trim_eq]
  exact (List.rdropWhile_prefix _ _).sublist.trans (List.dropWhile_sublist _)

theorem removeEndl_concat (line : Bytes) (single : 10 ∉ line) :
    removeEndl (line ++ [10]) = removeEndl line := by
  have other : line.getLast? ≠ some 10 := fun last => single (List.mem_of_getLast? last)
  simp only [removeEndl, List.getLast?_concat, ↓reduceIte, List.dropLast_concat, other]

theorem lf_not_mem_removeEndl (line : Bytes) (single : 10 ∉ line.dropLast) :
    10 ∉ removeEndl line := by
  rcases List.eq_nil_or_concat line with empty | ⟨front, byte, same⟩
  · rw [empty]
    decide
  · rw [List.concat_eq_append] at same
    rw [same, List.dropLast_concat] at single
    rw [same]
    by_cases ends : byte = 10
    · rw [ends, removeEndl_concat front single]
      exact fun member => single ((removeEndl_front front).subset member)
    · intro member
      cases List.mem_append.mp ((removeEndl_front _).subset member) with
      | inl inside => exact single inside
      | inr last => exact ends (List.mem_singleton.mp last).symm

/-- The string of a line, or of a part of it. -/
@[ext]
structure LineText where
  text : Bytes
  fits : text.length < 128
  clean : 0 ∉ text
  line : 10 ∉ text

def isBlank (byte : UInt8) : Bool := byte ∈ ascii " \t"

namespace LineText

def part (line : LineText) (text : Bytes)
    (inside : text.length ≤ line.text.length ∧ ∀ byte ∈ text, byte ∈ line.text) : LineText where
  text := text
  fits := Nat.lt_of_le_of_lt inside.1 line.fits
  clean := fun member => line.clean (inside.2 0 member)
  line := fun member => line.line (inside.2 10 member)

def cstring (line : LineText) : CString 128 := ⟨line.text, line.fits, line.clean⟩

/-- Some bytes of what a call of `fgets` stored, in their order, the line ending aside. -/
def ofPart (piece : Bytes) (read : piece.length < 128 ∧ 10 ∉ piece.dropLast) (text : Bytes)
    (kept : text.Sublist (removeEndl (cstr piece))) : LineText where
  text := text
  fits :=
    calc text.length
      _ ≤ (removeEndl (cstr piece)).length := kept.length_le
      _ ≤ (cstr piece).length := (removeEndl_front _).length_le
      _ ≤ piece.length := (List.takeWhile_prefix _).length_le
      _ < 128 := read.1
  clean := fun member => by
    have inside := (removeEndl_front _).subset (kept.subset member)
    simpa using List.mem_takeWhile_imp inside
  line := fun member => by
    have shorter : (cstr piece).dropLast <+: piece.dropLast := by
      refine List.prefix_of_prefix_length_le ((List.dropLast_prefix _).trans
        (List.takeWhile_prefix _)) (List.dropLast_prefix _) ?_
      rw [List.length_dropLast, List.length_dropLast]
      exact Nat.sub_le_sub_right (List.takeWhile_prefix _).length_le 1
    exact lf_not_mem_removeEndl (cstr piece) (fun inside => read.2 (shorter.subset inside))
      (kept.subset member)

theorem kept_of_stripApart {piece text : Bytes}
    (left : stripApart (removeEndl (cstr piece)) 32 = some text) :
    text.Sublist (removeEndl (cstr piece)) := by
  rw [← (stripApart_eq_some.mp left).2]
  exact trim_sublist _ _

/-- `remove_endl` and `strip(buf, ' ')` on what a call of `fgets` stored. -/
def ofPiece (piece : Bytes) (read : piece.length < 128 ∧ 10 ∉ piece.dropLast) : Option LineText :=
  (stripApart (removeEndl (cstr piece)) 32).pmap (ofPart piece read)
    (fun _ left => kept_of_stripApart left)

/-- The same, where the copy does not overlap. -/
def trimmed (piece : Bytes) (read : piece.length < 128 ∧ 10 ∉ piece.dropLast) : LineText :=
  ofPart piece read (trim (removeEndl (cstr piece)) 32) (trim_sublist _ _)

theorem ofPiece_eq (piece : Bytes) (read : piece.length < 128 ∧ 10 ∉ piece.dropLast) :
    ofPiece piece read =
      if Overlaps (removeEndl (cstr piece)) 32 then none else some (trimmed piece read) := by
  rw [ofPiece]
  split_ifs with overlaps
  · have none_ : stripApart (removeEndl (cstr piece)) 32 = none := if_pos overlaps
    simp only [none_, Option.pmap_none]
  · have left : stripApart (removeEndl (cstr piece)) 32 = some (trim (removeEndl (cstr piece)) 32) :=
      if_neg overlaps
    simp only [left, Option.pmap_some]
    rfl

def ofPieces : (pieces : List Bytes) →
    (∀ piece ∈ pieces, piece.length < 128 ∧ 10 ∉ piece.dropLast) → Option (List LineText)
  | [], _ => some []
  | piece :: rest, read =>
      match ofPiece piece (read piece List.mem_cons_self) with
      | none => none
      | some line =>
          (ofPieces rest (fun piece member => read piece (List.mem_cons_of_mem _ member))).map
            (line :: ·)

theorem ofPieces_eq (pieces : List Bytes)
    (read : ∀ piece ∈ pieces, piece.length < 128 ∧ 10 ∉ piece.dropLast) :
    ofPieces pieces read =
      if ∀ piece ∈ pieces, ¬ Overlaps (removeEndl (cstr piece)) 32 then
        some (pieces.pmap trimmed read) else none := by
  induction pieces with
  | nil => simp [ofPieces]
  | cons piece rest ih =>
      rw [List.forall_mem_cons] at read
      simp only [ofPieces, ofPiece_eq, List.forall_mem_cons, List.pmap_cons, ih read.2]
      by_cases overlaps : Overlaps (removeEndl (cstr piece)) 32
      · simp only [overlaps, ↓reduceIte, not_true_eq_false, false_and]
      · simp only [overlaps, ↓reduceIte, not_false_eq_true, true_and]
        split_ifs <;> rfl

theorem inside_tokens (line : LineText) :
    ∀ token ∈ NetworkSystem.tokens line.text (ascii " \t"),
      token.length ≤ line.text.length ∧ ∀ byte ∈ token, byte ∈ line.text := by
  intro token member
  rw [NetworkSystem.tokens] at member
  split at member
  · cases member
  · exact Fields.mem_piece _ line.text token member

/-- The strings that a line is cut into at its blanks. -/
def tokens (line : LineText) : List LineText :=
  (NetworkSystem.tokens line.text (ascii " \t")).pmap line.part line.inside_tokens

theorem tokens_text (line : LineText) :
    line.tokens.map text = NetworkSystem.tokens line.text (ascii " \t") := by
  rw [tokens, List.map_pmap]
  change List.pmap (fun token _ => token) _ _ = _
  rw [List.pmap_eq_map, List.map_id']

theorem tokens_eq_cons (line : LineText) (some_ : line.text ≠ []) :
    ∃ name args, line.tokens = name :: args ∧
      name.text = line.text.takeWhile (fun byte => !isBlank byte) := by
  obtain ⟨tail, cut⟩ := Fields.splitOnP_eq_takeWhile_cons isBlank line.text
  have texts := line.tokens_text
  have long : ¬ line.text.length = 0 := by rwa [List.length_eq_zero_iff]
  rw [NetworkSystem.tokens, if_neg long] at texts
  change line.tokens.map text = line.text.splitOnP isBlank at texts
  rw [cut] at texts
  obtain ⟨name, args, same, name_, -⟩ := List.map_eq_cons_iff.mp texts
  exact ⟨name, args, same, name_⟩

theorem trimmed_text (pieces : List Bytes)
    (read : ∀ piece ∈ pieces, piece.length < 128 ∧ 10 ∉ piece.dropLast) :
    (pieces.pmap trimmed read).map text =
      pieces.map (fun piece => trim (removeEndl (cstr piece)) 32) := by
  rw [List.map_pmap]
  change List.pmap (fun piece _ => trim (removeEndl (cstr piece)) 32) _ _ = _
  rw [List.pmap_eq_map]

end LineText

/-- The lines as a loop over `fgets(buf, 128, fp)` finds them in `buf`; `none` when a copy
of `strip` overlaps. -/
def readLines (content : Bytes) : Option (List LineText) :=
  LineText.ofPieces (fgetsAll 128 [] content)
    (fgetsAll_fits 128 (by decide) [] content (by decide) List.not_mem_nil)

def trimmedLines (content : Bytes) : List LineText :=
  (fgetsAll 128 [] content).pmap LineText.trimmed
    (fgetsAll_fits 128 (by decide) [] content (by decide) List.not_mem_nil)

def textLines (content : Bytes) : List Bytes :=
  (content.splitOn 10).map (fun line => removeEndl (cstr line))

/-- The lines cut into blocks of 127 bytes, each of them with its own ending. -/
def cutLines (content : Bytes) : List Bytes :=
  ((content.splitOn 10).flatMap (Fields.blocks 127 [])).map (fun piece => removeEndl (cstr piece))

/-- No space stands in front of a line, or more of them than there are bytes behind. -/
def LinesApart (content : Bytes) : Prop := ∀ line ∈ cutLines content, ¬ Overlaps line 32

instance : DecidablePred LinesApart :=
  fun content => inferInstanceAs (Decidable (∀ line ∈ cutLines content, _))

def LinesFit (content : Bytes) : Prop := ∀ line ∈ content.splitOn 10, line.length < 127

def words (line : Bytes) : List Bytes := Fields.fields isBlank line

/-- The first character that is no space. -/
def lead (line : Bytes) : Option UInt8 := line.find? (· ≠ 32)

theorem removeEndl_cstr_concat (line : Bytes) (single : 10 ∉ line) :
    removeEndl (cstr (line ++ [10])) = removeEndl (cstr line) := by
  by_cases zero : 0 ∈ line
  · obtain ⟨front, back, same, clean⟩ := List.eq_append_cons_of_mem zero
    rw [same, List.append_assoc, List.cons_append, cstr_append_zero _ _ clean,
      cstr_append_zero _ _ clean]
  · have whole : ∀ byte ∈ line, decide (byte ≠ 0) = true := by
      intro byte member
      simpa using fun same : byte = 0 => zero (same ▸ member)
    have ends : cstr (line ++ [10]) = line ++ [10] := by
      rw [cstr, List.takeWhile_append_of_pos whole]
      rfl
    rw [ends, cstr, List.takeWhile_eq_self_iff.mpr whole]
    exact removeEndl_concat line single

section

variable {β : Type} (make : Bytes → Option β) (empty : make [] = none)

include empty in
/-- `fgets` cuts a line into blocks; the LF behind the last one makes no difference. -/
theorem fgetsAll_line (unended : ∀ piece, 10 ∉ piece → make (piece ++ [10]) = make piece)
    (size : Nat) (front line rest : Bytes) (clean : 10 ∉ front) (single : 10 ∉ line) :
    (fgetsAll (size + 1) front (line ++ 10 :: rest)).filterMap make =
      (Fields.blocks size front line).filterMap make ++
        (fgetsAll (size + 1) [] rest).filterMap make := by
  induction line generalizing front with
  | nil =>
      rw [List.nil_append, fgetsAll, if_pos (Or.inl rfl), List.filterMap_cons, unended front clean,
        Fields.blocks]
      cases front with
      | nil =>
          rw [empty]
          rfl
      | cons byte front =>
          rw [List.isEmpty_cons, if_neg Bool.false_ne_true, List.filterMap_cons, List.filterMap_nil]
          cases make (byte :: front) <;> rfl
  | cons byte line ih =>
      rw [List.mem_cons, not_or] at single
      rw [List.cons_append, fgetsAll, Fields.blocks]
      by_cases full : front.length + 1 = size
      · rw [if_pos (Or.inr (congrArg Nat.succ full)), if_pos full, List.filterMap_cons,
          List.filterMap_cons, ih [] List.not_mem_nil single.2]
        cases make (front ++ [byte]) <;> rfl
      · have goes : ¬ (byte = 10 ∨ front.length + 2 = size + 1) := by
          rw [not_or]
          exact ⟨Ne.symm single.1, by omega⟩
        rw [if_neg goes, if_neg full, ih (front ++ [byte]) (by
          simp only [List.mem_append, List.mem_singleton, not_or]
          exact ⟨clean, single.1⟩) single.2]

theorem fgetsAll_last (size : Nat) (front line : Bytes) (single : 10 ∉ line) :
    fgetsAll (size + 1) front line = Fields.blocks size front line := by
  induction line generalizing front with
  | nil => simp only [fgetsAll, Fields.blocks, List.isEmpty_iff]
  | cons byte line ih =>
      rw [List.mem_cons, not_or] at single
      have same : byte = 10 ∨ front.length + 2 = size + 1 ↔ front.length + 1 = size := by
        rw [or_iff_right (Ne.symm single.1)]
        omega
      simp only [fgetsAll, Fields.blocks, same, ih _ single.2]

include empty in
/-- `fgets` reads the lines cut. What is made of a line must make nothing of an empty
one. -/
theorem fgetsAll_filterMap (content : Bytes) :
    (fgetsAll 128 [] content).filterMap (fun piece => make (removeEndl (cstr piece))) =
      (cutLines content).filterMap make := by
  rw [cutLines, List.filterMap_map]
  induction content using Fields.pieces_induction (10 : UInt8) with
  | last piece single =>
      rw [List.splitOn_eq_singleton single, fgetsAll_last 127 [] piece single,
        List.flatMap_singleton]
      rfl
  | more piece rest single ih =>
      have line := fgetsAll_line (fun piece => make (removeEndl (cstr piece))) empty
        (fun piece single => by rw [removeEndl_cstr_concat piece single]) 127 [] piece rest
        List.not_mem_nil single
      rw [List.splitOn_append_cons_self_of_not_mem single, line, ih, List.flatMap_cons,
        List.filterMap_append]
      rfl

include empty in
theorem trimmedLines_filterMap (content : Bytes) :
    (trimmedLines content).filterMap (fun line => make line.text) =
      (cutLines content).filterMap (fun line => make (trim line 32)) :=
  calc (trimmedLines content).filterMap (fun line => make line.text)
    _ = ((trimmedLines content).map LineText.text).filterMap make := by
        rw [List.filterMap_map]
        rfl
    _ = (fgetsAll 128 [] content).filterMap
          (fun piece => make (trim (removeEndl (cstr piece)) 32)) := by
        rw [trimmedLines, LineText.trimmed_text, List.filterMap_map]
        rfl
    _ = (cutLines content).filterMap (fun line => make (trim line 32)) :=
        fgetsAll_filterMap (fun line => make (trim line 32)) empty content

include empty in
theorem cutLines_filterMap (content : Bytes) (whole : LinesFit content) :
    (cutLines content).filterMap make = (textLines content).filterMap make := by
  rw [LinesFit] at whole
  rw [cutLines, textLines]
  generalize content.splitOn 10 = lines at whole
  induction lines with
  | nil => rfl
  | cons line lines ih =>
      rw [List.forall_mem_cons] at whole
      rw [List.flatMap_cons, Fields.blocks_short 127 [] line (by simpa using whole.1),
        List.map_append, List.filterMap_append, ih whole.2, List.map_cons, List.filterMap_cons,
        List.nil_append]
      cases line with
      | nil =>
          have nothing : removeEndl (cstr []) = [] := rfl
          rw [nothing, empty]
          rfl
      | cons byte line =>
          rw [List.isEmpty_cons, if_neg Bool.false_ne_true, List.map_singleton, List.filterMap_cons,
            List.filterMap_nil]
          cases make (removeEndl (cstr (byte :: line))) <;> rfl

variable (holds : Bytes → Prop) [DecidablePred holds]

theorem forall_iff_of_filterMap {γ δ : Type} (one : List γ) (two : List δ) (f : γ → Bytes)
    (g : δ → Bytes) (same : one.filterMap (fun line => if holds (f line) then none else some ()) =
      two.filterMap (fun line => if holds (g line) then none else some ())) :
    (∀ line ∈ one, holds (f line)) ↔ ∀ line ∈ two, holds (g line) := by
  have failing : (∀ line ∈ one, holds (f line)) ↔
      one.filterMap (fun line => if holds (f line) then none else some ()) = [] := by
    simp only [List.filterMap_eq_nil_iff, ite_eq_left_iff, reduceCtorEq, imp_false, not_not]
  rw [failing, same]
  simp only [List.filterMap_eq_nil_iff, ite_eq_left_iff, reduceCtorEq, imp_false, not_not]

theorem fgetsAll_forall (blank : holds []) (content : Bytes) :
    (∀ piece ∈ fgetsAll 128 [] content, holds (removeEndl (cstr piece))) ↔
      ∀ line ∈ cutLines content, holds line :=
  forall_iff_of_filterMap holds _ _ (fun piece => removeEndl (cstr piece)) id
    (fgetsAll_filterMap (fun text => if holds text then none else some ()) (if_pos blank) content)

theorem trimmedLines_forall (blank : holds []) (content : Bytes) :
    (∀ line ∈ trimmedLines content, holds line.text) ↔
      ∀ line ∈ cutLines content, holds (trim line 32) :=
  forall_iff_of_filterMap holds _ _ LineText.text (trim · 32)
    (trimmedLines_filterMap (fun text => if holds text then none else some ()) (if_pos blank) content)

theorem cutLines_forall (blank : holds []) (content : Bytes) (whole : LinesFit content) :
    (∀ line ∈ cutLines content, holds line) ↔ ∀ line ∈ textLines content, holds line :=
  forall_iff_of_filterMap holds _ _ id id
    (cutLines_filterMap (fun text => if holds text then none else some ()) (if_pos blank) content
      whole)

end

theorem readLines_eq (content : Bytes) :
    readLines content = if LinesApart content then some (trimmedLines content) else none := by
  have apart := fgetsAll_forall (fun line => ¬ Overlaps line 32) (by decide) content
  rw [readLines, LineText.ofPieces_eq]
  exact if_congr apart rfl rfl

theorem tokens_words (line : LineText) :
    (line.tokens.map LineText.text).filter (· ≠ []) = words line.text := by
  rw [line.tokens_text, tokens, words]
  split_ifs with empty
  · rw [List.length_eq_zero_iff.mp empty, Fields.fields_nil, List.filter_nil]
  · rfl

theorem words_trim (line : Bytes) : words (trim line 32) = words line := by
  have blanks : ∀ byte : UInt8, decide (byte = 32) = true → isBlank byte = true := by
    intro byte space
    rw [of_decide_eq_true space]
    decide
  rw [trim_eq, words, Fields.fields_rdropWhile isBlank _ blanks,
    Fields.fields_dropWhile isBlank _ blanks, words]

theorem lead_ne_space (line : Bytes) : lead line ≠ some 32 := by
  intro space
  simpa using List.find?_some space

theorem lead_cons (byte : UInt8) (rest : Bytes) (other : byte ≠ 32) :
    lead (byte :: rest) = some byte :=
  List.find?_cons_of_pos (by simpa using other)

theorem head_trim (line : Bytes) : (trim line 32).head? = lead line := by
  have front : lead line = (line.dropWhile (· = 32)).head? := by
    rw [lead, List.find?_eq_head?_dropWhile_not]
    simp only [ne_eq, decide_not, Bool.not_not]
  rw [trim_eq, front]
  cases begins : line.dropWhile (· = 32) with
  | nil => rfl
  | cons byte rest =>
      rw [begins, List.head?_cons] at front
      have other : ¬ decide (byte = 32) = true := by
        intro space
        rw [of_decide_eq_true space] at front
        exact lead_ne_space line front
      cases ends : (byte :: rest).rdropWhile (· = 32) with
      | nil =>
          rw [List.rdropWhile_eq_nil_iff] at ends
          exact absurd (ends byte List.mem_cons_self) other
      | cons first inner =>
          have same := List.rdropWhile_prefix (· = 32) (byte :: rest)
          rw [ends, List.cons_prefix_cons] at same
          rw [same.1]
          rfl

theorem lead_trim (line : Bytes) : lead (trim line 32) = lead line := by
  rw [← head_trim line]
  cases front : trim line 32 with
  | nil => rfl
  | cons byte rest =>
      have head := head_trim line
      rw [front, List.head?_cons] at head
      apply lead_cons byte rest
      intro space
      rw [space] at head
      exact lead_ne_space line head.symm

theorem trimmedLines_head (content : Bytes) (line : LineText)
    (member : line ∈ trimmedLines content) : line.text.head? = lead line.text := by
  obtain ⟨piece, inside, same⟩ := List.mem_pmap.mp member
  rw [← same, LineText.trimmed, LineText.ofPart, head_trim, lead_trim]

theorem isBlank_lead (line : Bytes) (byte : UInt8) (front : lead line = some byte)
    (tab : byte ≠ 9) : isBlank byte = false := by
  rw [isBlank, decide_eq_false_iff_not]
  intro blank
  have cases_ : byte = 32 ∨ byte = 9 := by simpa [ascii] using blank
  cases cases_ with
  | inl space => exact lead_ne_space line (space ▸ front)
  | inr same => exact tab same

theorem words_of_lead_none (line : Bytes) (blank : lead line = none) : words line = [] := by
  have front := head_trim line
  rw [blank, List.head?_eq_none_iff] at front
  rw [← words_trim, front, words, Fields.fields_nil]

theorem head_behind_blanks (line : Bytes) (byte : UInt8) (front : lead line = some byte)
    (field : isBlank byte = false) : (line.dropWhile isBlank).head? = some byte := by
  induction line with
  | nil => cases front
  | cons a rest ih =>
      by_cases space : a = 32
      · rw [List.dropWhile_cons_of_pos (by rw [space]; rfl)]
        apply ih
        rw [← front, lead, lead, List.find?_cons_of_neg (by simpa using space)]
      · rw [lead_cons a rest space, Option.some.injEq] at front
        rw [front, List.dropWhile_cons_of_neg (by rw [field]; exact Bool.false_ne_true)]
        rfl

theorem head_words (line first : Bytes) (later : List Bytes) (byte : UInt8)
    (front : lead line = some byte) (field : isBlank byte = false)
    (cut : words line = first :: later) : first.head? = some byte := by
  rw [Fields.head_fields isBlank line first later cut, head_behind_blanks line byte front field]

theorem words_ne_nil (line : Bytes) (byte : UInt8) (front : lead line = some byte)
    (tab : byte ≠ 9) : words line ≠ [] := by
  have begins := head_trim line
  rw [front] at begins
  obtain ⟨rest, same⟩ := List.head?_eq_some_iff.mp begins
  obtain ⟨tail, pieces⟩ := Fields.splitOnP_eq_takeWhile_cons isBlank (byte :: rest)
  rw [← words_trim, same, words, Fields.fields, pieces,
    List.takeWhile_cons_of_pos (by rw [isBlank_lead line byte front tab]; rfl),
    List.filter_cons_of_pos (by simp)]
  exact List.cons_ne_nil _ _

end NetworkSystem
