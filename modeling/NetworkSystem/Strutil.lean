import NetworkSystem.Lib.Bytes
import Mathlib.Data.List.DropRight

/-! `strutil.c`, which the programs share: the string functions on a line, and strings
that are stored into arrays. -/

namespace NetworkSystem

open Bytes

/-- A string in an array of `size` bytes, without its final zero. -/
structure CString (size : Nat) where
  text : Bytes
  fits : text.length < size
  clean : 0 ∉ text

/-- `strcpy` or `strcat` that leaves `text` in an array of `size` bytes; `none` when the
text or its final zero runs past the end. -/
def storeText (size : Nat) (text : Bytes) : Option Bytes :=
  if text.length < size then some text else none

theorem storeText_eq_some {size : Nat} {text stored : Bytes} :
    storeText size text = some stored ↔ text.length < size ∧ text = stored := by
  simp only [storeText]
  split_ifs with fits
  · simp only [Option.some.injEq, fits, true_and]
  · simp only [fits, false_and]

def removeEndl (line : Bytes) : Bytes :=
  let line := if line.getLast? = some 10 then line.dropLast else line
  if line.getLast? = some 13 then line.dropLast else line

theorem removeEndl_front (line : Bytes) : removeEndl line <+: line := by
  simp only [removeEndl]
  split_ifs
  · exact (List.dropLast_prefix _).trans (List.dropLast_prefix _)
  · exact List.dropLast_prefix _
  · exact List.dropLast_prefix _
  · exact List.prefix_refl _

/-- A line without its separators at both ends. Behind the leading ones a line of one byte
has no ending ones. -/
def trim (line : Bytes) (sep : UInt8) : Bytes :=
  let line := line.dropWhile (· = sep)
  if line.length > 1 then line.rdropWhile (· = sep) else line

theorem trim_eq (line : Bytes) (sep : UInt8) :
    trim line sep = (line.dropWhile (· = sep)).rdropWhile (· = sep) := by
  simp only [trim]
  split_ifs with longer
  · rfl
  · cases front : line.dropWhile (· = sep) with
    | nil => rfl
    | cons byte rest =>
        have single : rest = [] := by
          rw [front, List.length_cons] at longer
          exact List.eq_nil_of_length_eq_zero (by omega)
        have other : ¬ byte = sep := by
          have head := List.head_dropWhile_not (fun byte => decide (byte = sep)) (l := line)
            (by rw [front]; exact List.cons_ne_nil _ _)
          simpa only [front, List.head_cons, decide_eq_false_iff_not] using head
        rw [single, List.rdropWhile_singleton, if_neg (by simpa using other)]

theorem length_trim_le (line : Bytes) (sep : UInt8) : (trim line sep).length ≤ line.length := by
  rw [trim_eq]
  exact ((List.rdropWhile_prefix _ _).sublist.trans (List.dropWhile_sublist _)).length_le

/-- `strcpy(line, p)` in `strip` moves bytes onto others that it reads: separators lead, but no
more of them than there are bytes behind, the zero not counted. Where none leads, every byte is
copied to its own place. -/
def Overlaps (line : Bytes) (sep : UInt8) : Prop :=
  0 < (line.takeWhile (· = sep)).length ∧
    (line.takeWhile (· = sep)).length ≤ (line.dropWhile (· = sep)).length

instance (line : Bytes) (sep : UInt8) : Decidable (Overlaps line sep) :=
  inferInstanceAs (Decidable (_ ∧ _))

/-- What `strip` makes of a line whose `strcpy` overlaps. C leaves that open, up to the
extent of the line; `none` stands for a run of which nothing is known. -/
class Overlapping where
  strip : Bytes → UInt8 → Option Bytes
  short : ∀ line sep, ∀ text ∈ strip line sep, text.length ≤ line.length

/-- Nothing is known of any such run. -/
@[reducible] def Overlapping.undefined : Overlapping := ⟨fun _ _ => none, by simp⟩

/-- A C library that leaves some letters in the line. -/
class Letters where
  letters : Bytes → UInt8 → Bytes

instance [Letters] : Overlapping where
  strip line sep := some ((Letters.letters line sep).take line.length)
  short line sep text left := by
    rw [← Option.some.inj left, List.length_take]
    exact Nat.min_le_left _ _

@[reducible] def Letters.forward : Letters := ⟨trim⟩

def strip [Overlapping] (line : Bytes) (sep : UInt8) : Option Bytes :=
  if Overlaps line sep then Overlapping.strip line sep else some (trim line sep)

theorem strip_of_apart [Overlapping] {line : Bytes} {sep : UInt8} (apart : ¬ Overlaps line sep) :
    strip line sep = some (trim line sep) :=
  if_neg apart

theorem length_strip_le [Overlapping] {line text : Bytes} {sep : UInt8}
    (left : strip line sep = some text) : text.length ≤ line.length := by
  rw [strip] at left
  split_ifs at left with overlaps
  · exact Overlapping.short line sep text left
  · rw [← Option.some.inj left]
    exact length_trim_le line sep

theorem strip_isSome [Letters] (line : Bytes) (sep : UInt8) : (strip line sep).isSome = true := by
  rw [strip]
  split_ifs <;> rfl

/-- `strip` where an overlapping copy has no result. -/
def stripApart (line : Bytes) (sep : UInt8) : Option Bytes := @strip .undefined line sep

theorem stripApart_eq_some {line text : Bytes} {sep : UInt8} :
    stripApart line sep = some text ↔ ¬ Overlaps line sep ∧ trim line sep = text := by
  have body : stripApart line sep = if Overlaps line sep then none else some (trim line sep) := rfl
  rw [body]
  split_ifs with overlaps
  · simp [overlaps]
  · simp [overlaps]

/-- The tokens that `strsep` cuts off a line, the empty ones included. -/
def tokens (str sep : Bytes) : List Bytes :=
  if str.length = 0 then [] else str.splitOnP (· ∈ sep)

theorem tokens_single (str : Bytes) (sep : UInt8) :
    tokens str [sep] = if str = [] then [] else str.splitOn sep := by
  have same : (fun byte => decide (byte ∈ [sep])) = (fun byte => byte == sep) := by
    funext byte
    rw [Bool.beq_eq_decide_eq]
    simp only [List.mem_singleton]
  rw [tokens, same, List.splitOn_eq_splitOnP]
  simp only [List.length_eq_zero_iff]

/-- The texts in front of the first `sep` and behind it. -/
def splitFirst (str : Bytes) (sep : UInt8) : Bytes × Bytes :=
  (str.takeWhile (· ≠ sep), (str.dropWhile (· ≠ sep)).drop 1)

/-- `tolower` in the C locale. -/
def toLower (byte : UInt8) : UInt8 := if 65 ≤ byte ∧ byte ≤ 90 then byte + 32 else byte

def lower (str : Bytes) : Bytes := str.map toLower

/-- The copies of `split` into the first of `count` arrays of `size` bytes. -/
def storeTokens (count size : Nat) (found : List Bytes) : Option (List Bytes) :=
  if found.length ≤ count ∧ ∀ token ∈ found, token.length < size then some found else none

theorem storeTokens_eq_some {count size : Nat} {found stored : List Bytes} :
    storeTokens count size found = some stored ↔
      (found.length ≤ count ∧ ∀ token ∈ found, token.length < size) ∧ found = stored := by
  simp only [storeTokens]
  split_ifs with fits
  · simp only [Option.some.injEq, iff_and_self]
    exact fun _ => fits
  · simp only [fits, false_and]

end NetworkSystem
