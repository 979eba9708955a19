import NetworkSystem.Lib.Store
import Mathlib.Algebra.Group.Int.Defs
import Mathlib.Algebra.Group.Nat.Defs
import Mathlib.Algebra.GroupWithZero.Nat
import Mathlib.Data.List.Basic
import Mathlib.Data.List.TakeWhile

/-! Byte strings: little-endian integers, zero-terminated strings and decimal
numerals. -/

namespace NetworkSystem

abbrev Bytes := List UInt8

namespace Bytes

def zeros (count : Nat) : Bytes := List.replicate count 0

theorem getD_zeros (count index : Nat) : (zeros count).getD index 0 = 0 := by
  simp only [zeros, List.getD_eq_getElem?_getD, List.getElem?_replicate]
  split_ifs <;> rfl

/-- `width` bytes of a natural number, least significant first; higher bytes are
dropped. -/
def putLE : Nat → Nat → Bytes
  | 0, _ => []
  | width + 1, value => UInt8.ofNat value :: putLE width (value / 256)

def getLE : Bytes → Nat
  | [] => 0
  | byte :: rest => byte.toNat + 256 * getLE rest

@[simp] theorem length_putLE (width value : Nat) : (putLE width value).length = width := by
  induction width generalizing value with
  | zero => rfl
  | succ width ih => simp only [putLE, List.length_cons, ih]

theorem getLE_putLE (width value : Nat) : getLE (putLE width value) = value % 256 ^ width := by
  induction width generalizing value with
  | zero => simp [putLE, getLE, Nat.mod_one]
  | succ width ih =>
      have low : (UInt8.ofNat value).toNat = value % 256 := by simp
      simp only [putLE, getLE, ih, low]
      rw [Nat.pow_succ, Nat.mul_comm (256 ^ width), Nat.mod_mul]

theorem getLE_putLE_of_lt (width value : Nat) (bound : value < 256 ^ width) :
    getLE (putLE width value) = value := by
  rw [getLE_putLE, Nat.mod_eq_of_lt bound]

theorem getLE_lt (bytes : Bytes) : getLE bytes < 256 ^ bytes.length := by
  induction bytes with
  | nil => exact Nat.one_pos
  | cons byte rest ih =>
      have small := byte.toNat_lt
      rw [getLE, List.length_cons, Nat.pow_succ]
      omega

theorem getLE_zeros (count : Nat) : getLE (zeros count) = 0 := by
  induction count with
  | zero => rfl
  | succ count ih =>
      have unfolded : zeros (count + 1) = 0 :: zeros count := rfl
      rw [unfolded, getLE, ih]
      rfl

/-- The bytes of a string constant; the programs have ASCII ones only. -/
def ascii (constant : String) : Bytes := constant.toList.map (fun c => UInt8.ofNat c.toNat)

/-- The string that starts a buffer: the bytes before its first zero. -/
def cstr (buffer : Bytes) : Bytes := buffer.takeWhile (· ≠ 0)

theorem zero_not_mem_cstr (buffer : Bytes) : 0 ∉ cstr buffer := by
  intro member
  have other := List.mem_takeWhile_imp member
  simp at other

theorem length_cstr_lt (buffer : Bytes) (terminated : 0 ∈ buffer) :
    (cstr buffer).length < buffer.length := by
  induction buffer with
  | nil => cases terminated
  | cons byte rest ih =>
      by_cases zero : byte = 0
      · simp [cstr, zero]
      · have behind : 0 ∈ rest := (List.mem_cons.mp terminated).resolve_left (Ne.symm zero)
        have shorter := ih behind
        simp only [cstr] at shorter ⊢
        rw [List.takeWhile_cons_of_pos (by simpa using zero), List.length_cons, List.length_cons]
        omega

/-- An array with a zero is its string, a zero and the rest. -/
theorem cstr_split (buffer : Bytes) (terminated : 0 ∈ buffer) :
    ∃ rest, buffer = cstr buffer ++ 0 :: rest := by
  induction buffer with
  | nil => cases terminated
  | cons byte buffer ih =>
      by_cases zero : byte = 0
      · refine ⟨buffer, ?_⟩
        rw [zero]
        rfl
      · rcases ih ((List.mem_cons.mp terminated).resolve_left (Ne.symm zero)) with ⟨rest, split⟩
        refine ⟨rest, ?_⟩
        rw [cstr, List.takeWhile_cons_of_pos (by simpa using zero), List.cons_append]
        exact congrArg _ split

theorem cstr_append_cons_zero (front rest : Bytes) : cstr (front ++ 0 :: rest) = cstr front := by
  induction front with
  | nil => rfl
  | cons byte front ih =>
      simp only [cstr] at ih ⊢
      by_cases zero : byte = 0
      · rw [List.cons_append, List.takeWhile_cons_of_neg (by simpa using zero),
          List.takeWhile_cons_of_neg (by simpa using zero)]
      · rw [List.cons_append, List.takeWhile_cons_of_pos (by simpa using zero), ih,
          List.takeWhile_cons_of_pos (by simpa using zero)]

theorem cstr_of_clean {text : Bytes} (clean : 0 ∉ text) : cstr text = text := by
  rw [cstr, List.takeWhile_eq_self_iff]
  intro byte member
  exact decide_eq_true (fun zero => clean (zero ▸ member))

/-- What stands behind an array belongs to its string only when the array has no zero. -/
theorem cstr_append (buffer rest : Bytes) :
    cstr (buffer ++ rest) = if 0 ∈ buffer then cstr buffer else buffer ++ cstr rest := by
  split_ifs with zero
  · rcases cstr_split buffer zero with ⟨behind, split⟩
    conv_lhs => rw [split, List.append_assoc, List.cons_append]
    rw [cstr_append_cons_zero, cstr_of_clean (zero_not_mem_cstr buffer)]
  · rw [cstr, List.takeWhile_append_of_pos]
    · rfl
    · intro byte member
      exact decide_eq_true (fun same => zero (same ▸ member))

theorem cstr_append_zero (text rest : Bytes) (clean : 0 ∉ text) :
    cstr (text ++ 0 :: rest) = text := by
  rw [cstr_append_cons_zero, cstr_of_clean clean]

/-- A string copied over the start of an array, with its final zero; `none` when it runs
past the end. -/
def strcpy (dest text : Bytes) : Option Bytes :=
  if text.length < dest.length then some (text ++ 0 :: dest.drop (text.length + 1)) else none

/-- `count` bytes of a string copied over the start of an array, zeros behind a shorter
string, and none behind another. -/
def strncpy (dest text : Bytes) (count : Nat) : Option Bytes :=
  if count ≤ dest.length then some ((text ++ zeros count).take count ++ dest.drop count) else none

/-- An array with a string in it. -/
structure Terminated (size : Nat) (buffer : Bytes) : Prop where
  size : buffer.length = size
  zero : 0 ∈ buffer

theorem Terminated.strcpy {size : Nat} {dest text : Bytes} (terminated : Terminated size dest)
    (clean : 0 ∉ text) (fits : text.length < size) :
    ∃ copied, Bytes.strcpy dest text = some copied ∧ Terminated size copied ∧ cstr copied = text := by
  have room : text.length < dest.length := terminated.size.symm ▸ fits
  refine ⟨_, if_pos room, ⟨?_, ?_⟩, cstr_append_zero text _ clean⟩
  · rw [List.length_append, List.length_cons, List.length_drop, ← terminated.size]
    omega
  · exact List.mem_append_right _ List.mem_cons_self

theorem cstr_strncpy_zeros {size count : Nat} {text : Bytes} (clean : 0 ∉ text)
    (inside : count ≤ text.length) (fits : count < size) :
    ∃ copied, strncpy (zeros size) text count = some copied ∧ cstr copied = text.take count := by
  have room : count ≤ (zeros size).length := by
    rw [zeros, List.length_replicate]
    omega
  have rest : (zeros size).drop count = 0 :: zeros (size - count - 1) := by
    have positive : size - count = size - count - 1 + 1 := by omega
    rw [zeros, List.drop_replicate, positive, List.replicate_succ]
    rfl
  refine ⟨_, if_pos room, ?_⟩
  rw [List.take_append_of_le_length inside, rest]
  exact cstr_append_zero _ _ (fun member => clean (List.mem_of_mem_take member))

open Store in
theorem cstr_of_load {buffer text : Bytes} {pos : Nat} (clean : 0 ∉ text)
    (found : load buffer pos (text.length + 1) = text ++ [0]) : cstr (buffer.drop pos) = text := by
  have field : load buffer pos (text ++ [0]).length = text ++ [0] := by simpa using found
  have split := drop_of_load field
  rw [split, List.append_assoc]
  exact cstr_append_zero text _ clean

open Store in
theorem cstr_of_getD {buffer text : Bytes} {pos : Nat} (clean : 0 ∉ text)
    (inside : pos + text.length < buffer.length)
    (cells : ∀ index < text.length, buffer.getD (pos + index) 0 = text.getD index 0)
    (behind : buffer.getD (pos + text.length) 0 = 0) : cstr (buffer.drop pos) = text := by
  apply cstr_of_load clean
  have lengths : (load buffer pos (text.length + 1)).length = (text ++ [0]).length := by
    rw [length_load, List.length_append, List.length_singleton]
    omega
  apply ext_getD (0 : UInt8) lengths
  intro index bound
  rw [lengths, List.length_append, List.length_singleton] at bound
  rw [getD_load (0 : UInt8) _ _ _ _ bound]
  by_cases last : index = text.length
  · rw [last, behind, List.getD_append_right _ _ _ _ (Nat.le_refl _), Nat.sub_self]
    rfl
  · rw [cells index (by omega), List.getD_append _ _ _ _ (by omega)]

/-- `%d` of a natural number. -/
def decimal (value : Nat) : Bytes := (Nat.toDigits 10 value).map (fun digit => digit.toUInt8)

theorem digit_bounds (value : Nat) :
    ∀ digit ∈ Nat.toDigits 10 value, 48 ≤ digit.toNat ∧ digit.toNat ≤ 57 := by
  intro digit member
  have isDigit := Nat.isDigit_of_mem_toDigits (by decide) (by decide) member
  simp only [Char.isDigit, Bool.and_eq_true, decide_eq_true_eq, ge_iff_le,
    UInt32.le_iff_toNat_le] at isDigit
  exact isDigit

theorem digit_toNat (value : Nat) (digit : Char) (member : digit ∈ Nat.toDigits 10 value) :
    digit.toUInt8.toNat = digit.toNat := by
  have bounds := digit_bounds value digit member
  change digit.toNat % 256 = digit.toNat
  exact Nat.mod_eq_of_lt (by omega)

theorem decimal_bounds (value : Nat) (byte : UInt8) (member : byte ∈ decimal value) :
    48 ≤ byte.toNat ∧ byte.toNat ≤ 57 := by
  obtain ⟨digit, isDigit, same⟩ := List.mem_map.mp member
  rw [← same, digit_toNat value digit isDigit]
  exact digit_bounds value digit isDigit

theorem not_mem_decimal (value : Nat) (byte : UInt8) (other : byte.toNat < 48) :
    byte ∉ decimal value := by
  intro member
  have bounds := decimal_bounds value byte member
  omega

theorem zero_not_mem_decimal (value : Nat) : 0 ∉ decimal value :=
  not_mem_decimal value 0 (by decide)

private theorem digit_recover (value : Nat) :
    (decimal value).map (fun byte => Char.ofNat byte.toNat) = Nat.toDigits 10 value := by
  have pointwise : ∀ digit ∈ Nat.toDigits 10 value,
      ((fun byte : UInt8 => Char.ofNat byte.toNat) ∘ Char.toUInt8) digit = digit := by
    intro digit member
    simp only [Function.comp_apply, digit_toNat value digit member, Char.ofNat_toNat]
  rw [decimal, List.map_map, List.map_congr_left pointwise, List.map_id']

theorem decimal_injective : Function.Injective decimal := by
  intro first second same
  have digits : Nat.toDigits 10 first = Nat.toDigits 10 second := by
    rw [← digit_recover first, ← digit_recover second, same]
  have values := congrArg (fun digits => Nat.ofDigitChars 10 digits 0) digits
  simpa only [Nat.ofDigitChars_ten_toDigits] using values

def ofDigits (text : Bytes) : Nat :=
  text.foldl (fun value byte => 10 * value + (byte.toNat - 48)) 0

theorem ofDigits_decimal (value : Nat) : ofDigits (decimal value) = value := by
  have digits := Nat.ofDigitChars_ten_toDigits (n := value)
  rw [Nat.ofDigitChars_eq_foldl] at digits
  rw [ofDigits, decimal, List.foldl_map]
  refine Eq.trans (List.foldl_ext _ _ _ ?_) digits
  intro sum digit member
  rw [digit_toNat value digit member]
  rfl

/-- What follows the first occurrence of a mark. -/
def after (mark : Bytes) : Bytes → Option Bytes
  | [] => if mark = [] then some [] else none
  | byte :: rest =>
      if mark.isPrefixOf (byte :: rest) then some ((byte :: rest).drop mark.length)
      else after mark rest

theorem after_line (mark line rest : Bytes) (clean : 10 ∉ line) :
    after (13 :: 10 :: mark) (line ++ 13 :: 10 :: rest) =
      if mark.isPrefixOf rest then some (rest.drop mark.length)
      else after (13 :: 10 :: mark) rest := by
  induction line with
  | nil =>
      simp only [List.nil_append, after, List.isPrefixOf, beq_self_eq_true, Bool.true_and,
        List.length_cons, List.drop_succ_cons]
      rfl
  | cons byte line ih =>
      have tail : 10 ∉ line := fun member => clean (List.mem_cons_of_mem _ member)
      -- Behind `byte` comes another byte of the line or the 13 in front of its end.
      have apart : (13 :: 10 :: mark).isPrefixOf (byte :: (line ++ 13 :: 10 :: rest)) = false := by
        cases line with
        | nil => simp [List.isPrefixOf]
        | cons next line =>
            have other : (10 == next) = false := by
              rw [beq_eq_false_iff_ne]
              intro same
              exact tail (by rw [same]; exact List.mem_cons_self)
            simp [List.isPrefixOf, other]
      rw [List.cons_append, after, apart]
      exact ih tail

theorem after_line_other (mark line rest : Bytes) (clean : 10 ∉ line)
    (other : mark.isPrefixOf rest = false) :
    after (13 :: 10 :: mark) (line ++ 13 :: 10 :: rest) = after (13 :: 10 :: mark) rest := by
  rw [after_line mark line rest clean, other]
  rfl

theorem after_line_found (mark line rest : Bytes) (clean : 10 ∉ line) :
    after (13 :: 10 :: mark) (line ++ 13 :: 10 :: (mark ++ rest)) = some rest := by
  have found : mark.isPrefixOf (mark ++ rest) = true :=
    List.isPrefixOf_iff_prefix.mpr (List.prefix_append mark rest)
  rw [after_line mark line _ clean, found, if_pos rfl, List.drop_left]

end Bytes

end NetworkSystem
