import Mathlib.Tactic.Common
import Mathlib.Data.List.GetD

/-! Cells addressed by position: reading a range, writing a range, and what a
sequence of writes leaves behind. A file and a memory buffer are both such
stores; a write past the end fills the gap. -/

namespace NetworkSystem.Store

variable {α : Type} (fill : α)

def load (cells : List α) (pos count : Nat) : List α := (cells.drop pos).take count

/-- Writing nothing changes nothing, wherever it is written. -/
def store (cells : List α) (pos : Nat) (data : List α) : List α :=
  if data.isEmpty then cells
  else cells.take pos ++ List.replicate (pos - cells.length) fill ++ data ++
    cells.drop (pos + data.length)

theorem ext_getD {first second : List α} (lengths : first.length = second.length)
    (cells : ∀ index, index < first.length → first.getD index fill = second.getD index fill) :
    first = second := by
  apply List.ext_getElem lengths
  intro index inFirst inSecond
  have same := cells index inFirst
  rwa [List.getD_eq_getElem _ _ inFirst, List.getD_eq_getElem _ _ inSecond] at same

@[simp] theorem store_nil (cells : List α) (pos : Nat) : store fill cells pos [] = cells := rfl

theorem length_store (cells : List α) (pos : Nat) (data : List α) :
    (store fill cells pos data).length =
      if data = [] then cells.length else max cells.length (pos + data.length) := by
  by_cases empty : data = []
  · simp [store, empty]
  · simp only [store, List.isEmpty_iff, empty, ↓reduceIte, List.length_append, List.length_take,
      List.length_replicate, List.length_drop]
    omega

theorem length_store_inside (cells : List α) (pos : Nat) (data : List α)
    (inside : pos + data.length ≤ cells.length) :
    (store fill cells pos data).length = cells.length := by
  rw [length_store]
  split
  · rfl
  · omega

theorem length_le_store (cells : List α) (pos : Nat) (data : List α) :
    cells.length ≤ (store fill cells pos data).length := by
  rw [length_store]
  split <;> omega

theorem le_length_store (cells : List α) (pos : Nat) (data : List α) (nonempty : data ≠ []) :
    pos + data.length ≤ (store fill cells pos data).length := by
  rw [length_store, if_neg nonempty]
  exact Nat.le_max_right _ _

theorem getD_store (cells : List α) (pos : Nat) (data : List α) (index : Nat) :
    (store fill cells pos data).getD index fill =
      if pos ≤ index ∧ index < pos + data.length then data.getD (index - pos) fill
      else cells.getD index fill := by
  by_cases empty : data = []
  · subst empty
    simp only [store_nil, List.length_nil, Nat.add_zero]
    rw [if_neg (by omega)]
  · have size := List.length_pos_iff.mpr empty
    have head : (cells.take pos ++ List.replicate (pos - cells.length) fill).length = pos := by
      simp only [List.length_append, List.length_take, List.length_replicate]
      omega
    simp only [store, List.isEmpty_iff, empty, ↓reduceIte, List.append_assoc]
    rw [← List.append_assoc]
    by_cases before : index < pos
    · rw [if_neg (by omega), List.getD_append _ _ _ _ (by omega)]
      by_cases old : index < cells.length
      · rw [List.getD_append _ _ _ _ (by simp only [List.length_take]; omega)]
        simp only [List.getD_eq_getElem?_getD, List.getElem?_take, before, ↓reduceIte]
      · rw [List.getD_append_right _ _ _ _ (by simp only [List.length_take]; omega),
          List.getD_eq_default cells fill (by omega)]
        simp only [List.getD_eq_getElem?_getD, List.getElem?_replicate]
        split <;> rfl
    · rw [List.getD_append_right _ _ _ _ (by omega), head]
      by_cases inside : index < pos + data.length
      · rw [if_pos (by omega), List.getD_append _ _ _ _ (by omega)]
      · rw [if_neg (by omega), List.getD_append_right _ _ _ _ (by omega)]
        simp only [List.getD_eq_getElem?_getD, List.getElem?_drop]
        congr 2
        omega

theorem store_end (cells : List α) (data : List α) :
    store fill cells cells.length data = cells ++ data := by
  by_cases empty : data = []
  · simp [empty]
  · simp [store, empty, List.drop_eq_nil_of_le]

theorem drop_of_load {cells data : List α} {pos : Nat} (found : load cells pos data.length = data) :
    cells.drop pos = data ++ cells.drop (pos + data.length) := by
  have split := List.take_append_drop data.length (cells.drop pos)
  rw [List.drop_drop] at split
  simp only [load] at found
  rw [found] at split
  exact split.symm

theorem getD_load (cells : List α) (pos count index : Nat) (inside : index < count) :
    (load cells pos count).getD index fill = cells.getD (pos + index) fill := by
  simp [load, inside, List.getElem?_drop]

theorem length_load (cells : List α) (pos count : Nat) :
    (load cells pos count).length = min count (cells.length - pos) := by
  simp [load]

theorem load_of_length (cells : List α) (pos count : Nat) :
    load cells pos (load cells pos count).length = load cells pos count := by
  simp only [load, List.length_take]
  rw [List.take_eq_take_iff]
  omega

theorem getD_take (cells : List α) (size index : Nat) (inside : index < size) :
    (cells.take size).getD index fill = cells.getD index fill := by
  simp only [List.getD_eq_getElem?_getD, List.getElem?_take, inside, ↓reduceIte]

theorem load_take (cells : List α) (size pos count : Nat) (inside : pos + count ≤ size) :
    load (cells.take size) pos count = load cells pos count := by
  simp only [load, List.drop_take, List.take_take]
  rw [Nat.min_eq_left (by omega)]

theorem load_store (cells : List α) (pos : Nat) (data : List α) :
    load (store fill cells pos data) pos data.length = data := by
  by_cases empty : data = []
  · simp [empty, load]
  · have sizes : (load (store fill cells pos data) pos data.length).length = data.length := by
      rw [length_load, length_store, if_neg empty]
      omega
    apply ext_getD fill sizes
    intro index inside
    rw [sizes] at inside
    rw [getD_load fill _ _ _ _ inside, getD_store, if_pos (by omega)]
    congr 1
    omega

theorem load_store_of_disjoint (cells : List α) (pos count at_ : Nat) (data : List α)
    (present : pos + count ≤ cells.length)
    (disjoint : pos + count ≤ at_ ∨ at_ + data.length ≤ pos) :
    load (store fill cells at_ data) pos count = load cells pos count := by
  have sizes : (load (store fill cells at_ data) pos count).length =
      (load cells pos count).length := by
    simp only [length_load, length_store]
    split <;> omega
  apply ext_getD fill sizes
  intro index inside
  have bound : index < count := by
    rw [length_load] at inside
    omega
  rw [getD_load fill _ _ _ _ bound, getD_load fill _ _ _ _ bound, getD_store, if_neg (by omega)]

abbrev Write (α : Type) := Nat × List α

def Covers (write : Write α) (index : Nat) : Prop :=
  write.1 ≤ index ∧ index < write.1 + write.2.length

instance (write : Write α) (index : Nat) : Decidable (Covers write index) :=
  inferInstanceAs (Decidable (_ ∧ _))

theorem nonempty_of_covers {write : Write α} {index : Nat} (covered : Covers write index) :
    write.2 ≠ [] := by
  intro empty
  simp only [Covers, empty, List.length_nil] at covered
  omega

def replay (cells : List α) (writes : List (Write α)) : List α :=
  writes.foldl (fun current write => store fill current write.1 write.2) cells

/-- What the last write over a position put there. -/
def lastValue : List (Write α) → Nat → Option α
  | [], _ => none
  | write :: later, index =>
      match lastValue later index with
      | some value => some value
      | none => if Covers write index then some (write.2.getD (index - write.1) fill) else none

/-- The end of the write that reaches furthest. -/
def extent : List (Write α) → Nat
  | [] => 0
  | write :: later =>
      if write.2.isEmpty then extent later else max (write.1 + write.2.length) (extent later)

theorem getD_replay (cells : List α) (writes : List (Write α)) (index : Nat) :
    (replay fill cells writes).getD index fill =
      (lastValue fill writes index).getD (cells.getD index fill) := by
  induction writes generalizing cells with
  | nil => rfl
  | cons write later ih =>
      have unfolded : replay fill cells (write :: later) =
          replay fill (store fill cells write.1 write.2) later := rfl
      rw [unfolded, ih, getD_store]
      simp only [lastValue]
      cases lastValue fill later index with
      | some value => rfl
      | none =>
          by_cases covered : Covers write index
          · simp only [if_pos covered, Option.getD_none, Option.getD_some]
            exact if_pos covered
          · simp only [if_neg covered, Option.getD_none]
            exact if_neg covered

theorem length_replay (cells : List α) (writes : List (Write α)) :
    (replay fill cells writes).length = max cells.length (extent writes) := by
  induction writes generalizing cells with
  | nil => simp [replay, extent]
  | cons write later ih =>
      have unfolded : replay fill cells (write :: later) =
          replay fill (store fill cells write.1 write.2) later := rfl
      rw [unfolded, ih, length_store]
      by_cases empty : write.2 = []
      · simp [extent, empty]
      · simp only [extent, List.isEmpty_iff, empty, ↓reduceIte]
        omega

theorem extent_le (writes : List (Write α)) (bound : Nat)
    (inside : ∀ write ∈ writes, write.2 ≠ [] → write.1 + write.2.length ≤ bound) :
    extent writes ≤ bound := by
  induction writes with
  | nil => exact Nat.zero_le _
  | cons write later ih =>
      have rest := ih (by intro next member; exact inside next (List.mem_cons_of_mem _ member))
      simp only [extent, List.isEmpty_iff]
      split
      · exact rest
      · rename_i nonempty
        have first := inside write List.mem_cons_self nonempty
        omega

theorem le_extent (writes : List (Write α)) (write : Write α) (member : write ∈ writes)
    (nonempty : write.2 ≠ []) : write.1 + write.2.length ≤ extent writes := by
  induction writes with
  | nil => cases member
  | cons head later ih =>
      simp only [extent, List.isEmpty_iff]
      rcases List.mem_cons.mp member with rfl | member
      · rw [if_neg nonempty]
        exact Nat.le_max_left _ _
      · have rest := ih member
        split <;> omega

theorem lastValue_isSome (writes : List (Write α)) (index : Nat) :
    (lastValue fill writes index).isSome = true ↔ ∃ write ∈ writes, Covers write index := by
  induction writes with
  | nil => simp [lastValue]
  | cons write later ih =>
      simp only [lastValue, List.mem_cons, exists_eq_or_imp]
      rw [← ih]
      cases lastValue fill later index with
      | some value => simp
      | none => by_cases covered : Covers write index <;> simp [covered]

/-- A write of cells that the target already has at those positions. -/
def Agrees (target : List α) (write : Write α) : Prop :=
  load target write.1 write.2.length = write.2

theorem Agrees.inside {target : List α} {write : Write α} (agrees : Agrees target write)
    (nonempty : write.2 ≠ []) : write.1 + write.2.length ≤ target.length := by
  have sizes := congrArg List.length agrees
  rw [length_load] at sizes
  have positive := List.length_pos_iff.mpr nonempty
  omega

theorem Agrees.value {target : List α} {write : Write α} (agrees : Agrees target write)
    {index : Nat} (covered : Covers write index) :
    write.2.getD (index - write.1) fill = target.getD index fill := by
  have shifted : write.1 + (index - write.1) = index := by
    have := covered.1
    omega
  have inside : index - write.1 < write.2.length := by
    have := covered.1
    have := covered.2
    omega
  have value := getD_load fill target write.1 write.2.length (index - write.1) inside
  rwa [agrees, shifted] at value

theorem lastValue_of_agrees (target : List α) (writes : List (Write α))
    (index : Nat) (agrees : ∀ write ∈ writes, Covers write index → Agrees target write)
    (value : α) (found : lastValue fill writes index = some value) :
    value = target.getD index fill := by
  induction writes with
  | nil => simp [lastValue] at found
  | cons write later ih =>
      have rest := ih (by intro next member; exact agrees next (List.mem_cons_of_mem _ member))
      simp only [lastValue] at found
      cases tail : lastValue fill later index with
      | some last =>
          rw [tail] at found
          exact rest (tail.trans found)
      | none =>
          rw [tail] at found
          simp only at found
          split at found
          · rename_i covered
            rw [← Option.some.inj found]
            exact (agrees write List.mem_cons_self covered).value fill covered
          · cases found

theorem le_extent_of_cover (target : List α) (writes : List (Write α))
    (covers : ∀ index, index < target.length → ∃ write ∈ writes, Covers write index) :
    target.length ≤ extent writes := by
  by_contra short
  rcases covers (target.length - 1) (by omega) with ⟨write, member, covered⟩
  have reach := le_extent writes write member (nonempty_of_covers covered)
  have bounds := covered.2
  omega

theorem inside_of_replay {target : List α} {writes : List (Write α)}
    (rebuilt : replay fill [] writes = target) {write : Write α} (member : write ∈ writes)
    {index : Nat} (covered : Covers write index) : index < target.length := by
  have reach := le_extent writes write member (nonempty_of_covers covered)
  have size := length_replay fill [] writes
  rw [rebuilt, List.length_nil] at size
  have bounds := covered.2
  omega

/-- Writes that cover a target rebuild it exactly when those that do not agree with
it stay inside it and are overwritten. -/
theorem replay_iff_of_cover (target : List α) (writes foreign : List (Write α))
    (listed : ∀ write ∈ foreign, write ∈ writes)
    (own : ∀ write ∈ writes, write ∈ foreign ∨ Agrees target write)
    (covers : ∀ index, index < target.length → ∃ write ∈ writes, Covers write index) :
    replay fill [] writes = target ↔ ∀ write ∈ foreign, ∀ index, Covers write index →
      index < target.length ∧ lastValue fill writes index = some (target.getD index fill) := by
  constructor
  · intro rebuilt write member index covered
    have inside := inside_of_replay fill rebuilt (listed write member) covered
    have written := (lastValue_isSome fill writes index).mpr ⟨write, listed write member, covered⟩
    obtain ⟨value, found⟩ := Option.isSome_iff_exists.mp written
    have cell := getD_replay fill [] writes index
    rw [rebuilt, found, Option.getD_some] at cell
    exact ⟨inside, found.trans (congrArg some cell.symm)⟩
  · intro mended
    have above := le_extent_of_cover target writes covers
    have below : extent writes ≤ target.length := by
      apply extent_le
      intro write member nonempty
      rcases own write member with stranger | agrees
      · have size := List.length_pos_iff.mpr nonempty
        have last := (mended write stranger (write.1 + write.2.length - 1)
          ⟨by omega, by omega⟩).1
        omega
      · exact agrees.inside nonempty
    have sizes : (replay fill [] writes).length = target.length := by
      rw [length_replay, List.length_nil]
      omega
    apply ext_getD fill sizes
    intro index inside
    rw [sizes] at inside
    have written := (lastValue_isSome fill writes index).mpr (covers index inside)
    obtain ⟨value, found⟩ := Option.isSome_iff_exists.mp written
    rw [getD_replay, found, Option.getD_some]
    -- Every position is written last by a foreign write that is mended, or by no foreign one.
    by_cases touched : ∃ write ∈ foreign, Covers write index
    · rcases touched with ⟨write, member, covered⟩
      exact Option.some.inj (found.symm.trans (mended write member index covered).2)
    · apply lastValue_of_agrees fill target writes index _ value found
      intro write member covered
      rcases own write member with stranger | agrees
      · exact absurd ⟨write, stranger, covered⟩ touched
      · exact agrees

/-- Writes that agree with a target and together cover it rebuild it, in any
order and with any repetitions. -/
theorem replay_of_cover (target : List α) (writes : List (Write α))
    (agrees : ∀ write ∈ writes, Agrees target write)
    (covers : ∀ index, index < target.length → ∃ write ∈ writes, Covers write index) :
    replay fill [] writes = target := by
  apply (replay_iff_of_cover fill target writes [] _ (fun write member => Or.inr (agrees write
    member)) covers).mpr
  · intro write member
    cases member
  · intro write member
    cases member

end NetworkSystem.Store
