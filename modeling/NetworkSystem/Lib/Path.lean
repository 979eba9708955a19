import Mathlib.Data.List.Infix
import Mathlib.Tactic.SplitIfs

/-! Lexical resolution of paths, over any names: what is left of a path once the steps
to a parent are taken back, and when a path stays inside a directory. -/

namespace NetworkSystem.Path

variable {ν : Type}

inductive Step (ν : Type) where
  | stay
  | up
  | into (name : ν)

/-- A path without steps that are taken back: first upwards, then down. -/
@[ext]
structure Move (ν : Type) where
  ups : Nat
  names : List ν
  deriving DecidableEq

def Move.still : Move ν := ⟨0, []⟩

def Move.walk (move : Move ν) : Step ν → Move ν
  | .stay => move
  | .up =>
      match move.names with
      | [] => { move with ups := move.ups + 1 }
      | _ :: _ => { move with names := move.names.dropLast }
  | .into name => { move with names := move.names ++ [name] }

def moves (steps : List (Step ν)) : Move ν := steps.foldl Move.walk Move.still

/-- One path after another: the second one first leaves names of the first. -/
def Move.append (first second : Move ν) : Move ν where
  ups := first.ups + (second.ups - first.names.length)
  names := first.names.take (first.names.length - second.ups) ++ second.names

theorem append_still (move : Move ν) : move.append Move.still = move := by
  simp [Move.append, Move.still]

theorem still_append (move : Move ν) : Move.still.append move = move := by
  simp [Move.append, Move.still]

theorem walk_up_of_ne_nil (move : Move ν) (some_ : move.names ≠ []) :
    move.walk .up = { move with names := move.names.dropLast } := by
  cases names : move.names with
  | nil => exact absurd names some_
  | cons name rest => simp only [Move.walk, names]

theorem append_walk (first second : Move ν) (step : Step ν) :
    first.append (second.walk step) = (first.append second).walk step := by
  cases step with
  | stay => rfl
  | up =>
      by_cases inside : second.names = []
      · have climbs : second.walk .up = ⟨second.ups + 1, []⟩ := by simp only [Move.walk, inside]
        rw [climbs]
        by_cases left : second.ups < first.names.length
        · have names : (first.append second).names ≠ [] := by
            simp only [Move.append, inside, List.append_nil, ne_eq, List.take_eq_nil_iff, not_or]
            exact ⟨by omega, List.ne_nil_of_length_pos (by omega)⟩
          rw [walk_up_of_ne_nil _ names]
          simp only [Move.append, inside, List.append_nil, List.dropLast_eq_take, List.length_take,
            List.take_take]
          congr 1
          · omega
          · congr 1
            omega
        · have names : (first.append second).names = [] := by
            simp only [Move.append, inside, List.append_nil, List.take_eq_nil_iff]
            exact Or.inl (by omega)
          have climbs : (first.append second).walk .up =
              ⟨(first.append second).ups + 1, []⟩ := by
            simp only [Move.walk, names]
          rw [climbs]
          simp only [Move.append, List.append_nil, Move.mk.injEq, List.take_eq_nil_iff]
          exact ⟨by omega, Or.inl (by omega)⟩
      · have names : (first.append second).names ≠ [] := List.append_ne_nil_of_right_ne_nil _ inside
        rw [walk_up_of_ne_nil _ inside, walk_up_of_ne_nil _ names]
        simp only [Move.append, List.dropLast_append_of_ne_nil inside]
  | into name => simp only [Move.append, Move.walk, List.append_assoc]

theorem moves_append (first second : List (Step ν)) :
    moves (first ++ second) = (moves first).append (moves second) := by
  induction second using List.reverseRecOn with
  | nil => rw [List.append_nil, moves, moves, List.foldl_nil, append_still]
  | append_singleton steps step ih =>
      rw [← List.append_assoc]
      simp only [moves, List.foldl_append, List.foldl_cons, List.foldl_nil] at ih ⊢
      rw [append_walk, ← ih]

/-- Where a path leads: below the root, or below the directory so many levels above
the current one. -/
structure Place (ν : Type) where
  base : Option Nat
  names : List ν

def place (absolute : Bool) (move : Move ν) : Place ν where
  base := if absolute = true then none else some move.ups
  names := move.names

/-- The inner place is the outer one or lies below it, whatever the names above the
current directory are. -/
def Inside (outer inner : Place ν) : Prop :=
  match outer.base, inner.base with
  | none, none => outer.names <+: inner.names
  | some up, some other =>
      (up = other ∧ outer.names <+: inner.names) ∨ (other < up ∧ outer.names = [])
  | _, _ => False

instance [DecidableEq ν] (outer inner : Place ν) : Decidable (Inside outer inner) :=
  match outer, inner with
  | ⟨none, names⟩, ⟨none, others⟩ => inferInstanceAs (Decidable (names <+: others))
  | ⟨some up, names⟩, ⟨some other, others⟩ =>
      inferInstanceAs (Decidable ((up = other ∧ names <+: others) ∨ (other < up ∧ names = [])))
  | ⟨none, _⟩, ⟨some _, _⟩ => inferInstanceAs (Decidable False)
  | ⟨some _, _⟩, ⟨none, _⟩ => inferInstanceAs (Decidable False)

theorem inside_self (outer : Place ν) : Inside outer outer := by
  rcases outer with ⟨base, names⟩
  cases base with
  | none => exact List.prefix_rfl
  | some up => exact Or.inl ⟨rfl, List.prefix_rfl⟩

/-- Two paths with a common front, of which the first has at most one more component. -/
theorem inside_of_front (absolute : Bool) (front last move : Move ν)
    (short : last.ups = 0 ∨ last.names = []) :
    Inside (place absolute (front.append last)) (place absolute (front.append move)) ↔
      (absolute = true ∨ move.ups ≤ max front.names.length last.ups) ∧
        front.names.take (front.names.length - last.ups) ++ last.names <+:
          front.names.take (front.names.length - move.ups) ++ move.names := by
  cases absolute with
  | true => simp [Inside, place, Move.append]
  | false =>
      simp only [Inside, place, Move.append, Bool.false_eq_true, ↓reduceIte, false_or]
      constructor
      · intro inside
        rcases inside with ⟨same, front_⟩ | ⟨less, empty⟩
        · exact ⟨by omega, front_⟩
        · rw [empty]
          exact ⟨by omega, List.nil_prefix⟩
      · intro inside
        rcases inside with ⟨bound, front_⟩
        by_cases same : last.ups - front.names.length = move.ups - front.names.length
        · exact Or.inl ⟨by omega, front_⟩
        · right
          refine ⟨by omega, ?_⟩
          have empty : last.names = [] := by
            rcases short with none_ | empty
            · omega
            · exact empty
          rw [empty, List.append_nil, List.take_eq_nil_iff]
          exact Or.inl (by omega)

theorem prefix_take_append (names others : List ν) (count : Nat) :
    names <+: names.take count ++ others ↔ names.drop count <+: others := by
  have cancel := @List.prefix_append_right_inj _ (names.drop count) others (names.take count)
  rwa [List.take_append_drop] at cancel

/-- A path behind a directory leaves names of the directory only to enter them again. -/
theorem inside_append (absolute : Bool) (directory move : Move ν) :
    Inside (place absolute directory) (place absolute (directory.append move)) ↔
      (absolute = true ∨ move.ups ≤ directory.names.length) ∧
        directory.names.drop (directory.names.length - move.ups) <+: move.names := by
  have front := inside_of_front absolute directory Move.still move (Or.inl rfl)
  rw [append_still] at front
  rw [front, ← prefix_take_append]
  simp [Move.still]

end NetworkSystem.Path
