import NetworkSystem.Lib.Bytes
import NetworkSystem.Lib.Path
import Mathlib.Data.List.DropRight

/-! Paths as strings, and when a string put behind the path of a directory leads out of
it. -/

namespace NetworkSystem

open Bytes NetworkSystem.Path

def component (text : Bytes) : Step Bytes :=
  if text = [] ∨ text = ascii "." then .stay
  else if text = ascii ".." then .up
  else .into text

def components (path : Bytes) : List (Step Bytes) := (path.splitOnP (· = 47)).map component

def pathMove (path : Bytes) : Move Bytes := moves (components path)

def Absolute (path : Bytes) : Prop := path.head? = some 47

instance (path : Bytes) : Decidable (Absolute path) := inferInstanceAs (Decidable (_ = _))

/-- Where a path leads, without a look at any directory. -/
def resolve (path : Bytes) : Place Bytes := place (decide (Absolute path)) (pathMove path)

theorem components_slash (front behind : Bytes) :
    components (front ++ 47 :: behind) = components front ++ components behind := by
  rw [components, List.splitOnP_append_cons _ _ (by decide), List.map_append]
  rfl

theorem pathMove_slash (front behind : Bytes) :
    pathMove (front ++ 47 :: behind) = (pathMove front).append (pathMove behind) := by
  rw [pathMove, components_slash, moves_append]
  rfl

theorem pathMove_nil : pathMove [] = Move.still := rfl

theorem pathMove_cons_slash (behind : Bytes) : pathMove (47 :: behind) = pathMove behind := by
  have split := pathMove_slash [] behind
  rw [List.nil_append, pathMove_nil, still_append] at split
  exact split

def directoryPart (path : Bytes) : Bytes := path.rdropWhile (· ≠ 47)

def lastPart (path : Bytes) : Bytes := path.rtakeWhile (· ≠ 47)

theorem directoryPart_append_lastPart (path : Bytes) : directoryPart path ++ lastPart path = path := by
  rw [directoryPart, lastPart]
  exact List.rdropWhile_append_rtakeWhile

theorem pathMove_directoryPart (path behind : Bytes) :
    pathMove (directoryPart path ++ behind) =
      (pathMove (directoryPart path)).append (pathMove behind) := by
  by_cases empty : directoryPart path = []
  · rw [empty, List.nil_append, pathMove_nil, still_append]
  · have last : (directoryPart path).getLast empty = 47 := by
      have other := List.rdropWhile_last_not _ path empty
      rwa [decide_eq_true_eq, ne_eq, not_not] at other
    have ends := List.dropLast_append_getLast empty
    rw [last] at ends
    have front : pathMove (directoryPart path) = pathMove (directoryPart path).dropLast := by
      rw [← ends, List.dropLast_concat, pathMove_slash, pathMove_nil, append_still]
    calc pathMove (directoryPart path ++ behind)
        = pathMove ((directoryPart path).dropLast ++ 47 :: behind) := by
          rw [← ends, List.append_assoc, List.singleton_append, List.dropLast_concat]
      _ = (pathMove (directoryPart path).dropLast).append (pathMove behind) := pathMove_slash _ _
      _ = (pathMove (directoryPart path)).append (pathMove behind) := by rw [front]

theorem components_single (text : Bytes) (single : 47 ∉ text) :
    components text = [component text] := by
  rw [components, List.splitOnP_eq_singleton]
  · rfl
  · intro byte member
    simp only [decide_eq_false_iff_not]
    intro same
    exact single (same ▸ member)

theorem pathMove_single (text : Bytes) (single : 47 ∉ text) :
    (pathMove text).ups = 0 ∨ (pathMove text).names = [] := by
  rw [pathMove, components_single text single, component]
  split_ifs
  · exact Or.inl rfl
  · exact Or.inr rfl
  · exact Or.inl rfl

theorem not_mem_lastPart (path : Bytes) : 47 ∉ lastPart path := by
  intro member
  have other := List.mem_rtakeWhile_imp member
  simp at other

/-- A path, taken from a directory, does not leave it, or enters again what it leaves. -/
def StaysBelow (directory path : Bytes) : Prop :=
  let names := (pathMove directory).names
  let move := pathMove path
  (Absolute directory ∨ move.ups ≤ names.length) ∧
    names.drop (names.length - move.ups) <+: move.names

/-- The same of a text that continues the last component of the directory. -/
def StaysAround (directory text : Bytes) : Prop :=
  let front := pathMove (directoryPart directory)
  let last := pathMove (lastPart directory)
  let move := pathMove (lastPart directory ++ text)
  (Absolute directory ∨ move.ups ≤ max front.names.length last.ups) ∧
    front.names.take (front.names.length - last.ups) ++ last.names <+:
      front.names.take (front.names.length - move.ups) ++ move.names

instance (directory path : Bytes) : Decidable (StaysBelow directory path) :=
  inferInstanceAs (Decidable (_ ∧ _))

instance (directory text : Bytes) : Decidable (StaysAround directory text) :=
  inferInstanceAs (Decidable (_ ∧ _))

theorem absolute_append (directory text : Bytes) (some_ : directory ≠ []) :
    Absolute (directory ++ text) ↔ Absolute directory := by
  rw [Absolute, Absolute, List.head?_append_of_ne_nil _ some_]

theorem inside_of_slash (directory behind : Bytes) (some_ : directory ≠ []) :
    Inside (resolve directory) (resolve (directory ++ 47 :: behind)) ↔
      StaysBelow directory (47 :: behind) := by
  simp only [resolve, absolute_append _ _ some_, pathMove_slash, StaysBelow, pathMove_cons_slash]
  rw [inside_append, decide_eq_true_eq]

theorem inside_of_text (directory text : Bytes) (same : Absolute (directory ++ text) ↔ Absolute directory) :
    Inside (resolve directory) (resolve (directory ++ text)) ↔ StaysAround directory text := by
  have whole : pathMove (directory ++ text) = (pathMove (directoryPart directory)).append
      (pathMove (lastPart directory ++ text)) := by
    rw [← pathMove_directoryPart, ← List.append_assoc, directoryPart_append_lastPart]
  have outer : pathMove directory = (pathMove (directoryPart directory)).append
      (pathMove (lastPart directory)) := by
    rw [← pathMove_directoryPart, directoryPart_append_lastPart]
  have short := pathMove_single (lastPart directory) (not_mem_lastPart directory)
  have inside := inside_of_front (decide (Absolute directory)) (pathMove (directoryPart directory))
    (pathMove (lastPart directory)) (pathMove (lastPart directory ++ text)) short
  simp only [resolve, same, StaysAround]
  rw [whole, outer, inside, decide_eq_true_eq]

end NetworkSystem
