import Mathlib.Algebra.Group.Nat.Defs
import Mathlib.Data.List.Induction
import Mathlib.Data.List.Nodup
import Mathlib.Tactic.SplitIfs

/-! Numbers collected under names: each name once, with the set of its numbers as the
bits of a mask. -/

namespace NetworkSystem.Groups

variable {κ : Type} [DecidableEq κ]

def mark (name : κ) (bits : Nat) (group : κ × Nat) : κ × Nat :=
  if group.1 = name then (group.1, group.2 ||| bits) else group

/-- Bits for a name, in its group or in a new one. -/
def add (name : κ) (bits : Nat) (groups : List (κ × Nat)) : List (κ × Nat) :=
  if name ∈ groups.map Prod.fst then groups.map (mark name bits) else groups ++ [(name, bits)]

def collect (parts : List (κ × Nat)) : List (κ × Nat) :=
  parts.foldl (fun groups part => add part.1 (1 <<< part.2) groups) []

theorem collect_append (parts : List (κ × Nat)) (name : κ) (number : Nat) :
    collect (parts ++ [(name, number)]) = add name (1 <<< number) (collect parts) := by
  rw [collect, List.foldl_append]
  rfl

@[simp] theorem mark_fst (name : κ) (bits : Nat) (group : κ × Nat) :
    (mark name bits group).1 = group.1 := by
  simp only [mark]
  split_ifs <;> rfl

theorem map_mark_fst (name : κ) (bits : Nat) (groups : List (κ × Nat)) :
    (groups.map (mark name bits)).map Prod.fst = groups.map Prod.fst := by
  rw [List.map_map]
  exact List.map_congr_left (fun group _ => mark_fst name bits group)

theorem map_mark_of_not_mem {name : κ} {bits : Nat} {groups : List (κ × Nat)}
    (fresh : name ∉ groups.map Prod.fst) : groups.map (mark name bits) = groups := by
  have others : ∀ group ∈ groups, mark name bits group = id group := by
    intro group member
    apply if_neg
    intro same
    exact fresh (same ▸ List.mem_map_of_mem member)
  rw [List.map_congr_left others, List.map_id]

theorem testBit_one_shiftLeft (number k : Nat) : (1 <<< number).testBit k = decide (k = number) := by
  rw [Nat.one_shiftLeft, Nat.testBit_two_pow]
  exact decide_eq_decide.mpr eq_comm

/-- The bits of all numbers under a name, joined. -/
def bitsOf (name : κ) (parts : List (κ × Nat)) : Nat :=
  ((parts.filter (fun part => part.1 = name)).map (fun part => 1 <<< part.2)).foldl (· ||| ·) 0

theorem bitsOf_append (name other : κ) (parts : List (κ × Nat)) (number : Nat) :
    bitsOf name (parts ++ [(other, number)]) =
      if other = name then bitsOf name parts ||| 1 <<< number else bitsOf name parts := by
  rw [bitsOf, List.filter_append, List.map_append, List.foldl_append]
  by_cases same : other = name
  · rw [if_pos same, List.filter_cons_of_pos (by simpa using same)]
    rfl
  · rw [if_neg same, List.filter_cons_of_neg (by simpa using same)]
    rfl

theorem bitsOf_eq_zero {name : κ} {parts : List (κ × Nat)} (fresh : name ∉ parts.map Prod.fst) :
    bitsOf name parts = 0 := by
  have none_ : parts.filter (fun part => part.1 = name) = [] := by
    rw [List.filter_eq_nil_iff]
    intro part member
    rw [decide_eq_true_eq]
    intro same
    exact fresh (same ▸ List.mem_map_of_mem member)
  rw [bitsOf, none_]
  rfl

omit [DecidableEq κ] in
theorem eraseDups_append_singleton [BEq κ] [LawfulBEq κ] (names : List κ) (name : κ) :
    (names ++ [name]).eraseDups =
      if name ∈ names then names.eraseDups else names.eraseDups ++ [name] := by
  rw [List.eraseDups_append]
  by_cases known : name ∈ names
  · simp [List.removeAll, known]
  · simp [List.removeAll, known, List.eraseDups_cons]

theorem collect_eq [BEq κ] [LawfulBEq κ] (parts : List (κ × Nat)) :
    collect parts =
      (parts.map Prod.fst).eraseDups.map (fun name => (name, bitsOf name parts)) := by
  induction parts using List.reverseRecOn with
  | nil => rfl
  | append_singleton parts part ih =>
      rcases part with ⟨name, number⟩
      have names : (collect parts).map Prod.fst = (parts.map Prod.fst).eraseDups := by
        rw [ih, List.map_map]
        exact List.map_id _
      have groups := List.mem_eraseDups (a := name) (l := parts.map Prod.fst)
      rw [← names] at groups
      rw [collect_append, add, List.map_append, List.map_singleton, eraseDups_append_singleton]
      by_cases known : name ∈ parts.map Prod.fst
      · rw [if_pos known, if_pos (groups.mpr known), ih, List.map_map]
        apply List.map_congr_left
        intro other _
        rw [Function.comp_apply, mark, bitsOf_append]
        by_cases same : other = name
        · rw [if_pos same, if_pos same.symm]
        · rw [if_neg same, if_neg (Ne.symm same)]
      · rw [if_neg known, if_neg (known ∘ groups.mp), List.map_append, List.map_singleton,
          bitsOf_append, if_pos rfl, bitsOf_eq_zero known, Nat.zero_or, ih]
        congr 1
        apply List.map_congr_left
        intro other member
        have apart : name ≠ other := by
          intro same
          exact known (same ▸ List.mem_eraseDups.mp member)
        rw [bitsOf_append, if_neg apart]

/-- What the groups say of the parts. -/
structure Collects (parts groups : List (κ × Nat)) : Prop where
  once : (groups.map Prod.fst).Nodup
  names : ∀ name, name ∈ groups.map Prod.fst ↔ ∃ k, (name, k) ∈ parts
  bits : ∀ group ∈ groups, ∀ k, group.2.testBit k = true ↔ (group.1, k) ∈ parts

section add

variable {parts groups : List (κ × Nat)} (collects : Collects parts groups) (name : κ) (number : Nat)

include collects

theorem Collects.add_known (known : name ∈ groups.map Prod.fst) :
    Collects (parts ++ [(name, number)]) (groups.map (mark name (1 <<< number))) := by
  constructor
  · rw [map_mark_fst]
    exact collects.once
  · intro other
    rw [map_mark_fst, collects.names]
    constructor
    · intro found
      rcases found with ⟨k, member⟩
      exact ⟨k, List.mem_append_left _ member⟩
    · intro found
      rcases found with ⟨k, member⟩
      rcases List.mem_append.mp member with old | new
      · exact ⟨k, old⟩
      · have same : other = name := (Prod.mk.inj (List.mem_singleton.mp new)).1
        rw [same]
        exact (collects.names name).mp known
  · intro group member k
    obtain ⟨before, inside, rfl⟩ := List.mem_map.mp member
    have old := collects.bits before inside k
    rw [mark_fst, List.mem_append, List.mem_singleton, ← old, Prod.mk.injEq]
    simp only [mark]
    split_ifs with same
    · rw [Nat.testBit_or, testBit_one_shiftLeft, Bool.or_eq_true, decide_eq_true_eq]
      simp [same]
    · simp [same]

omit [DecidableEq κ] in
theorem Collects.add_fresh (fresh : name ∉ groups.map Prod.fst) :
    Collects (parts ++ [(name, number)]) (groups ++ [(name, 1 <<< number)]) := by
  have unknown : ∀ k, (name, k) ∉ parts := by
    intro k member
    exact fresh ((collects.names name).mpr ⟨k, member⟩)
  constructor
  · rw [List.map_append, List.nodup_append_comm]
    exact List.nodup_cons.mpr ⟨fresh, collects.once⟩
  · intro other
    rw [List.map_append, List.mem_append, collects.names]
    constructor
    · intro found
      rcases found with ⟨k, member⟩ | new
      · exact ⟨k, List.mem_append_left _ member⟩
      · rw [List.mem_singleton.mp new]
        exact ⟨number, List.mem_append_right _ (List.mem_singleton_self _)⟩
    · intro found
      rcases found with ⟨k, member⟩
      rcases List.mem_append.mp member with old | new
      · exact Or.inl ⟨k, old⟩
      · right
        rw [(Prod.mk.inj (List.mem_singleton.mp new)).1]
        exact List.mem_singleton_self _
  · intro group member k
    rcases List.mem_append.mp member with old | new
    · have other : group.1 ≠ name := by
        intro same
        exact fresh (same ▸ List.mem_map_of_mem old)
      rw [collects.bits group old, List.mem_append, List.mem_singleton, Prod.mk.injEq]
      simp [other]
    · rw [List.mem_singleton.mp new, testBit_one_shiftLeft, List.mem_append, List.mem_singleton]
      simp [unknown]

theorem Collects.add :
    Collects (parts ++ [(name, number)]) (Groups.add name (1 <<< number) groups) := by
  by_cases known : name ∈ groups.map Prod.fst
  · rw [Groups.add, if_pos known]
    exact collects.add_known name number known
  · rw [Groups.add, if_neg known]
    exact collects.add_fresh name number known

end add

theorem collects_collect (parts : List (κ × Nat)) : Collects parts (collect parts) := by
  induction parts using List.reverseRecOn with
  | nil => exact ⟨List.nodup_nil, fun name => by simp [collect], nofun⟩
  | append_singleton parts part ih =>
      rw [collect_append]
      exact ih.add part.1 part.2

theorem eq_mask_iff (mask count : Nat) :
    mask = 2 ^ count - 1 ↔ ∀ k, mask.testBit k = true ↔ k < count := by
  constructor
  · intro same k
    rw [same, Nat.testBit_two_pow_sub_one, decide_eq_true_eq]
  · intro bits
    apply Nat.eq_of_testBit_eq
    intro k
    rw [Nat.testBit_two_pow_sub_one, Bool.eq_iff_iff, bits k, decide_eq_true_eq]

end NetworkSystem.Groups
