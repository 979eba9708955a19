import NetworkSystem.Lib.Store

/-! Lists cut into blocks of one size, of which only the last may be shorter. -/

namespace NetworkSystem.Blocks

open Store

variable {α β : Type}

def Blocked (size : Nat) : List (List α) → Prop
  | [] => True
  | [last] => last.length ≤ size
  | block :: next :: rest => block.length = size ∧ Blocked size (next :: rest)

theorem Blocked.le {size : Nat} {blocks : List (List α)} (blocked : Blocked size blocks) :
    ∀ block ∈ blocks, block.length ≤ size := by
  induction blocks with
  | nil => intro block member; cases member
  | cons head tail ih =>
      intro block member
      cases tail with
      | nil =>
          rw [List.mem_singleton.mp member]
          exact blocked
      | cons next rest =>
          rcases List.mem_cons.mp member with rfl | member
          · exact Nat.le_of_eq blocked.1
          · exact ih blocked.2 block member

theorem Blocked.cons {size : Nat} {block : List α} {blocks : List (List α)}
    (full : block.length = size) (blocked : Blocked size blocks) :
    Blocked size (block :: blocks) := by
  cases blocks with
  | nil => exact Nat.le_of_eq full
  | cons next rest => exact ⟨full, blocked⟩

theorem Blocked.map {size : Nat} {blocks : List (List α)} (f : List α → List β)
    (lengths : ∀ block, (f block).length = block.length) (blocked : Blocked size blocks) :
    Blocked size (blocks.map f) := by
  induction blocks with
  | nil => trivial
  | cons head tail ih =>
      cases tail with
      | nil =>
          change (f head).length ≤ size
          rw [lengths]
          exact blocked
      | cons next rest =>
          refine ⟨?_, ih blocked.2⟩
          rw [lengths]
          exact blocked.1

/-- A function that restarts its index at every block is a function of the index
modulo the block size. -/
theorem flatten_map_mapIdx (size : Nat) (f : Nat → α → β) (blocks : List (List α))
    (blocked : Blocked size blocks) :
    (blocks.map (fun block => block.mapIdx f)).flatten =
      blocks.flatten.mapIdx (fun index => f (index % size)) := by
  induction blocks with
  | nil => rfl
  | cons head tail ih =>
      have within : head.mapIdx f = head.mapIdx (fun index => f (index % size)) := by
        apply List.ext_getElem
        · simp
        · intro index inFirst inSecond
          have short : head.length ≤ size := blocked.le head List.mem_cons_self
          have inside : index < head.length := by simpa using inFirst
          by_cases full : index < size
          · simp only [List.getElem_mapIdx, Nat.mod_eq_of_lt full]
          · omega
      cases tail with
      | nil => simpa using within
      | cons next rest =>
          have shifted : (fun index => f ((index + head.length) % size)) =
              fun index => f (index % size) := by
            funext index
            rw [blocked.1, Nat.add_mod_right]
          calc
            _ = head.mapIdx f ++ ((next :: rest).map (fun block => block.mapIdx f)).flatten := by
              rw [List.map_cons, List.flatten_cons]
            _ = head.mapIdx (fun index => f (index % size)) ++
                (next :: rest).flatten.mapIdx
                  (fun index => f ((index + head.length) % size)) := by
              rw [ih blocked.2, shifted, ← within]
            _ = (head ++ (next :: rest).flatten).mapIdx (fun index => f (index % size)) :=
              List.mapIdx_append.symm

/-- The blocks as writes one behind the other from `pos` on. -/
def placed (pos : Nat) : List (List α) → List (Write α)
  | [] => []
  | block :: rest => (pos, block) :: placed (pos + block.length) rest

theorem replay_placed (fill : α) (cells : List α) (blocks : List (List α)) :
    replay fill cells (placed cells.length blocks) = cells ++ blocks.flatten := by
  induction blocks generalizing cells with
  | nil => simp [placed, replay]
  | cons block rest ih =>
      have step := ih (cells ++ block)
      rw [List.length_append] at step
      simp only [placed, replay, List.foldl_cons, store_end, List.flatten_cons]
      simp only [replay] at step
      rw [step, List.append_assoc]

theorem replay_placed_nil (fill : α) (blocks : List (List α)) :
    replay fill [] (placed 0 blocks) = blocks.flatten := by
  have behind := replay_placed fill [] blocks
  rwa [List.nil_append] at behind

theorem placed_agrees (target : List α) (pos : Nat) (blocks : List (List α))
    (same : target.drop pos = blocks.flatten) :
    ∀ write ∈ placed pos blocks, Agrees target write := by
  induction blocks generalizing pos with
  | nil => intro write member; cases member
  | cons block rest ih =>
      intro write member
      rw [List.flatten_cons] at same
      rcases List.mem_cons.mp member with rfl | member
      · simp only [Agrees, load, same, List.take_left]
      · apply ih (pos + block.length) ?_ write member
        rw [← List.drop_drop, same, List.drop_left]

theorem placed_covers (pos : Nat) (blocks : List (List α)) (index : Nat)
    (low : pos ≤ index) (high : index < pos + blocks.flatten.length) :
    ∃ write ∈ placed pos blocks, Covers write index := by
  induction blocks generalizing pos with
  | nil => simp at high; omega
  | cons block rest ih =>
      rw [List.flatten_cons, List.length_append] at high
      by_cases here : index < pos + block.length
      · exact ⟨(pos, block), List.mem_cons_self, low, here⟩
      · rcases ih (pos + block.length) (by omega) (by omega) with ⟨write, member, covered⟩
        exact ⟨write, List.mem_cons_of_mem _ member, covered⟩

theorem flatMap_range_pieces (content : List α) (size count : Nat) :
    (List.range count).flatMap (fun piece => (content.drop (size * piece)).take size) =
      content.take (size * count) := by
  induction count with
  | zero => simp
  | succ count ih =>
      calc (List.range (count + 1)).flatMap (fun piece => (content.drop (size * piece)).take size)
          = content.take (size * count) ++ (content.drop (size * count)).take size := by
            rw [List.range_succ, List.flatMap_append, ih, List.flatMap_singleton]
        _ = content.take (size * count + size) := List.take_add.symm
        _ = content.take (size * (count + 1)) := by rw [Nat.mul_succ]

/-- A list cut into blocks of one size; `fuel` bounds their number. -/
def cutFuel (size : Nat) : Nat → List α → List (List α)
  | 0, _ => []
  | _ + 1, [] => []
  | fuel + 1, content => content.take size :: cutFuel size fuel (content.drop size)

def cut (size : Nat) (content : List α) : List (List α) := cutFuel size content.length content

theorem cutFuel_enough (size : Nat) (positive : 0 < size) (fuel more : Nat) (content : List α)
    (enough : content.length ≤ fuel) (enough' : content.length ≤ more) :
    cutFuel size fuel content = cutFuel size more content := by
  induction fuel generalizing more content with
  | zero =>
      have empty := List.eq_nil_of_length_eq_zero (Nat.le_zero.mp enough)
      subst empty
      cases more <;> rfl
  | succ fuel ih =>
      cases content with
      | nil => cases more <;> rfl
      | cons head tail =>
          cases more with
          | zero => cases enough'
          | succ more =>
              have shorter : ((head :: tail).drop size).length ≤ tail.length := by
                rw [List.length_drop, List.length_cons]
                omega
              rw [List.length_cons] at enough enough'
              simp only [cutFuel]
              rw [ih more _ (by omega) (by omega)]

@[simp] theorem cut_nil (size : Nat) : cut size ([] : List α) = [] := rfl

theorem cut_of_ne_nil (size : Nat) (positive : 0 < size) (content : List α)
    (nonempty : content ≠ []) :
    cut size content = content.take size :: cut size (content.drop size) := by
  cases content with
  | nil => exact absurd rfl nonempty
  | cons head tail =>
      have shorter : ((head :: tail).drop size).length ≤ tail.length := by
        rw [List.length_drop, List.length_cons]
        omega
      simp only [cut, List.length_cons, cutFuel]
      rw [cutFuel_enough size positive _ _ _ shorter (Nat.le_refl _)]

theorem cut_spec (size : Nat) (positive : 0 < size) (content : List α) :
    (∀ block ∈ cut size content, block ≠ []) ∧ (cut size content).flatten = content := by
  generalize bound : content.length = count
  induction count using Nat.strongRecOn generalizing content with
  | ind count ih =>
      by_cases empty : content = []
      · subst empty
        exact ⟨fun block member => absurd member List.not_mem_nil, rfl⟩
      · have longer := List.length_pos_iff.mpr empty
        have rest := ih (content.drop size).length (by rw [List.length_drop]; omega) _ rfl
        rw [cut_of_ne_nil size positive content empty]
        constructor
        · intro block member
          rcases List.mem_cons.mp member with rfl | member
          · intro none_
            have size_ := congrArg List.length none_
            rw [List.length_take, List.length_nil] at size_
            omega
          · exact rest.1 block member
        · rw [List.flatten_cons, rest.2, List.take_append_drop]

end NetworkSystem.Blocks
