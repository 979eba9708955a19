import Mathlib.Algebra.GroupWithZero.Nat
import Mathlib.Data.List.DropRight
import Mathlib.Tactic.SplitIfs

/-! Texts that are cut at separators: lines, and the fields of a line. Nothing here
names a program. -/

namespace NetworkSystem.Fields

variable {α : Type}

/-- A text is one piece, or a piece with a separator and a shorter text behind it. -/
theorem pieces_induction [DecidableEq α] {motive : List α → Prop} (sep : α)
    (last : ∀ piece, sep ∉ piece → motive piece)
    (more : ∀ piece rest, sep ∉ piece → motive rest → motive (piece ++ sep :: rest))
    (text : List α) : motive text := by
  by_cases member : sep ∈ text
  · obtain ⟨piece, rest, same, single⟩ := List.eq_append_cons_of_mem member
    have shorter : rest.length < text.length := by
      rw [same, List.length_append, List.length_cons]
      omega
    rw [same]
    exact more piece rest single (pieces_induction sep last more rest)
  · exact last text member
termination_by text.length

variable (blank : α → Bool)

theorem mem_piece (text piece : List α) (cut : piece ∈ text.splitOnP blank) :
    piece.length ≤ text.length ∧ ∀ a ∈ piece, a ∈ text := by
  induction text generalizing piece with
  | nil =>
      rw [List.splitOnP_nil, List.mem_singleton] at cut
      rw [cut]
      exact ⟨Nat.le_refl _, fun a member => member⟩
  | cons first rest ih =>
      rw [List.splitOnP_cons_eq_if_modifyHead] at cut
      split at cut
      · cases List.mem_cons.mp cut with
        | inl empty =>
            rw [empty]
            exact ⟨Nat.zero_le _, by simp⟩
        | inr later =>
            have inside := ih piece later
            exact ⟨Nat.le_succ_of_le inside.1,
              fun a member => List.mem_cons_of_mem _ (inside.2 a member)⟩
      · obtain ⟨head, tail, split_⟩ := List.exists_cons_of_ne_nil (List.splitOnP_ne_nil blank rest)
        rw [split_, List.modifyHead_cons, List.mem_cons] at cut
        rw [split_] at ih
        cases cut with
        | inl here =>
            have inside := ih head List.mem_cons_self
            rw [here]
            refine ⟨Nat.succ_le_succ inside.1, fun a member => ?_⟩
            cases List.mem_cons.mp member with
            | inl same => exact same ▸ List.mem_cons_self
            | inr behind => exact List.mem_cons_of_mem _ (inside.2 a behind)
        | inr later =>
            have inside := ih piece (List.mem_cons_of_mem _ later)
            exact ⟨Nat.le_succ_of_le inside.1,
              fun a member => List.mem_cons_of_mem _ (inside.2 a member)⟩

theorem piece_clean (text piece : List α) (cut : piece ∈ text.splitOnP blank) :
    ∀ a ∈ piece, blank a = false := by
  induction text generalizing piece with
  | nil =>
      rw [List.splitOnP_nil, List.mem_singleton] at cut
      rw [cut]
      intro a member
      cases member
  | cons first rest ih =>
      rw [List.splitOnP_cons_eq_if_modifyHead] at cut
      split at cut
      case isTrue =>
        rcases List.mem_cons.mp cut with empty | later
        · rw [empty]
          intro a member
          cases member
        · exact ih piece later
      case isFalse other =>
        cases pieces : rest.splitOnP blank with
        | nil =>
            rw [pieces] at cut
            cases cut
        | cons head tail =>
            rw [pieces] at ih
            rw [pieces, List.modifyHead_cons] at cut
            rcases List.mem_cons.mp cut with same | later
            · rw [same]
              intro a member
              rcases List.mem_cons.mp member with rfl | inside
              · exact Bool.eq_false_iff.mpr other
              · exact ih head List.mem_cons_self a inside
            · exact ih piece (List.mem_cons_of_mem _ later)

/-- The fields of a text: its runs without a blank. -/
def fields (text : List α) : List (List α) := (text.splitOnP blank).filter (· ≠ [])

@[simp] theorem fields_nil : fields blank ([] : List α) = [] := by
  rw [fields, List.splitOnP_nil]
  rfl

theorem fields_append_cons (front back : List α) (a : α) (isBlank : blank a = true) :
    fields blank (front ++ a :: back) = fields blank front ++ fields blank back := by
  rw [fields, List.splitOnP_append_cons front back isBlank, List.filter_append]
  rfl

theorem fields_cons_blank (rest : List α) (a : α) (isBlank : blank a = true) :
    fields blank (a :: rest) = fields blank rest := by
  have front := fields_append_cons blank [] rest a isBlank
  rwa [List.nil_append, fields_nil, List.nil_append] at front

theorem fields_dropWhile (test : α → Bool) (blanks : ∀ a, test a = true → blank a = true)
    (text : List α) : fields blank (text.dropWhile test) = fields blank text := by
  induction text with
  | nil => rfl
  | cons a rest ih =>
      by_cases drops : test a = true
      · rw [List.dropWhile_cons_of_pos drops, ih, fields_cons_blank blank rest a (blanks a drops)]
      · rw [List.dropWhile_cons_of_neg drops]

theorem fields_rdropWhile (test : α → Bool) (blanks : ∀ a, test a = true → blank a = true)
    (text : List α) : fields blank (text.rdropWhile test) = fields blank text := by
  induction text using List.reverseRecOn with
  | nil => rfl
  | append_singleton front a ih =>
      by_cases drops : test a = true
      · have back := fields_append_cons blank front [] a (blanks a drops)
        rw [fields_nil, List.append_nil] at back
        rw [List.rdropWhile_concat_pos _ _ _ drops, ih, back]
      · rw [List.rdropWhile_concat_neg _ _ _ drops]

theorem splitOnP_eq_takeWhile_cons (text : List α) :
    ∃ tail, text.splitOnP blank = text.takeWhile (fun a => !blank a) :: tail := by
  induction text with
  | nil => exact ⟨[], List.splitOnP_nil⟩
  | cons a rest ih =>
      obtain ⟨tail, cut⟩ := ih
      rw [List.splitOnP_cons_eq_if_modifyHead]
      cases isBlank : blank a with
      | true =>
          rw [if_pos rfl, List.takeWhile_cons_of_neg (by simp [isBlank])]
          exact ⟨_, rfl⟩
      | false =>
          rw [if_neg (by simp), List.takeWhile_cons_of_pos (by simp [isBlank]), cut,
            List.modifyHead_cons]
          exact ⟨tail, rfl⟩

theorem length_splitOnP (text : List α) :
    (text.splitOnP blank).length = text.countP blank + 1 := by
  induction text with
  | nil => rfl
  | cons a rest ih =>
      rw [List.splitOnP_cons_eq_if_modifyHead]
      cases isBlank : blank a with
      | true => rw [if_pos rfl, List.length_cons, ih, List.countP_cons_of_pos isBlank]
      | false =>
          rw [if_neg Bool.false_ne_true, List.length_modifyHead, ih,
            List.countP_cons_of_neg (by rw [isBlank]; exact Bool.false_ne_true)]

/-- Behind the first piece of a text that does not end in a separator an empty one stands
between two separators. -/
theorem nil_mem_tail_splitOn [DecidableEq α] (sep : α) (text : List α)
    (back : text.getLast? ≠ some sep) :
    [] ∈ (text.splitOn sep).tail ↔ [sep, sep] <:+: text := by
  induction text with
  | nil => simp
  | cons a rest ih =>
      cases rest with
      | nil =>
          have other : ¬ a = sep := fun same => back (congrArg some same)
          simp [List.splitOn_cons_eq_if_modifyHead, other, List.infix_cons_iff]
      | cons b rest =>
          have later := ih (by rwa [List.getLast?_cons_cons] at back)
          rw [List.splitOn_cons_eq_if_modifyHead, List.infix_cons_iff, ← later]
          by_cases first : a = sep
          · rw [if_pos (beq_iff_eq.mpr first), List.tail_cons]
            obtain ⟨tail, cut⟩ := splitOnP_eq_takeWhile_cons (fun a => a == sep) (b :: rest)
            rw [List.splitOn_eq_splitOnP, cut, List.mem_cons, List.tail_cons, List.cons_prefix_cons,
              List.cons_prefix_cons]
            have head : [] = (b :: rest).takeWhile (fun a => !(a == sep)) ↔ sep = b := by
              by_cases second : b = sep
              · rw [List.takeWhile_cons_of_neg (by simpa using second)]
                exact ⟨fun _ => second.symm, fun _ => rfl⟩
              · rw [List.takeWhile_cons_of_pos (by simpa using second)]
                exact ⟨nofun, fun same => absurd same.symm second⟩
            simp only [head, first, List.nil_prefix, and_true, true_and]
          · rw [if_neg (by simpa using first), List.tail_modifyHead]
            have apart : ¬ [sep, sep] <+: a :: b :: rest := by
              rw [List.cons_prefix_cons]
              exact fun both => first both.1.symm
            simp only [apart, false_or]

/-- A text that begins and ends with a field is cut into its fields exactly when no two
separators stand together. -/
theorem fields_eq_splitOn_iff [DecidableEq α] (sep : α) (text : List α) (some_ : text ≠ [])
    (front : text.head? ≠ some sep) (back : text.getLast? ≠ some sep) :
    text.splitOn sep = fields (fun a => a == sep) text ↔ ¬ [sep, sep] <:+: text := by
  obtain ⟨tail, cut⟩ := splitOnP_eq_takeWhile_cons (fun a => a == sep) text
  have full : text.takeWhile (fun a => !(a == sep)) ≠ [] := by
    obtain ⟨a, rest, same⟩ := List.exists_cons_of_ne_nil some_
    have other : ¬ a = sep := fun equal => front (by rw [same, equal]; rfl)
    rw [same, List.takeWhile_cons_of_pos (by simpa using other)]
    exact List.cons_ne_nil _ _
  rw [← nil_mem_tail_splitOn sep text back, fields, ← List.splitOn_eq_splitOnP, eq_comm,
    List.filter_eq_self, List.splitOn_eq_splitOnP, cut, List.tail_cons]
  simp only [List.forall_mem_cons, decide_eq_true_eq]
  constructor
  · intro all member
    exact all.2 [] member rfl
  · intro none_
    exact ⟨full, fun piece member empty => none_ (empty ▸ member)⟩

theorem fields_single (text : List α) (some_ : text ≠ []) (clean : ∀ a ∈ text, blank a = false) :
    fields blank text = [text] := by
  rw [fields, List.splitOnP_eq_singleton clean, List.filter_cons_of_pos (by simpa using some_),
    List.filter_nil]

theorem fields_eq_cons (text : List α) (front : text.head?.map blank = some false) :
    fields blank text =
      text.takeWhile (fun a => !blank a) :: fields blank (text.dropWhile (fun a => !blank a)) := by
  have full : text.takeWhile (fun a => !blank a) ≠ [] := by
    cases text with
    | nil => cases front
    | cons a rest =>
        have other : blank a = false := Option.some.inj front
        rw [List.takeWhile_cons_of_pos (by rw [other]; rfl)]
        exact List.cons_ne_nil _ _
  have single : fields blank (text.takeWhile (fun a => !blank a)) =
      [text.takeWhile (fun a => !blank a)] := by
    apply fields_single blank _ full
    intro a member
    simpa using List.mem_takeWhile_imp member
  cases behind : text.dropWhile (fun a => !blank a) with
  | nil =>
      have whole : text.takeWhile (fun a => !blank a) = text := by
        have parts := List.takeWhile_append_dropWhile (p := fun a => !blank a) (l := text)
        rwa [behind, List.append_nil] at parts
      rw [fields_nil, ← single, whole]
  | cons a rest =>
      have isBlank : blank a = true := by
        have head := List.head_dropWhile_not (fun a => !blank a) (l := text)
          (by rw [behind]; exact List.cons_ne_nil _ _)
        simpa only [behind, List.head_cons, Bool.not_eq_false'] using head
      have cut : fields blank text = fields blank (text.takeWhile (fun a => !blank a)) ++
          fields blank rest := by
        rw [← fields_append_cons blank _ rest a isBlank, ← behind,
          List.takeWhile_append_dropWhile]
      rw [cut, single, fields_cons_blank blank rest a isBlank]
      rfl

theorem head_fields (text field : List α) (later : List (List α))
    (cut : fields blank text = field :: later) :
    field.head? = (text.dropWhile blank).head? := by
  rw [← fields_dropWhile blank blank (fun _ isBlank => isBlank)] at cut
  cases front : text.dropWhile blank with
  | nil =>
      rw [front, fields_nil] at cut
      cases cut
  | cons a rest =>
      have other : blank a = false := by
        have head := List.head_dropWhile_not blank (l := text) (by
          rw [front]
          exact List.cons_ne_nil _ _)
        simpa only [front, List.head_cons] using head
      obtain ⟨tail, pieces⟩ := splitOnP_eq_takeWhile_cons blank (a :: rest)
      rw [front, fields, pieces, List.takeWhile_cons_of_pos (by rw [other]; rfl),
        List.filter_cons_of_pos (by simp)] at cut
      rw [← (List.cons.inj cut).1]
      rfl

/-- The fields of a text that a blank follows in it. -/
def ended (text : List α) : List (List α) := ((text.splitOnP blank).dropLast).filter (· ≠ [])

theorem ended_of_clean (text : List α) (clean : ∀ a ∈ text, blank a = false) :
    ended blank text = [] := by
  rw [ended, List.splitOnP_eq_singleton clean]
  rfl

theorem ended_append_cons (front back : List α) (a : α) (isBlank : blank a = true) :
    ended blank (front ++ a :: back) = fields blank front ++ ended blank back := by
  rw [ended, List.splitOnP_append_cons front back isBlank,
    List.dropLast_append_of_ne_nil (List.splitOnP_ne_nil blank back), List.filter_append]
  rfl

theorem ended_cons_blank (rest : List α) (a : α) (isBlank : blank a = true) :
    ended blank (a :: rest) = ended blank rest := by
  have front := ended_append_cons blank [] rest a isBlank
  rwa [List.nil_append, fields_nil, List.nil_append] at front

theorem ended_dropWhile (text : List α) :
    ended blank (text.dropWhile blank) = ended blank text := by
  induction text with
  | nil => rfl
  | cons a rest ih =>
      by_cases isBlank : blank a = true
      · rw [List.dropWhile_cons_of_pos isBlank, ih, ended_cons_blank blank rest a isBlank]
      · rw [List.dropWhile_cons_of_neg isBlank]

/-- A text is fields that are ended, and a part without a blank that may still grow. -/
theorem ended_cases (text : List α) :
    ∃ front back, text = front ++ back ∧ (∀ a ∈ back, blank a = false) ∧
      ∀ more, fields blank (front ++ more) = ended blank text ++ fields blank more ∧
        ended blank (front ++ more) = ended blank text ++ ended blank more := by
  have whole := List.rdropWhile_append_rtakeWhile (l := text) (p := fun a => !blank a)
  have clean : ∀ a ∈ text.rtakeWhile (fun a => !blank a), blank a = false := by
    intro a member
    simpa using List.mem_rtakeWhile_imp member
  refine ⟨text.rdropWhile (fun a => !blank a), text.rtakeWhile (fun a => !blank a), whole.symm,
    clean, ?_⟩
  by_cases none_ : text.rdropWhile (fun a => !blank a) = []
  · rw [none_, List.nil_append] at whole
    rw [none_, ended_of_clean blank text (whole ▸ clean)]
    exact fun more => ⟨rfl, rfl⟩
  · have isBlank := List.rdropWhile_last_not (fun a => !blank a) text none_
    rw [Bool.not_eq_true', Bool.not_eq_false] at isBlank
    have last := List.dropLast_append_getLast none_
    generalize (text.rdropWhile (fun a => !blank a)).getLast none_ = a at isBlank last
    generalize (text.rdropWhile (fun a => !blank a)).dropLast = front at last
    have known : ended blank text = fields blank front := by
      rw [← whole, ← last, List.append_assoc, List.singleton_append,
        ended_append_cons blank _ _ a isBlank, ended_of_clean blank _ clean, List.append_nil]
    intro more
    rw [← last, List.append_assoc, List.singleton_append, known]
    constructor
    · exact fields_append_cons blank front more a isBlank
    · exact ended_append_cons blank front more a isBlank

/-- What stands behind a text can only add fields. -/
theorem ended_append (text more : List α) :
    ∃ later, ended blank (text ++ more) = ended blank text ++ later := by
  rcases ended_cases blank text with ⟨front, back, shape, -, both⟩
  refine ⟨ended blank (back ++ more), ?_⟩
  conv_lhs => rw [shape, List.append_assoc]
  exact (both (back ++ more)).2

theorem fields_append (text more : List α) :
    ∃ later, fields blank (text ++ more) = ended blank text ++ later := by
  rcases ended_cases blank text with ⟨front, back, shape, -, both⟩
  refine ⟨fields blank (back ++ more), ?_⟩
  conv_lhs => rw [shape, List.append_assoc]
  exact (both (back ++ more)).1

theorem ended_append_clean (text more : List α) (clean : ∀ a ∈ more, blank a = false) :
    ended blank (text ++ more) = ended blank text := by
  rcases ended_cases blank text with ⟨front, back, shape, inner, both⟩
  have none_ : ended blank (back ++ more) = [] := by
    apply ended_of_clean blank
    intro a member
    rcases List.mem_append.mp member with here | behind
    · exact inner a here
    · exact clean a behind
  conv_lhs => rw [shape, List.append_assoc]
  rw [(both (back ++ more)).2, none_, List.append_nil]

/-- A text cut into blocks of `size`, with `front` in the first one so far. -/
def blocks (size : Nat) : List α → List α → List (List α)
  | front, [] => if front.isEmpty then [] else [front]
  | front, a :: rest =>
      if front.length + 1 = size then (front ++ [a]) :: blocks size [] rest
      else blocks size (front ++ [a]) rest

theorem blocks_short (size : Nat) (front text : List α)
    (short : front.length + text.length < size) :
    blocks size front text = if (front ++ text).isEmpty then [] else [front ++ text] := by
  induction text generalizing front with
  | nil => rw [blocks, List.append_nil]
  | cons a rest ih =>
      rw [List.length_cons] at short
      rw [blocks, if_neg (by omega), ih (front ++ [a]) (by
        rw [List.length_append, List.length_singleton]
        omega), List.append_assoc, List.singleton_append]

end NetworkSystem.Fields
