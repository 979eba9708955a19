import NetworkSystem.Lib.Runs
import Mathlib.Data.List.Perm.Basic
import Mathlib.Logic.Function.Basic
import Mathlib.Logic.Relation

/-! Threads that take steps in any order on a state they share. Where the steps of different
threads commute, all orders come to the same end. Nothing here names a program. -/

namespace NetworkSystem.Interleave

variable {ι L σ : Type} [DecidableEq ι]

/-- What every thread has for itself, and what they share. -/
structure Config (ι L σ : Type) where
  locals : ι → L
  shared : σ

/-- Thread `i` has come somewhere else. -/
def Config.put (config : Config ι L σ) (i : ι) (l : L) (s : σ) : Config ι L σ :=
  ⟨Function.update config.locals i l, s⟩

@[simp] theorem Config.put_self (config : Config ι L σ) (i : ι) (l : L) (s : σ) :
    (config.put i l s).locals i = l := Function.update_self _ _ _

theorem Config.put_of_ne (config : Config ι L σ) {i j : ι} (other : j ≠ i) (l : L) (s : σ) :
    (config.put i l s).locals j = config.locals j := Function.update_of_ne other _ _

@[simp] theorem Config.put_shared (config : Config ι L σ) (i : ι) (l : L) (s : σ) :
    (config.put i l s).shared = s := rfl

@[simp] theorem Config.put_put (config : Config ι L σ) (i : ι) (l m : L) (s t : σ) :
    (config.put i l s).put i m t = config.put i m t := by
  simp only [put, Function.update_idem]

theorem Config.put_comm (config : Config ι L σ) {i j : ι} (other : i ≠ j) (l m : L)
    (s t u : σ) : (config.put i l s).put j m u = (config.put j m t).put i l u := by
  simp only [put, Function.update_comm other]

theorem Config.put_here (config : Config ι L σ) (i : ι) :
    config.put i (config.locals i) config.shared = config := by
  rw [put, Function.update_eq_self]

variable (step : L → σ → Option (L × σ))

/-- A step of thread `i`; `none` when it waits or has ended. -/
def move (config : Config ι L σ) (i : ι) : Option (Config ι L σ) :=
  (step (config.locals i) config.shared).map (fun (l, s) => config.put i l s)

def run : Config ι L σ → List ι → Option (Config ι L σ) := Runs.run (move step)

def Quiet (config : Config ι L σ) : Prop := ∀ i, move step config i = none

/-- What a thread owns it keeps, and steps of different threads can be exchanged. -/
structure Commuting (own : ι → L → Prop) : Prop where
  keeps : ∀ {i l s l' s'}, own i l → step l s = some (l', s') → own i l'
  exchange : ∀ {i j l m s l' m' s₁ s₂}, i ≠ j → own i l → own j m →
    step l s = some (l', s₁) → step m s = some (m', s₂) →
    ∃ last, step m s₁ = some (m', last) ∧ step l s₂ = some (l', last)

theorem move_eq_some {config next : Config ι L σ} {i : ι} :
    move step config i = some next ↔ ∃ l s, step (config.locals i) config.shared = some (l, s) ∧
      next = config.put i l s := by
  rw [move, Option.map_eq_some_iff]
  constructor
  · rintro ⟨⟨l, s⟩, stepped, same⟩
    exact ⟨l, s, stepped, same.symm⟩
  · rintro ⟨l, s, stepped, same⟩
    exact ⟨(l, s), stepped, same.symm⟩

section commuting

variable {step} {own : ι → L → Prop} (commuting : Commuting step own)

include commuting

theorem Commuting.move_keeps {config next : Config ι L σ} {i : ι}
    (owned : ∀ j, own j (config.locals j)) (moved : move step config i = some next) :
    ∀ j, own j (next.locals j) := by
  obtain ⟨l, s, stepped, rfl⟩ := (move_eq_some step).mp moved
  intro j
  by_cases same : j = i
  · subst same
    rw [Config.put_self]
    exact commuting.keeps (owned j) stepped
  · rw [Config.put_of_ne _ same]
    exact owned j

theorem Commuting.diamond {config one two : Config ι L σ} {i j : ι}
    (owned : ∀ k, own k (config.locals k)) (other : i ≠ j) (first : move step config i = some one)
    (second : move step config j = some two) :
    ∃ last, move step one j = some last ∧ move step two i = some last := by
  obtain ⟨l, s₁, stepped, rfl⟩ := (move_eq_some step).mp first
  obtain ⟨m, s₂, stepped', rfl⟩ := (move_eq_some step).mp second
  rcases commuting.exchange other (owned i) (owned j) stepped stepped' with ⟨last, there, here⟩
  have back : step ((config.put i l s₁).locals j) s₁ = some (m, last) := by
    rwa [Config.put_of_ne _ other.symm]
  have front : step ((config.put j m s₂).locals i) s₂ = some (l, last) := by
    rwa [Config.put_of_ne _ other]
  exact ⟨_, (move_eq_some step).mpr ⟨m, last, back, rfl⟩,
    (move_eq_some step).mpr ⟨l, last, front, config.put_comm other l m s₁ s₂ last⟩⟩

theorem Commuting.run_behind {config next last : Config ι L σ} {i : ι} {order : List ι}
    (owned : ∀ k, own k (config.locals k)) (reached : run step config order = some last)
    (quiet : Quiet step last) (moved : move step config i = some next) :
    ∃ rest, run step next rest = some last ∧ (i :: rest).Perm order := by
  -- The step is moved along the order until the order takes it itself.
  induction order generalizing config next with
  | nil =>
      rw [← Option.some.inj reached] at quiet
      rw [quiet i] at moved
      cases moved
  | cons j order ih =>
      rw [run, Runs.run_cons] at reached
      obtain ⟨middle, first, later⟩ := Option.bind_eq_some_iff.mp reached
      by_cases same : i = j
      · subst same
        rw [first] at moved
        rw [← Option.some.inj moved]
        exact ⟨order, later, List.Perm.refl _⟩
      · rcases commuting.diamond owned same moved first with ⟨corner, there, here⟩
        rcases ih (commuting.move_keeps owned first) later here with ⟨rest, ended, perm⟩
        refine ⟨j :: rest, ?_, ?_⟩
        · rw [run, Runs.run_cons, there]
          exact ended
        · exact (List.Perm.swap j i rest).trans (perm.cons j)

/-- Where one order of the steps comes to an end, every other order can be continued to the
same one, with the same steps of every thread. -/
theorem Commuting.run_confluent {config last middle : Config ι L σ} {order other : List ι}
    (owned : ∀ k, own k (config.locals k)) (reached : run step config order = some last)
    (quiet : Quiet step last) (behind : run step config other = some middle) :
    ∃ rest, run step middle rest = some last ∧ (other ++ rest).Perm order := by
  induction other generalizing config order with
  | nil =>
      rw [← Option.some.inj behind]
      exact ⟨order, reached, List.Perm.refl _⟩
  | cons i other ih =>
      rw [run, Runs.run_cons] at behind
      obtain ⟨next, moved, later⟩ := Option.bind_eq_some_iff.mp behind
      rcases commuting.run_behind owned reached quiet moved with ⟨order', ended, perm⟩
      rcases ih (commuting.move_keeps owned moved) ended later with ⟨rest, there, perm'⟩
      exact ⟨rest, there, (perm'.cons i).trans perm⟩

theorem Commuting.run_unique {config last middle : Config ι L σ} {order other : List ι}
    (owned : ∀ k, own k (config.locals k)) (reached : run step config order = some last)
    (quiet : Quiet step last) (behind : run step config other = some middle)
    (stuck : Quiet step middle) : middle = last ∧ other.Perm order := by
  rcases commuting.run_confluent owned reached quiet behind with ⟨rest, there, perm⟩
  cases rest with
  | nil =>
      rw [List.append_nil] at perm
      exact ⟨Option.some.inj there, perm⟩
  | cons i rest =>
      rw [run, Runs.run_cons, stuck i] at there
      cases there

end commuting

/-- The steps of one thread that the others leave alone. -/
def Alone : L × σ → L × σ → Prop :=
  Relation.ReflTransGen (fun one two => step one.1 one.2 = some two)

variable {step} in
theorem Alone.head {first middle last : L × σ} (stepped : step first.1 first.2 = some middle)
    (later : Alone step middle last) : Alone step first last :=
  Relation.ReflTransGen.head stepped later

variable {step} in
theorem Alone.single {first last : L × σ} (stepped : step first.1 first.2 = some last) :
    Alone step first last := Relation.ReflTransGen.single stepped

variable {step} in
theorem Alone.trans {first middle last : L × σ} (way : Alone step first middle)
    (later : Alone step middle last) : Alone step first last :=
  Relation.ReflTransGen.trans way later

theorem run_alone {config : Config ι L σ} {i : ι} {first last : L × σ}
    (alone : Alone step first last) (here : (config.locals i, config.shared) = first) :
    ∃ order, run step config order = some (config.put i last.1 last.2) := by
  induction alone using Relation.ReflTransGen.head_induction_on generalizing config with
  | refl =>
      refine ⟨[], ?_⟩
      rw [← here, config.put_here]
      rfl
  | @head one middle stepped _ ih =>
      rw [← here] at stepped
      have moved : move step config i = some (config.put i middle.1 middle.2) :=
        (move_eq_some step).mpr ⟨middle.1, middle.2, stepped, rfl⟩
      have there : ((config.put i middle.1 middle.2).locals i,
          (config.put i middle.1 middle.2).shared) = middle := by
        rw [Config.put_self]
        rfl
      rcases ih there with ⟨order, reached⟩
      refine ⟨i :: order, ?_⟩
      rw [run, Runs.run_cons, moved]
      rw [Config.put_put] at reached
      exact reached

theorem run_append_eq_some {config middle last : Config ι L σ} {front back : List ι}
    (first : run step config front = some middle) (second : run step middle back = some last) :
    run step config (front ++ back) = some last := by
  rw [run, Runs.run_append]
  exact Option.bind_eq_some_iff.mpr ⟨middle, first, second⟩

end NetworkSystem.Interleave
