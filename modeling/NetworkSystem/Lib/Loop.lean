import Mathlib.Tactic.Common

/-! Loops as iterated bodies: a body either continues with a new state or
returns. Nothing here names a program. -/

namespace NetworkSystem.Loop

variable {σ ρ : Type}

/-- At most `fuel` runs of the body; `none` when it has not returned by then. -/
def iterate (body : σ → σ ⊕ ρ) : Nat → σ → Option ρ
  | 0, _ => none
  | fuel + 1, state =>
      match body state with
      | .inl next => iterate body fuel next
      | .inr result => some result

theorem iterate_mono (body : σ → σ ⊕ ρ) (fuel more : Nat) (state : σ) (result : ρ)
    (returned : iterate body fuel state = some result) (enough : fuel ≤ more) :
    iterate body more state = some result := by
  induction fuel generalizing more state with
  | zero => simp only [iterate, reduceCtorEq] at returned
  | succ fuel ih =>
      obtain ⟨more, rfl⟩ : ∃ rest, more = rest + 1 := ⟨more - 1, by omega⟩
      simp only [iterate] at returned ⊢
      cases stepped : body state with
      | inl next =>
          rw [stepped] at returned
          exact ih more next returned (by omega)
      | inr value =>
          rw [stepped] at returned
          exact returned

/-- An invariant of the continuing runs holds where the body returns. -/
theorem iterate_invariant (body : σ → σ ⊕ ρ) (invariant : σ → Prop) (post : ρ → Prop)
    (continues : ∀ state next, invariant state → body state = .inl next → invariant next)
    (returns : ∀ state result, invariant state → body state = .inr result → post result)
    (fuel : Nat) (state : σ) (result : ρ) (start : invariant state)
    (ended : iterate body fuel state = some result) : post result := by
  induction fuel generalizing state with
  | zero => simp only [iterate, reduceCtorEq] at ended
  | succ fuel ih =>
      simp only [iterate] at ended
      cases stepped : body state with
      | inl next =>
          rw [stepped] at ended
          exact ih next (continues state next start stepped) ended
      | inr value =>
          rw [stepped] at ended
          rw [← Option.some.inj ended]
          exact returns state value start stepped

/-- The state behind some continuing runs; `none` when the body returns in one of them. -/
def after (body : σ → σ ⊕ ρ) : Nat → σ → Option σ
  | 0, state => some state
  | rounds + 1, state =>
      match body state with
      | .inl next => after body rounds next
      | .inr _ => none

/-- One run more at the end. -/
theorem after_succ (body : σ → σ ⊕ ρ) (rounds : Nat) (state : σ) :
    after body (rounds + 1) state =
      (after body rounds state).bind (fun last => (body last).elim some (fun _ => none)) := by
  induction rounds generalizing state with
  | zero =>
      simp only [after, Option.bind_some]
      cases body state <;> rfl
  | succ rounds ih =>
      rw [after]
      cases stepped : body state with
      | inl next =>
          have one : after body (rounds + 1) state = after body rounds next := by
            simp only [after, stepped]
          rw [one]
          exact ih next
      | inr result => simp only [after, stepped, Option.bind_none]

theorem after_succ_eq_some {body : σ → σ ⊕ ρ} {rounds : Nat} {state last : σ} :
    after body (rounds + 1) state = some last ↔
      ∃ middle, after body rounds state = some middle ∧ body middle = .inl last := by
  rw [after_succ, Option.bind_eq_some_iff]
  apply exists_congr
  intro middle
  cases body middle <;> simp

/-- The body returns. -/
def Returns (body : σ → σ ⊕ ρ) (state : σ) : Prop := ∃ fuel, (iterate body fuel state).isSome = true

theorem iterate_isSome_iff (body : σ → σ ⊕ ρ) (fuel : Nat) (state : σ) :
    (iterate body fuel state).isSome = true ↔ after body fuel state = none := by
  induction fuel generalizing state with
  | zero => simp [iterate, after]
  | succ fuel ih =>
      simp only [iterate, after]
      cases body state with
      | inl next => exact ih next
      | inr result => simp

/-- The loop returns when the body does after some continuing runs. -/
theorem returns_iff (body : σ → σ ⊕ ρ) (state : σ) :
    Returns body state ↔
      ∃ rounds last result, after body rounds state = some last ∧ body last = .inr result := by
  simp only [Returns, iterate_isSome_iff]
  constructor
  · intro ended
    rcases ended with ⟨fuel, ended⟩
    induction fuel with
    | zero => cases ended
    | succ fuel ih =>
        cases before : after body fuel state with
        | none => exact ih before
        | some last =>
            rw [after_succ, before, Option.bind_some] at ended
            cases returned : body last with
            | inl next =>
                rw [returned] at ended
                cases ended
            | inr result => exact ⟨fuel, last, result, before, returned⟩
  · intro ended
    rcases ended with ⟨rounds, last, result, before, returned⟩
    refine ⟨rounds + 1, ?_⟩
    rw [after_succ, before, Option.bind_some, returned]
    rfl

section phases

variable {body : σ → σ ⊕ ρ} {At : Nat → σ → Prop} {Ends : Nat → Prop}
  (returns : ∀ k state, At k state → Ends k → ∃ result, body state = .inr result)
  (continues : ∀ k state, At k state → ¬ Ends k → ∃ next, body state = .inl next ∧ At (k + 1) next)

include returns continues

theorem at_of_after (rounds k : Nat) (state last : σ) (here : At k state)
    (ran : after body rounds state = some last) :
    At (k + rounds) last ∧ ∀ j < rounds, ¬ Ends (k + j) := by
  induction rounds generalizing last with
  | zero =>
      rw [← Option.some.inj ran]
      exact ⟨here, fun j less => absurd less (Nat.not_lt_zero j)⟩
  | succ rounds ih =>
      obtain ⟨middle, before, stepped⟩ := after_succ_eq_some.mp ran
      rcases ih middle before with ⟨there, going⟩
      have goes : ¬ Ends (k + rounds) := by
        intro ends
        rcases returns _ _ there ends with ⟨result, returned⟩
        rw [stepped] at returned
        cases returned
      rcases continues _ _ there goes with ⟨next, same, later⟩
      rw [stepped] at same
      refine ⟨Sum.inl.inj same ▸ later, ?_⟩
      intro j less
      by_cases final : j = rounds
      · exact final ▸ goes
      · exact going j (by omega)

theorem last_of_returned (fuel k : Nat) (state : σ) (result : ρ) (here : At k state)
    (returned : iterate body fuel state = some result) :
    ∃ rounds last, At (k + rounds) last ∧ Ends (k + rounds) ∧ (∀ j < rounds, ¬ Ends (k + j)) ∧
      body last = .inr result := by
  induction fuel generalizing k state with
  | zero => cases returned
  | succ fuel ih =>
      simp only [iterate] at returned
      by_cases ends : Ends k
      · rcases returns k state here ends with ⟨value, stepped⟩
        rw [stepped] at returned
        rw [← Option.some.inj returned]
        exact ⟨0, state, here, ends, fun j less => absurd less (Nat.not_lt_zero j), stepped⟩
      · rcases continues k state here ends with ⟨next, stepped, later⟩
        rw [stepped] at returned
        rcases ih (k + 1) next later returned with ⟨rounds, last, there, ended, going, final⟩
        have shift : k + 1 + rounds = k + (rounds + 1) := by omega
        rw [shift] at there ended
        refine ⟨rounds + 1, last, there, ended, ?_, final⟩
        intro j less
        cases j with
        | zero => exact ends
        | succ j =>
            have earlier := going j (by omega)
            rwa [show k + 1 + j = k + (j + 1) by omega] at earlier

theorem returns_iff_ends (start : σ) (first : At 0 start) : Returns body start ↔ ∃ k, Ends k := by
  constructor
  · intro ended
    rcases ended with ⟨fuel, ended⟩
    obtain ⟨result, returned⟩ := Option.isSome_iff_exists.mp ended
    rcases last_of_returned returns continues fuel 0 start result first returned with
      ⟨rounds, last, -, ends, -, -⟩
    exact ⟨0 + rounds, ends⟩
  · intro ends
    rcases ends with ⟨k, ends⟩
    by_contra never
    have runs : ∃ last, after body k start = some last := by
      rw [← Option.isSome_iff_exists, ← Option.ne_none_iff_isSome, ne_eq, ← iterate_isSome_iff]
      exact fun ended => never ⟨k, ended⟩
    rcases runs with ⟨last, ran⟩
    have there := (at_of_after returns continues k 0 start last first ran).1
    rw [Nat.zero_add] at there
    rcases returns k last there ends with ⟨result, returned⟩
    exact never ((returns_iff body start).mpr ⟨k, last, result, ran, returned⟩)

end phases

theorem iterate_map {σ' ρ' : Type} (body : σ → σ ⊕ ρ) (other : σ' → σ' ⊕ ρ') (f : σ → σ')
    (g : ρ → ρ') (same : ∀ state, other (f state) = (body state).map f g) (fuel : Nat) (state : σ) :
    iterate other fuel (f state) = (iterate body fuel state).map g := by
  induction fuel generalizing state with
  | zero => rfl
  | succ fuel ih =>
      simp only [iterate, same]
      cases body state with
      | inl next => exact ih next
      | inr result => rfl

/-- A measure that every continuing run of the body decreases bounds the number
of runs. -/
theorem iterate_of_measure (body : σ → σ ⊕ ρ) (measure : σ → Nat)
    (decreases : ∀ state next, body state = .inl next → measure next < measure state)
    (fuel : Nat) (state : σ) (enough : measure state < fuel) :
    (iterate body fuel state).isSome = true := by
  induction fuel generalizing state with
  | zero => omega
  | succ fuel ih =>
      simp only [iterate]
      cases stepped : body state with
      | inl next =>
          have smaller := decreases state next stepped
          exact ih next (by omega)
      | inr value => rfl

def run (body : σ → σ ⊕ ρ) (measure : σ → Nat)
    (decreases : ∀ state next, body state = .inl next → measure next < measure state)
    (state : σ) : ρ :=
  (iterate body (measure state + 1) state).get
    (iterate_of_measure body measure decreases _ state (Nat.lt_succ_self _))

section run

variable (body : σ → σ ⊕ ρ) (measure : σ → Nat)
  (decreases : ∀ state next, body state = .inl next → measure next < measure state)

theorem iterate_run (state : σ) :
    iterate body (measure state + 1) state = some (run body measure decreases state) :=
  (Option.some_get _).symm

theorem run_continue (state next : σ) (stepped : body state = .inl next) :
    run body measure decreases state = run body measure decreases next := by
  have smaller := decreases state next stepped
  have outer := iterate_run body measure decreases state
  simp only [iterate, stepped] at outer
  have inner := iterate_mono body _ (measure state) next _
    (iterate_run body measure decreases next) (by omega)
  exact Option.some.inj (outer.symm.trans inner)

theorem run_return (state : σ) (result : ρ) (returned : body state = .inr result) :
    run body measure decreases state = result := by
  have outer := iterate_run body measure decreases state
  simp only [iterate, returned] at outer
  exact (Option.some.inj outer).symm

theorem run_induction (motive : σ → ρ → Prop)
    (returns : ∀ state result, body state = .inr result → motive state result)
    (continues : ∀ state next result, body state = .inl next →
      motive next result → motive state result) (state : σ) :
    motive state (run body measure decreases state) := by
  generalize bound : measure state = size
  induction size using Nat.strongRecOn generalizing state with
  | ind size ih =>
      cases stepped : body state with
      | inl next =>
          rw [run_continue body measure decreases state next stepped]
          exact continues state next _ stepped
            (ih (measure next) (bound ▸ decreases state next stepped) next rfl)
      | inr result =>
          rw [run_return body measure decreases state result stepped]
          exact returns state result stepped

end run

end NetworkSystem.Loop
