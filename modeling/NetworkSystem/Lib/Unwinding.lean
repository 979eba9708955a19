import Mathlib.Data.List.Basic

/-! A machine that several parties send events to, and what one of them can tell about the
events of the others. Nothing here names a program. -/

namespace NetworkSystem.Unwinding

variable {σ ε ω : Type} (step : σ → ε → σ) (output : σ → ε → List ω) (mine : ε → Bool)

/-- What the events of one party put out along a run. -/
def heard : σ → List ε → List ω
  | _, [] => []
  | state, event :: rest =>
      (if mine event then output state event else []) ++ heard (step state event) rest

theorem heard_append (state : σ) (front back : List ε) :
    heard step output mine state (front ++ back) =
      heard step output mine state front ++ heard step output mine (front.foldl step state) back := by
  induction front generalizing state with
  | nil => rfl
  | cons event rest ih => simp only [List.cons_append, heard, List.foldl_cons, ih, List.append_assoc]

/-- Every event of a run is admitted where it comes. -/
def Along (admitted : σ → ε → Prop) : σ → List ε → Prop
  | _, [] => True
  | state, event :: rest => admitted state event ∧ Along admitted (step state event) rest

instance (admitted : σ → ε → Prop) [∀ state event, Decidable (admitted state event)]
    (state : σ) (events : List ε) : Decidable (Along step admitted state events) :=
  match events with
  | [] => inferInstanceAs (Decidable True)
  | event :: rest =>
      have := instDecidableAlong admitted (step state event) rest
      inferInstanceAs (Decidable (_ ∧ _))

/-- States that a party cannot tell apart stay so: its own events do the same in both, and
those of the others do nothing that it sees. -/
structure Unwinds (invariant : σ → Prop) (admitted : σ → ε → Prop) (same : σ → σ → Prop) :
    Prop where
  keeps : ∀ {state event}, invariant state → admitted state event → invariant (step state event)
  outputs : ∀ {state mirror event}, mine event = true → invariant state →
    admitted state event → same state mirror → output mirror event = output state event
  steps : ∀ {state mirror event}, mine event = true → invariant state →
    admitted state event → same state mirror → same (step state event) (step mirror event)
  spares : ∀ {state mirror event}, mine event = false → invariant state →
    admitted state event → same state mirror → same (step state event) mirror

variable {step output mine} {invariant : σ → Prop} {admitted : σ → ε → Prop}
  {same : σ → σ → Prop}

/-- Without the events of the others a party hears and sees the same. -/
theorem Unwinds.purge (unwinds : Unwinds step output mine invariant admitted same)
    {state mirror : σ} {events : List ε} (start : invariant state) (alike : same state mirror)
    (along : Along step admitted state events) :
    heard step output mine mirror (events.filter mine) = heard step output mine state events ∧
      same (events.foldl step state) ((events.filter mine).foldl step mirror) := by
  induction events generalizing state mirror with
  | nil => exact ⟨rfl, alike⟩
  | cons event rest ih =>
      rcases along with ⟨here, later⟩
      have next := unwinds.keeps start here
      cases own : mine event with
      | true =>
          have tail := ih next (unwinds.steps own start here alike) later
          rw [List.filter_cons_of_pos own]
          simp only [heard, own, ↓reduceIte, List.foldl_cons]
          rw [unwinds.outputs own start here alike, tail.1]
          exact ⟨rfl, tail.2⟩
      | false =>
          have tail := ih next (unwinds.spares own start here alike) later
          rw [List.filter_cons_of_neg (by simp only [own, Bool.false_eq_true, not_false_eq_true])]
          simp only [heard, own, Bool.false_eq_true, ↓reduceIte, List.nil_append, List.foldl_cons]
          exact tail

end NetworkSystem.Unwinding
