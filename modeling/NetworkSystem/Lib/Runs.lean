import Mathlib.Data.Option.Basic

/-! Runs of a machine that takes one event after the other and may get stuck. Nothing
here names a program. -/

namespace NetworkSystem.Runs

variable {σ τ ε : Type} (step : σ → ε → Option σ)

/-- The state behind a list of events, unless one of them is stuck. -/
def run : σ → List ε → Option σ
  | state, [] => some state
  | state, event :: rest =>
      match step state event with
      | none => none
      | some next => run next rest

theorem run_cons (state : σ) (event : ε) (rest : List ε) :
    run step state (event :: rest) = (step state event).bind (fun next => run step next rest) := by
  rw [run]
  cases step state event <;> rfl

theorem run_append (state : σ) (front back : List ε) :
    run step state (front ++ back) = (run step state front).bind (fun next => run step next back) := by
  induction front generalizing state with
  | nil => rfl
  | cons event rest ih =>
      rw [List.cons_append, run_cons, run_cons, Option.bind_assoc]
      exact congrArg _ (funext ih)

theorem run_concat (state : σ) (front : List ε) (event : ε) :
    run step state (front ++ [event]) =
      (run step state front).bind (fun next => step next event) := by
  rw [run_append]
  apply congrArg
  funext next
  rw [run_cons]
  exact Option.bind_fun_some (step next event)

/-- What every step with an admitted event preserves holds behind every run of such
events. -/
theorem run_invariant_on (invariant : σ → Prop) (admitted : ε → Prop)
    (preserves : ∀ state event next, invariant state → admitted event →
      step state event = some next → invariant next)
    (state last : σ) (events : List ε) (start : invariant state)
    (all : ∀ event ∈ events, admitted event)
    (reached : run step state events = some last) : invariant last := by
  induction events generalizing state with
  | nil =>
      rw [← Option.some.inj reached]
      exact start
  | cons event rest ih =>
      rw [run_cons] at reached
      obtain ⟨next, stepped, later⟩ := Option.bind_eq_some_iff.mp reached
      have here := all event List.mem_cons_self
      exact ih next (preserves state event next start here stepped)
        (fun other member => all other (List.mem_cons_of_mem _ member)) later

theorem run_invariant (invariant : σ → Prop)
    (preserves : ∀ state event next, invariant state → step state event = some next →
      invariant next)
    (state last : σ) (events : List ε) (start : invariant state)
    (reached : run step state events = some last) : invariant last :=
  run_invariant_on step invariant (fun _ => True)
    (fun state event next holds _ stepped => preserves state event next holds stepped)
    state last events start (fun _ _ => trivial) reached

/-- The states of a run are its first one and those of the run behind the first step. -/
theorem states_cons {property : σ → Prop} {state next : σ} {event : ε} (rest : List ε)
    (stepped : step state event = some next) :
    (∀ front middle, front <+: event :: rest → run step state front = some middle →
      property middle) ↔
      property state ∧ ∀ front middle, front <+: rest → run step next front = some middle →
        property middle := by
  constructor
  · intro all
    constructor
    · exact all [] state List.nil_prefix rfl
    · intro front middle inside here
      apply all (event :: front) middle (List.cons_prefix_cons.mpr ⟨rfl, inside⟩)
      rw [run_cons, stepped, Option.bind_some, here]
  · intro both front middle inside here
    cases front with
    | nil =>
        rw [← Option.some.inj here]
        exact both.1
    | cons first front =>
        obtain ⟨rfl, shorter⟩ := List.cons_prefix_cons.mp inside
        rw [run_cons, stepped, Option.bind_some] at here
        exact both.2 front middle shorter here

theorem steps_cons {condition : σ → ε → Prop} {state next : σ} {event : ε} (rest : List ε)
    (stepped : step state event = some next) :
    (∀ front other middle, front ++ [other] <+: event :: rest →
      run step state front = some middle → condition middle other) ↔
      condition state event ∧ ∀ front other middle, front ++ [other] <+: rest →
        run step next front = some middle → condition middle other := by
  constructor
  · intro all
    constructor
    · exact all [] event state (List.prefix_append [event] rest) rfl
    · intro front other middle inside here
      apply all (event :: front) other middle (List.cons_prefix_cons.mpr ⟨rfl, inside⟩)
      rw [run_cons, stepped, Option.bind_some, here]
  · intro both front other middle inside here
    cases front with
    | nil =>
        have same : other = event := (List.cons_prefix_cons.mp inside).1
        rw [← Option.some.inj here, same]
        exact both.1
    | cons first front =>
        obtain ⟨rfl, shorter⟩ := List.cons_prefix_cons.mp inside
        rw [run_cons, stepped, Option.bind_some] at here
        exact both.2 front other middle shorter here

theorem steps_append {condition : σ → ε → Prop} {state next : σ} {front back : List ε}
    (reached : run step state front = some next)
    (all : ∀ before event middle, before ++ [event] <+: front ++ back →
      run step state before = some middle → condition middle event) :
    (∀ before event middle, before ++ [event] <+: front →
      run step state before = some middle → condition middle event) ∧
    ∀ before event middle, before ++ [event] <+: back →
      run step next before = some middle → condition middle event := by
  constructor
  · intro before event middle inside here
    exact all before event middle (inside.trans (List.prefix_append front back)) here
  · intro before event middle inside here
    apply all (front ++ before) event middle
    · rw [List.append_assoc]
      exact (List.prefix_append_right_inj front).mpr inside
    · rw [run_append, reached, Option.bind_some]
      exact here

/-- The steps of a run meet a condition, until one of them is stuck. -/
def Along (condition : σ → ε → Prop) : σ → List ε → Prop
  | _, [] => True
  | state, event :: rest =>
      condition state event ∧ ∀ next ∈ step state event, Along condition next rest

instance (condition : σ → ε → Prop) [∀ state event, Decidable (condition state event)]
    (state : σ) (events : List ε) : Decidable (Along step condition state events) :=
  match events with
  | [] => inferInstanceAs (Decidable True)
  | event :: rest =>
      have := fun next => instDecidableAlong condition next rest
      inferInstanceAs (Decidable (_ ∧ ∀ next ∈ step state event, Along step condition next rest))

theorem steps_of_along {condition : σ → ε → Prop} {state : σ} {events : List ε}
    (along : Along step condition state events) :
    ∀ front event middle, front ++ [event] <+: events → run step state front = some middle →
      condition middle event := by
  intro front
  induction front generalizing state events with
  | nil =>
      intro event middle inside here
      obtain ⟨rest, rfl⟩ := inside
      rw [← Option.some.inj here]
      exact along.1
  | cons first front ih =>
      intro event middle inside here
      obtain ⟨rest, rfl⟩ := inside
      rw [run_cons] at here
      obtain ⟨next, stepped, later⟩ := Option.bind_eq_some_iff.mp here
      exact ih (along.2 next stepped) event middle (List.prefix_append _ rest) later

/-- What every step keeps that meets a condition holds behind every run of such steps. -/
theorem run_along (invariant : σ → Prop) (condition : σ → ε → Prop)
    (preserves : ∀ state event next, invariant state → condition state event →
      step state event = some next → invariant next)
    (state last : σ) (events : List ε) (start : invariant state)
    (all : ∀ front event middle, front ++ [event] <+: events → run step state front = some middle →
      condition middle event)
    (reached : run step state events = some last) : invariant last := by
  induction events generalizing state with
  | nil =>
      rw [← Option.some.inj reached]
      exact start
  | cons event rest ih =>
      rw [run_cons] at reached
      obtain ⟨next, stepped, later⟩ := Option.bind_eq_some_iff.mp reached
      rcases (steps_cons step rest stepped).mp all with ⟨here, behind⟩
      exact ih next (preserves state event next start here stepped) behind later

/-- A property that a step keeps exactly under a condition on the step: it holds in all
states of a run exactly when all steps meet the condition. -/
theorem run_throughout (invariant property : σ → Prop) (condition : σ → ε → Prop)
    (preserves : ∀ state event next, invariant state → step state event = some next →
      invariant next)
    (exact_ : ∀ state event next, invariant state → property state →
      step state event = some next → (property next ↔ condition state event))
    (state last : σ) (events : List ε) (start : invariant state) (holds : property state)
    (reached : run step state events = some last) :
    (∀ front middle, front <+: events → run step state front = some middle → property middle) ↔
      ∀ front event middle, front ++ [event] <+: events → run step state front = some middle →
        condition middle event := by
  induction events generalizing state with
  | nil =>
      constructor
      · intro _ front event middle inside
        have none_ := List.eq_nil_of_prefix_nil inside
        simp at none_
      · intro _ front middle inside here
        rw [List.eq_nil_of_prefix_nil inside] at here
        rw [← Option.some.inj here]
        exact holds
  | cons event rest ih =>
      rw [run_cons] at reached
      obtain ⟨next, stepped, later⟩ := Option.bind_eq_some_iff.mp reached
      have step_ := exact_ state event next start holds stepped
      have tail := fun kept => ih next (preserves state event next start stepped) kept later
      rw [states_cons step rest stepped, steps_cons step rest stepped]
      constructor
      · intro both
        have kept : property next := both.2 [] next List.nil_prefix rfl
        exact ⟨step_.mp kept, (tail kept).mp both.2⟩
      · intro both
        have kept : property next := step_.mpr both.1
        exact ⟨holds, (tail kept).mpr both.2⟩

/-- A property that a step leaves behind only where it has held and the condition is met: a
run ends with it only if all its steps meet the condition. -/
theorem steps_of_last (invariant property : σ → Prop) (condition : σ → ε → Prop)
    (preserves : ∀ state event next, invariant state → step state event = some next →
      invariant next)
    (back : ∀ state event next, invariant state → step state event = some next →
      property next → property state ∧ condition state event)
    (state last : σ) (events : List ε) (start : invariant state)
    (reached : run step state events = some last) (holds : property last) :
    property state ∧ ∀ front event middle, front ++ [event] <+: events →
      run step state front = some middle → condition middle event := by
  induction events generalizing state with
  | nil =>
      rw [← Option.some.inj reached] at holds
      refine ⟨holds, ?_⟩
      intro front event middle inside
      have none_ := List.eq_nil_of_prefix_nil inside
      simp at none_
  | cons event rest ih =>
      rw [run_cons] at reached
      obtain ⟨next, stepped, later⟩ := Option.bind_eq_some_iff.mp reached
      rcases ih next (preserves state event next start stepped) later with ⟨kept, steps⟩
      rcases back state event next start stepped kept with ⟨before, met⟩
      exact ⟨before, (steps_cons step rest stepped).mpr ⟨met, steps⟩⟩

/-- Machines whose steps keep their states related have related runs, and get stuck
together. -/
theorem run_alike (other : τ → ε → Option τ) (alike : σ → τ → Prop)
    (steps : ∀ state mirror event, alike state mirror →
      Option.Rel alike (step state event) (other mirror event))
    (state : σ) (mirror : τ) (events : List ε) (start : alike state mirror) :
    Option.Rel alike (run step state events) (run other mirror events) := by
  induction events generalizing state mirror with
  | nil => exact Option.Rel.some start
  | cons event rest ih =>
      have here := steps state mirror event start
      rw [run_cons, run_cons]
      generalize step state event = stepped at here ⊢
      generalize other mirror event = mirrored at here ⊢
      cases here with
      | none => exact Option.Rel.none
      | some next => exact ih _ _ next

/-- A machine whose steps follow those of one that never gets stuck, as far as a condition
on the step is met: it comes through every run whose steps meet the condition. -/
theorem run_follows (next : τ → ε → τ) (shows : τ → σ → Prop) (condition : σ → ε → Prop)
    (steps : ∀ mirror state event, shows mirror state → condition state event →
      ∃ after, step state event = some after ∧ shows (next mirror event) after)
    (mirror : τ) (state : σ) (events : List ε) (start : shows mirror state)
    (all : ∀ front event middle, front ++ [event] <+: events → run step state front = some middle →
      condition middle event) :
    ∃ last, run step state events = some last ∧ shows (events.foldl next mirror) last := by
  induction events generalizing mirror state with
  | nil => exact ⟨state, rfl, start⟩
  | cons event rest ih =>
      have here := all [] event state (List.prefix_append [event] rest) rfl
      rcases steps mirror state event start here with ⟨after, stepped, related⟩
      rcases ih (next mirror event) after related ((steps_cons step rest stepped).mp all).2 with
        ⟨last, later, ended⟩
      refine ⟨last, ?_, ended⟩
      rw [run_cons, stepped, Option.bind_some]
      exact later

end NetworkSystem.Runs
