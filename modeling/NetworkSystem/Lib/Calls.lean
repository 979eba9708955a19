import Mathlib.Data.Option.Basic
import Mathlib.Tactic.Common

/-! Programs that call their environment: their runs in an environment with a state, the
calls on the way through them, and what holds of a program whatever it is answered.
Nothing here names a program. -/

namespace NetworkSystem.Calls

/-- A call is answered with a `Reply` of its own type. -/
inductive Prog {Call : Type} (Reply : Call → Type) (α : Type) where
  | ret (value : α)
  | call (c : Call) (next : Reply c → Prog Reply α)

variable {Call σ α β : Type} {Reply : Call → Type}

namespace Prog

def bind : Prog Reply α → (α → Prog Reply β) → Prog Reply β
  | .ret value, f => f value
  | .call c next, f => .call c (fun reply => bind (next reply) f)

instance : Monad (Prog Reply) where
  pure := .ret
  bind := bind

def perform (c : Call) : Prog Reply (Reply c) := .call c .ret

@[simp] theorem pure_eq (value : α) : (pure value : Prog Reply α) = .ret value := rfl

@[simp] theorem ret_bind (value : α) (f : α → Prog Reply β) : (.ret value >>= f) = f value := rfl

@[simp] theorem call_bind (c : Call) (next : Reply c → Prog Reply α) (f : α → Prog Reply β) :
    (.call c next >>= f) = .call c (fun reply => next reply >>= f) := rfl

@[simp] theorem perform_bind (c : Call) (f : Reply c → Prog Reply β) :
    (perform c >>= f) = .call c f := rfl

theorem bind_assoc {γ : Type} (p : Prog Reply α) (f : α → Prog Reply β) (g : β → Prog Reply γ) :
    (p >>= f >>= g) = p >>= fun value => f value >>= g := by
  induction p with
  | ret value => rfl
  | call c next ih => exact congrArg (Prog.call c) (funext ih)

variable (env : (c : Call) → σ → Option (Reply c × σ))

/-- The value and the state behind a program, unless one of its calls is never answered. -/
def run : Prog Reply α → σ → Option (α × σ)
  | .ret value, state => some (value, state)
  | .call c next, state =>
      match env c state with
      | none => none
      | some (reply, state) => run (next reply) state

@[simp] theorem run_ret (value : α) (state : σ) :
    run env (.ret value : Prog Reply α) state = some (value, state) := rfl

theorem run_call (c : Call) (next : Reply c → Prog Reply α) (state : σ) :
    run env (.call c next) state = (env c state).bind (fun (reply, state) =>
      run env (next reply) state) := by
  rw [run]
  cases env c state <;> rfl

theorem run_bind (p : Prog Reply α) (f : α → Prog Reply β) (state : σ) :
    run env (p >>= f) state =
      (run env p state).bind (fun (value, state) => run env (f value) state) := by
  induction p generalizing state with
  | ret value => rfl
  | call c next ih =>
      rw [call_bind, run_call, run_call]
      cases env c state with
      | none => rfl
      | some answered => exact ih answered.1 answered.2

theorem run_call_eq_some {c : Call} {next : Reply c → Prog Reply α} {state last : σ} {value : α} :
    run env (.call c next) state = some (value, last) ↔
      ∃ reply middle, env c state = some (reply, middle) ∧
        run env (next reply) middle = some (value, last) := by
  rw [run_call, Option.bind_eq_some_iff, Prod.exists]

theorem run_bind_eq_some {p : Prog Reply α} {f : α → Prog Reply β} {state last : σ} {value : β} :
    run env (p >>= f) state = some (value, last) ↔
      ∃ result middle, run env p state = some (result, middle) ∧
        run env (f result) middle = some (value, last) := by
  rw [run_bind, Option.bind_eq_some_iff, Prod.exists]

/-- What every call keeps, a program keeps. -/
theorem run_keeps (invariant : σ → Prop)
    (keeps : ∀ c state reply next, invariant state → env c state = some (reply, next) →
      invariant next)
    (p : Prog Reply α) (state last : σ) (value : α) (start : invariant state)
    (ended : run env p state = some (value, last)) : invariant last := by
  induction p generalizing state with
  | ret result =>
      rw [run_ret, Option.some.injEq, Prod.mk.injEq] at ended
      exact ended.2 ▸ start
  | call c next ih =>
      obtain ⟨reply, middle, answered, rest⟩ := (run_call_eq_some env).mp ended
      exact ih reply middle (keeps c state reply middle start answered) rest

/-- The calls of a run, each with the state it is made in. -/
def calls : Prog Reply α → σ → List (Call × σ)
  | .ret _, _ => []
  | .call c next, state =>
      (c, state) :: (env c state).elim [] (fun (reply, state) => calls (next reply) state)

theorem calls_call (c : Call) (next : Reply c → Prog Reply α) (state : σ) :
    calls env (.call c next) state =
      (c, state) :: (env c state).elim [] (fun (reply, state) => calls env (next reply) state) := rfl

theorem calls_bind (p : Prog Reply α) (f : α → Prog Reply β) (state : σ) :
    calls env (p >>= f) state = calls env p state ++
      (run env p state).elim [] (fun (value, state) => calls env (f value) state) := by
  induction p generalizing state with
  | ret value => rfl
  | call c next ih =>
      rw [call_bind, calls_call, calls_call, run_call]
      cases env c state with
      | none => rfl
      | some answered => exact congrArg _ (ih answered.1 answered.2)

/-! What holds whatever the calls are answered. -/

/-- Under the answers that are admitted, every call is one of `calls` and every value one
of `values`. -/
def Meets (admits : (c : Call) → Reply c → Prop) (calls : Call → Prop) (values : α → Prop) :
    Prog Reply α → Prop
  | .ret value => values value
  | .call c next => calls c ∧ ∀ reply, admits c reply → Meets admits calls values (next reply)

theorem Meets.bind {admits : (c : Call) → Reply c → Prop} {calls : Call → Prop}
    {middle : α → Prop} {values : β → Prop} {p : Prog Reply α} {f : α → Prog Reply β}
    (first : p.Meets admits calls middle)
    (second : ∀ value, middle value → (f value).Meets admits calls values) :
    (p >>= f).Meets admits calls values := by
  induction p with
  | ret value => exact second value first
  | call c next ih => exact ⟨first.1, fun reply admitted => ih reply (first.2 reply admitted)⟩

theorem Meets.mono {admits : (c : Call) → Reply c → Prop} {calls allowed : Call → Prop}
    {values : α → Prop} {p : Prog Reply α} (meets : p.Meets admits calls values)
    (weaker : ∀ c, calls c → allowed c) : p.Meets admits allowed values := by
  induction p with
  | ret value => exact meets
  | call c next ih =>
      exact ⟨weaker c meets.1, fun reply admitted => ih reply (meets.2 reply admitted)⟩

theorem Meets.calls {admits : (c : Call) → Reply c → Prop} {allowed : Call → Prop}
    {values : α → Prop} {p : Prog Reply α} (meets : p.Meets admits allowed values)
    (admitted : ∀ c state reply next, env c state = some (reply, next) → admits c reply)
    (state : σ) : ∀ event ∈ p.calls env state, allowed event.1 := by
  induction p generalizing state with
  | ret value => exact fun event member => absurd member List.not_mem_nil
  | call c next ih =>
      rw [calls_call, List.forall_mem_cons]
      refine ⟨meets.1, ?_⟩
      cases answered : env c state with
      | none => exact fun event member => absurd member List.not_mem_nil
      | some both => exact ih both.1 (meets.2 both.1 (admitted c state both.1 both.2 answered)) both.2

/-- A run that ends in a good state has had admitted answers only, when every other answer
leads to a state from which no good one is reached. -/
theorem Meets.run {admits : (c : Call) → Reply c → Prop} {calls : Call → Prop}
    {values : α → Prop} (good : σ → Prop)
    (lost : ∀ c state reply next, env c state = some (reply, next) → good next → good state)
    (admitted : ∀ c state reply next, env c state = some (reply, next) → good next →
      admits c reply)
    {p : Prog Reply α} (meets : p.Meets admits calls values) (state last : σ) (value : α)
    (ended : run env p state = some (value, last)) (fine : good last) : values value := by
  induction p generalizing state with
  | ret result =>
      rw [run_ret, Option.some.injEq, Prod.mk.injEq] at ended
      exact ended.1 ▸ meets
  | call c next ih =>
      obtain ⟨reply, middle, answered, rest⟩ := (run_call_eq_some env).mp ended
      have still : good middle := by
        by_contra bad
        exact run_keeps env (fun state => ¬ good state)
          (fun c state reply next bad answered fine => bad (lost c state reply next answered fine))
          (next reply) middle last value bad rest fine
      exact ih reply (meets.2 reply (admitted c state reply middle answered still)) middle rest

/-- What is left of a program behind some calls with their answers. -/
def Behind : Prog Reply α → List (Σ c, Reply c) → Prog Reply α → Prop
  | p, [], rest => rest = p
  | p, ⟨c, reply⟩ :: trace, rest => ∃ next, p = .call c next ∧ Behind (next reply) trace rest

/-- A property of every call with its answer and what is left behind it. -/
def Throughout (property : (c : Call) → Reply c → Prog Reply α → Prop) : Prog Reply α → Prop
  | .ret _ => True
  | .call c next =>
      ∀ reply, property c reply (next reply) ∧ Throughout property (next reply)

theorem Throughout.bind {property : (c : Call) → Reply c → Prog Reply β → Prop}
    {p : Prog Reply α} {f : α → Prog Reply β}
    (first : p.Throughout (fun c reply rest => property c reply (rest >>= f)))
    (second : ∀ value, (f value).Throughout property) : (p >>= f).Throughout property := by
  induction p with
  | ret value => exact second value
  | call c next ih => exact fun reply => ⟨(first reply).1, ih reply (first reply).2⟩

theorem Throughout.behind {property : (c : Call) → Reply c → Prog Reply α → Prop}
    {p rest : Prog Reply α} (all : p.Throughout property) (trace : List (Σ c, Reply c))
    (c : Call) (reply : Reply c) (way : Behind p (trace ++ [⟨c, reply⟩]) rest) :
    property c reply rest := by
  induction trace generalizing p with
  | nil =>
      rcases way with ⟨next, rfl, rfl⟩
      exact (all reply).1
  | cons event trace ih =>
      rcases way with ⟨next, rfl, later⟩
      exact ih (all event.2).2 later

end Prog

end NetworkSystem.Calls
