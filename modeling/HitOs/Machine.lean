import HitOs.Routine
import HitOs.Traces

namespace HitOs

/-!
# Machines driven by calls, and their reachable states

A machine has initial states and a family of actions.  Each action is enabled in
some states and runs a routine; the machine is ready for the next action when
the routine has returned, and also when it has abandoned the task it ran for.
`Reachable.invariant` packages the induction over runs once.
-/

/-- A state machine whose actions are routines. -/
structure Machine (σ α : Type) where
  initial :
    σ → Prop
  enabled :
    α → σ → Prop
  perform :
    α → Routine σ Unit

namespace Machine

variable {σ α : Type} {machine : Machine σ α}

/-- One action that was enabled and did not panic. -/
inductive Step
    (machine : Machine σ α) :
    σ → α → σ → Prop where
  | returned
      {state after : σ} {action : α}
      (enabled : machine.enabled action state)
      (outcome : machine.perform action state = .ret () after) :
      Step machine state action after
  | abandoned
      {state after : σ} {action : α}
      (enabled : machine.enabled action state)
      (outcome : machine.perform action state = .abandon after) :
      Step machine state action after

/-- The states that finitely many actions lead to. -/
inductive Reachable
    (machine : Machine σ α) :
    σ → Prop where
  | start
      {state : σ}
      (initial : machine.initial state) :
      Reachable machine state
  | step
      {state after : σ} {action : α}
      (reached : Reachable machine state)
      (stepped : machine.Step state action after) :
      Reachable machine after

/-- What every enabled action does from a state of the invariant. -/
def Preserves
    (machine : Machine σ α)
    (invariant : σ → Prop) : Prop :=
  ∀ action state,
    invariant state → machine.enabled action state →
      (machine.perform action).Satisfies state
        (fun _ after => invariant after) invariant

theorem Step.invariant
    {invariant : σ → Prop}
    {state after : σ} {action : α}
    (preserves : machine.Preserves invariant)
    (before : invariant state)
    (stepped : machine.Step state action after) :
    invariant after := by
  cases stepped with
  | returned enabled outcome =>
    exact (preserves action state before enabled).of_ret outcome
  | abandoned enabled outcome =>
    exact (preserves action state before enabled).of_abandon outcome

/-- A step is an enabled action and the state that it ends in. -/
theorem Step.ends
    {state after : σ} {action : α}
    (stepped : machine.Step state action after) :
    machine.enabled action state ∧
      (machine.perform action state).EndsIn after := by
  cases stepped with
  | returned enabled outcome =>
    exact ⟨enabled, Or.inl ⟨(), outcome⟩⟩
  | abandoned enabled outcome =>
    exact ⟨enabled, Or.inr outcome⟩

/-- An action leads from a state to at most one. -/
theorem Step.deterministic
    {state first second : σ} {action : α}
    (stepped : machine.Step state action first)
    (again : machine.Step state action second) :
    first = second := by
  cases stepped with
  | returned _ outcome =>
    cases again with
    | returned _ outcome' =>
      cases outcome.symm.trans outcome'
      rfl
    | abandoned _ outcome' =>
      cases outcome.symm.trans outcome'
  | abandoned _ outcome =>
    cases again with
    | returned _ outcome' =>
      cases outcome.symm.trans outcome'
    | abandoned _ outcome' =>
      cases outcome.symm.trans outcome'
      rfl

/-- The run rule: an invariant of the actions holds in every reachable state. -/
theorem Reachable.invariant
    {invariant : σ → Prop}
    {state : σ}
    (initially :
      ∀ first, machine.initial first → invariant first)
    (preserves : machine.Preserves invariant)
    (reached : machine.Reachable state) :
    invariant state := by
  induction reached with
  | start initial =>
    exact initially _ initial
  | step _ stepped inductionHypothesis =>
    exact stepped.invariant preserves inductionHypothesis

/-- No enabled action panics in a reachable state. -/
theorem Reachable.not_panic
    {invariant : σ → Prop}
    {state : σ} {action : α}
    (initially :
      ∀ first, machine.initial first → invariant first)
    (preserves : machine.Preserves invariant)
    (reached : machine.Reachable state)
    (enabled : machine.enabled action state)
    (message : String) :
    machine.perform action state ≠ .panic message :=
  (preserves action state
    (reached.invariant initially preserves) enabled).not_panic message

/-! ## Running given actions -/

/-- Run actions one after the other, as long as each is enabled and returns. -/
def follow
    (machine : Machine σ α)
    (enabled : α → σ → Bool) :
    List α → σ → Option σ
  | [], state => some state
  | action :: actions, state =>
    if enabled action state then
      match machine.perform action state with
      | .ret () after => machine.follow enabled actions after
      | .abandon _ => none
      | .panic _ => none
    else
      none

/-- Actions that have been followed are a run, with what has been checked. -/
theorem traces_of_follow
    {enabled : α → σ → Bool} {condition : α → σ → Prop}
    {actions : List α} {state last : σ}
    (sound :
      ∀ action state, enabled action state = true →
        machine.enabled action state ∧ condition action state)
    (followed : machine.follow enabled actions state = some last) :
    Traces
      (fun action before after =>
        machine.Step before action after ∧ condition action before)
      actions state last := by
  induction actions generalizing state with
  | nil =>
    cases followed
    exact .done _
  | cons action actions inductionHypothesis =>
    unfold Machine.follow at followed
    split at followed
    · rename_i isEnabled
      obtain ⟨enabled, checked⟩ := sound action state isEnabled
      split at followed
      · rename_i after outcome
        exact .next ⟨.returned enabled outcome, checked⟩
          (inductionHypothesis followed)
      · cases followed
      · cases followed
    · cases followed

/-- Runs lead from reachable states to reachable states. -/
theorem Reachable.traces
    {actions : List α} {state last : σ}
    (reached : machine.Reachable state)
    (run :
      Traces (fun action before after => machine.Step before action after)
        actions state last) :
    machine.Reachable last :=
  run.invariant (fun _ _ _ before stepped => before.step stepped) reached

theorem Reachable.follow
    {enabled : α → σ → Bool} {actions : List α} {state last : σ}
    (sound :
      ∀ action state, enabled action state = true → machine.enabled action state)
    (reached : machine.Reachable state)
    (followed : machine.follow enabled actions state = some last) :
    machine.Reachable last := by
  have run :
      Traces (fun action before after =>
        machine.Step before action after ∧ True) actions state last :=
    traces_of_follow
      (fun action state isEnabled => ⟨sound action state isEnabled, trivial⟩)
      followed
  exact reached.traces (run.mono fun _ _ _ stepped => stepped.1)

end Machine

end HitOs
