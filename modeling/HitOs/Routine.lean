import Mathlib.Tactic.Basic

namespace HitOs

/-!
# Routines that return, abandon their caller, or panic

A routine of an operating-system kernel transforms a state.  It can return a
value, give up the calling task without ever returning to it, or stop the
machine with a panic message.  This module has the monad of such routines and
one rule for each way of composing them.  `Satisfies` is a total judgment: a
routine that panics satisfies no postcondition.
-/

/-- The ways in which one call of a routine can end. -/
inductive Outcome (σ α : Type) where
  | ret (value : α) (state : σ)
  | abandon (state : σ)
  | panic (message : String)

/-- Whether a call returned and its value and state pass a test. -/
def Outcome.passes
    {σ α : Type}
    (test : α → σ → Bool) :
    Outcome σ α → Bool
  | .ret value state => test value state
  | .abandon _ => false
  | .panic _ => false

theorem Outcome.passes_iff
    {σ α : Type}
    {test : α → σ → Bool}
    {outcome : Outcome σ α} :
    outcome.passes test = true ↔
      ∃ value state, outcome = .ret value state ∧
        test value state = true := by
  cases outcome with
  | ret value state =>
    constructor
    · intro passed
      exact ⟨value, state, rfl, passed⟩
    · rintro ⟨_, _, same, passed⟩
      cases same
      exact passed
  | abandon state =>
    simp [passes]
  | panic message =>
    simp [passes]

/-- The state in which a call leaves the machine, if it does not panic. -/
def Outcome.EndsIn
    {σ α : Type}
    (outcome : Outcome σ α)
    (after : σ) : Prop :=
  (∃ value, outcome = .ret value after) ∨ outcome = .abandon after

/-- A call that returned has left the machine in one state. -/
theorem Outcome.eq_of_ends
    {σ α : Type}
    {outcome : Outcome σ α} {value : α} {after last : σ}
    (returned : outcome = .ret value last)
    (ends : outcome.EndsIn after) :
    after = last := by
  rcases ends with ⟨_, reached⟩ | reached
  · cases returned.symm.trans reached
    rfl
  · cases returned.symm.trans reached

/-- A state-passing routine. -/
def Routine (σ α : Type) :=
  σ → Outcome σ α

namespace Routine

variable {σ α β : Type}

/-- Return a value without touching the state. -/
def ret (value : α) : Routine σ α :=
  fun state => .ret value state

/-- Run one routine and pass its value to the next one. -/
def andThen
    (first : Routine σ α)
    (next : α → Routine σ β) :
    Routine σ β :=
  fun state =>
    match first state with
    | .ret value after => next value after
    | .abandon after => .abandon after
    | .panic message => .panic message

instance : Monad (Routine σ) where
  pure := ret
  bind := andThen

instance : LawfulMonad (Routine σ) :=
  LawfulMonad.mk' _
    (by
      intro α routine
      funext state
      change andThen routine ret state = routine state
      unfold andThen ret
      cases routine state <;> rfl)
    (fun _ _ => rfl)
    (by
      intro α β γ first second third
      funext state
      change andThen (andThen first second) third state =
        andThen first (fun value => andThen (second value) third) state
      unfold andThen
      cases first state <;> rfl)

/-- Read the whole state. -/
def read : Routine σ σ :=
  fun state => .ret state state

/-- Replace the state by a function of it. -/
def update (change : σ → σ) : Routine σ Unit :=
  fun state => .ret () (change state)

/-- Stop the machine. -/
def panic (message : String) : Routine σ α :=
  fun _ => .panic message

/-- Give up the calling task. -/
def abandon : Routine σ α :=
  fun state => .abandon state

/-- Run a routine on one component of a larger state. -/
def zoom
    {τ : Type}
    (get : τ → σ)
    (set : σ → τ → τ)
    (routine : Routine σ α) :
    Routine τ α :=
  fun whole =>
    match routine (get whole) with
    | .ret value part => .ret value (set part whole)
    | .abandon part => .abandon (set part whole)
    | .panic message => .panic message

/-- Run `body` at `remaining` successive indices starting from `index`. -/
def forUp
    (body : Nat → Routine σ Unit) :
    Nat → Nat → Routine σ Unit
  | 0, _ => pure ()
  | remaining + 1, index => do
      body index
      forUp body remaining (index + 1)

theorem bind_of_ret
    {first : Routine σ α} {next : α → Routine σ β}
    {state middle : σ} {value : α}
    (returned : first state = .ret value middle) :
    (first >>= next) state = next value middle := by
  change andThen first next state = _
  rw [andThen, returned]

theorem bind_of_panic
    {first : Routine σ α} {next : α → Routine σ β}
    {state : σ} {message : String}
    (panicked : first state = .panic message) :
    (first >>= next) state = .panic message := by
  change andThen first next state = _
  rw [andThen, panicked]

theorem bind_of_abandon
    {first : Routine σ α} {next : α → Routine σ β}
    {state after : σ}
    (abandoned : first state = .abandon after) :
    (first >>= next) state = .abandon after := by
  change andThen first next state = _
  rw [andThen, abandoned]

/-- What comes after a routine depends on its outcome. -/
theorem bind_congr_state
    {first : Routine σ α} {next : α → Routine σ β}
    {state other : σ}
    (same : first state = first other) :
    (first >>= next) state = (first >>= next) other := by
  change andThen first next state = andThen first next other
  unfold andThen
  rw [same]

theorem zoom_of_ret
    {τ : Type}
    {get : τ → σ} {set : σ → τ → τ}
    {routine : Routine σ α}
    {whole : τ} {part : σ} {value : α}
    (returned : routine (get whole) = .ret value part) :
    zoom get set routine whole = .ret value (set part whole) := by
  rw [zoom, returned]

/-- A sequence returns where both parts do. -/
theorem bind_eq_ret
    {first : Routine σ α} {next : α → Routine σ β}
    {state after : σ} {value : β} :
    (first >>= next) state = .ret value after ↔
      ∃ inner middle, first state = .ret inner middle ∧
        next inner middle = .ret value after := by
  constructor
  · intro returned
    change andThen first next state = _ at returned
    rw [andThen] at returned
    split at returned
    · rename_i inner middle outcome
      exact ⟨inner, middle, outcome, returned⟩
    · cases returned
    · cases returned
  · rintro ⟨inner, middle, outcome, rest⟩
    rw [bind_of_ret outcome, rest]

theorem zoom_eq_ret
    {τ : Type}
    {get : τ → σ} {set : σ → τ → τ}
    {routine : Routine σ α}
    {whole after : τ} {value : α} :
    zoom get set routine whole = .ret value after ↔
      ∃ part, routine (get whole) = .ret value part ∧
        set part whole = after := by
  constructor
  · intro returned
    rw [zoom] at returned
    split at returned
    · rename_i outcome
      cases returned
      exact ⟨_, outcome, rfl⟩
    · cases returned
    · cases returned
  · rintro ⟨part, outcome, rfl⟩
    exact zoom_of_ret outcome

/--
A call of `routine` from `state` returns into `returned` or abandons its
caller in a state of `abandoned`; it does not panic.
-/
def Satisfies
    (routine : Routine σ α)
    (state : σ)
    (returned : α → σ → Prop)
    (abandoned : σ → Prop) : Prop :=
  match routine state with
  | .ret value after => returned value after
  | .abandon after => abandoned after
  | .panic _ => False

section Rules

variable {state : σ}
variable {returned : α → σ → Prop} {abandoned : σ → Prop}

@[simp] theorem satisfies_pure
    (value : α) :
    Satisfies (pure value : Routine σ α) state returned abandoned ↔
      returned value state :=
  Iff.rfl

@[simp] theorem satisfies_abandon :
    Satisfies (abandon : Routine σ α) state returned abandoned ↔ abandoned state :=
  Iff.rfl

@[simp] theorem satisfies_read
    {returned : σ → σ → Prop} :
    Satisfies read state returned abandoned ↔ returned state state :=
  Iff.rfl

@[simp] theorem satisfies_update
    {returned : Unit → σ → Prop}
    (change : σ → σ) :
    Satisfies (update change) state returned abandoned ↔ returned () (change state) :=
  Iff.rfl

/-- The component rule: the rest of the state is framed. -/
theorem satisfies_zoom
    {τ : Type}
    {get : τ → σ} {set : σ → τ → τ}
    {routine : Routine σ α}
    {whole : τ}
    {returned : α → τ → Prop} {abandoned : τ → Prop} :
    Satisfies (zoom get set routine) whole returned abandoned ↔
      Satisfies routine (get whole)
        (fun value part => returned value (set part whole))
        (fun part => abandoned (set part whole)) := by
  unfold Satisfies zoom
  cases routine (get whole) <;> rfl

/-- The sequencing rule: the first routine establishes what the next needs. -/
theorem satisfies_bind
    {first : Routine σ β}
    {next : β → Routine σ α} :
    Satisfies (first >>= next) state returned abandoned ↔
      Satisfies first state
        (fun value after =>
          Satisfies (next value) after returned abandoned)
        abandoned := by
  change Satisfies (andThen first next) state returned abandoned ↔ _
  unfold Satisfies andThen
  cases first state <;> rfl

/-- Sequencing after a call whose outcome is known. -/
theorem satisfies_bind_of_ret
    {first : Routine σ β} {next : β → Routine σ α}
    {middle : σ} {value : β}
    (outcome : first state = .ret value middle) :
    Satisfies (first >>= next) state returned abandoned ↔
      Satisfies (next value) middle returned abandoned := by
  unfold Satisfies
  rw [bind_of_ret outcome]

/-- The consequence rule. -/
theorem Satisfies.mono
    {routine : Routine σ α}
    {returned' : α → σ → Prop} {abandoned' : σ → Prop}
    (satisfied : Satisfies routine state returned abandoned)
    (onReturn :
      ∀ value after, returned value after → returned' value after)
    (onAbandon :
      ∀ after, abandoned after → abandoned' after) :
    Satisfies routine state returned' abandoned' := by
  unfold Satisfies at satisfied ⊢
  cases shape : routine state with
  | ret value after =>
    rw [shape] at satisfied
    exact onReturn value after satisfied
  | abandon after =>
    rw [shape] at satisfied
    exact onAbandon after satisfied
  | panic message =>
    rw [shape] at satisfied
    exact satisfied

/-- Two judgments about one call, also about where it abandons its caller. -/
theorem Satisfies.both
    {routine : Routine σ α}
    {returned' : α → σ → Prop} {abandoned' : σ → Prop}
    (first : Satisfies routine state returned abandoned)
    (second : Satisfies routine state returned' abandoned') :
    Satisfies routine state
      (fun value after => returned value after ∧ returned' value after)
      (fun after => abandoned after ∧ abandoned' after) := by
  unfold Satisfies at first second ⊢
  cases shape : routine state with
  | ret value after =>
    rw [shape] at first second
    exact ⟨first, second⟩
  | abandon after =>
    rw [shape] at first second
    exact ⟨first, second⟩
  | panic message =>
    rw [shape] at first
    exact first

/-- Two judgments about one call. -/
theorem Satisfies.and
    {routine : Routine σ α}
    {returned' : α → σ → Prop}
    (first : Satisfies routine state returned abandoned)
    (second : Satisfies routine state returned' abandoned) :
    Satisfies routine state
      (fun value after => returned value after ∧ returned' value after)
      abandoned :=
  (first.both second).mono (fun _ _ returns => returns)
    (fun _ abandons => abandons.1)

/-- Sequencing with a named midcondition. -/
theorem Satisfies.andThen
    {first : Routine σ β}
    {next : β → Routine σ α}
    {middle : β → σ → Prop}
    (firstSatisfied : Satisfies first state middle abandoned)
    (nextSatisfied :
      ∀ value after,
        middle value after → Satisfies (next value) after returned abandoned) :
    Satisfies (first >>= next) state returned abandoned := by
  rw [satisfies_bind]
  exact firstSatisfied.mono nextSatisfied (fun _ same => same)

/-- What a satisfied routine that returned has established. -/
theorem Satisfies.of_ret
    {routine : Routine σ α}
    {value : α} {after : σ}
    (satisfied : Satisfies routine state returned abandoned)
    (outcome : routine state = .ret value after) :
    returned value after := by
  unfold Satisfies at satisfied
  rw [outcome] at satisfied
  exact satisfied

/-- What a satisfied routine that abandoned its caller has established. -/
theorem Satisfies.of_abandon
    {routine : Routine σ α}
    {after : σ}
    (satisfied : Satisfies routine state returned abandoned)
    (outcome : routine state = .abandon after) :
    abandoned after := by
  unfold Satisfies at satisfied
  rw [outcome] at satisfied
  exact satisfied

/-- What a satisfied routine has established however it ended. -/
theorem Satisfies.of_end
    {routine : Routine σ α}
    {ended : σ → Prop} {after : σ}
    (satisfied :
      Satisfies routine state (fun _ last => ended last) ended)
    (ends : (routine state).EndsIn after) :
    ended after := by
  rcases ends with ⟨value, outcome⟩ | outcome
  · exact satisfied.of_ret outcome
  · exact satisfied.of_abandon outcome

/-- The two ways in which a satisfied routine can have ended. -/
theorem Satisfies.of_ends
    {routine : Routine σ α} {after : σ}
    (satisfied : Satisfies routine state returned abandoned)
    (ends : (routine state).EndsIn after) :
    (∃ value, returned value after) ∨ abandoned after := by
  rcases ends with ⟨value, outcome⟩ | outcome
  · exact Or.inl ⟨value, satisfied.of_ret outcome⟩
  · exact Or.inr (satisfied.of_abandon outcome)

/-- A satisfied routine that does not abandon its caller returns. -/
theorem Satisfies.returns
    {routine : Routine σ α}
    (satisfied :
      Satisfies routine state returned (fun _ => False)) :
    ∃ value after, routine state = .ret value after ∧
      returned value after := by
  unfold Satisfies at satisfied
  cases outcome : routine state with
  | ret value after =>
    rw [outcome] at satisfied
    exact ⟨value, after, rfl, satisfied⟩
  | abandon after =>
    rw [outcome] at satisfied
    exact satisfied.elim
  | panic message =>
    rw [outcome] at satisfied
    exact satisfied.elim

/-- A satisfied routine does not panic. -/
theorem Satisfies.not_panic
    {routine : Routine σ α}
    (satisfied : Satisfies routine state returned abandoned)
    (message : String) :
    routine state ≠ .panic message := by
  intro outcome
  unfold Satisfies at satisfied
  rw [outcome] at satisfied
  exact satisfied

/-- The counting-loop rule: an invariant indexed by the loop counter. -/
theorem satisfies_forUp
    {body : Nat → Routine σ Unit}
    (invariant : Nat → σ → Prop)
    {remaining index : Nat}
    (initially : invariant index state)
    (preserved :
      ∀ k s,
        index ≤ k → k < index + remaining →
        invariant k s →
          Satisfies (body k) s
            (fun _ after => invariant (k + 1) after) abandoned) :
    Satisfies (forUp body remaining index) state
      (fun _ after => invariant (index + remaining) after)
      abandoned := by
  induction remaining generalizing index state with
  | zero =>
    exact initially
  | succ remaining inductionHypothesis =>
    have first :=
      preserved index state (Nat.le_refl index)
        (by omega) initially
    refine Satisfies.andThen first ?_
    intro _ after reached
    have rest :=
      inductionHypothesis reached
        (fun k s lower upper =>
          preserved k s (by omega) (by omega))
    rwa [Nat.add_right_comm] at rest

end Rules

/-! ## Partial correctness -/

/-- If a call of `routine` from `state` returns, it returns into `returned`. -/
def Ensures
    (routine : Routine σ α)
    (state : σ)
    (returned : α → σ → Prop) : Prop :=
  ∀ value after, routine state = .ret value after → returned value after

section PartialRules

variable {state : σ} {returned : α → σ → Prop}

theorem Satisfies.ensures
    {routine : Routine σ α} {abandoned : σ → Prop}
    (satisfied : Satisfies routine state returned abandoned) :
    Ensures routine state returned :=
  fun _ _ outcome => satisfied.of_ret outcome

/-- The consequence rule of partial correctness. -/
theorem Ensures.mono
    {routine : Routine σ α}
    {returned' : α → σ → Prop}
    (ensured : Ensures routine state returned)
    (onReturn :
      ∀ value after, returned value after → returned' value after) :
    Ensures routine state returned' :=
  fun value after outcome => onReturn value after (ensured _ _ outcome)

theorem ensures_pure
    {value : α}
    (established : returned value state) :
    Ensures (pure value : Routine σ α) state returned := by
  intro other after outcome
  cases outcome
  exact established

theorem ensures_panic
    (message : String) :
    Ensures (panic message : Routine σ α) state returned :=
  fun _ _ outcome => nomatch outcome

theorem ensures_abandon :
    Ensures (abandon : Routine σ α) state returned :=
  fun _ _ outcome => nomatch outcome

/-- The sequencing rule of partial correctness. -/
theorem Ensures.andThen
    {first : Routine σ β} {next : β → Routine σ α}
    {middle : β → σ → Prop}
    (firstEnsures : Ensures first state middle)
    (nextEnsures :
      ∀ value after, middle value after → Ensures (next value) after returned) :
    Ensures (first >>= next) state returned := by
  intro value after outcome
  change Routine.andThen first next state = .ret value after at outcome
  unfold Routine.andThen at outcome
  cases reached : first state with
  | ret between middle =>
    rw [reached] at outcome
    exact nextEnsures between middle (firstEnsures _ _ reached) value
      after outcome
  | abandon middle =>
    rw [reached] at outcome
    cases outcome
  | panic message =>
    rw [reached] at outcome
    cases outcome

theorem ensures_read_bind
    {next : σ → Routine σ α} :
    Ensures (read >>= next) state returned ↔ Ensures (next state) state returned :=
  Iff.rfl

theorem ensures_update_bind
    {change : σ → σ} {next : Unit → Routine σ α} :
    Ensures (update change >>= next) state returned ↔
      Ensures (next ()) (change state) returned :=
  Iff.rfl

end PartialRules

end Routine

end HitOs
