import Mathlib.Tactic.Basic

namespace HitOs

/-!
# Finite runs of labelled steps

`Traces step` is the reflexive and transitive closure of a labelled step
relation that remembers the labels.  The two rules lift what one step does to
what a run does: an invariant, and a second machine that follows label by label.
-/

variable {σ τ α : Type}

/-- The runs whose labels are the given list. -/
inductive Traces
    (step : α → σ → σ → Prop) :
    List α → σ → σ → Prop where
  | done
      (state : σ) :
      Traces step [] state state
  | next
      {label : α} {labels : List α} {state middle last : σ}
      (stepped : step label state middle)
      (rest : Traces step labels middle last) :
      Traces step (label :: labels) state last

namespace Traces

variable {step : α → σ → σ → Prop} {labels : List α} {state last : σ}

/-- A run followed by one more step. -/
theorem snoc
    {label : α} {after : σ}
    (run : Traces step labels state last)
    (stepped : step label last after) :
    Traces step (labels ++ [label]) state after := by
  induction run with
  | done state =>
    exact .next stepped (.done after)
  | next first _ inductionHypothesis =>
    exact .next first (inductionHypothesis stepped)

/-- A run followed by another one. -/
theorem append
    {more : List α} {after : σ}
    (run : Traces step labels state last)
    (rest : Traces step more last after) :
    Traces step (labels ++ more) state after := by
  induction run with
  | done state =>
    exact rest
  | next first _ inductionHypothesis =>
    exact .next first (inductionHypothesis rest)

/-- Turns that lead from each state of a sequence to the next one. -/
theorem turns
    (states : Nat → σ)
    {count : Nat}
    (turn :
      ∀ number, number < count →
        ∃ labels, Traces step labels (states number) (states (number + 1))) :
    ∃ labels, Traces step labels (states 0) (states count) := by
  induction count with
  | zero =>
    exact ⟨[], .done _⟩
  | succ count inductionHypothesis =>
    obtain ⟨labels, run⟩ :=
      inductionHypothesis fun number before =>
        turn number (Nat.lt_succ_of_lt before)
    obtain ⟨more, rest⟩ := turn count (Nat.lt_succ_self count)
    exact ⟨labels ++ more, run.append rest⟩

/-- Runs of a machine are runs of one that can do more. -/
theorem mono
    {other : α → σ → σ → Prop}
    (run : Traces step labels state last)
    (included :
      ∀ label before after, step label before after → other label before after) :
    Traces other labels state last := by
  induction run with
  | done state =>
    exact .done state
  | next stepped _ inductionHypothesis =>
    exact .next (included _ _ _ stepped) inductionHypothesis

/-- Runs of a machine are runs of another one, where an invariant says so. -/
theorem mono_of_invariant
    {other : α → σ → σ → Prop}
    (holds : σ → Prop)
    (run : Traces step labels state last)
    (preserved :
      ∀ label before after, holds before → step label before after → holds after)
    (included :
      ∀ label before after,
        holds before → step label before after → other label before after)
    (initially : holds state) :
    Traces other labels state last := by
  induction run with
  | done state =>
    exact .done state
  | next stepped _ inductionHypothesis =>
    exact .next (included _ _ _ initially stepped)
      (inductionHypothesis (preserved _ _ _ initially stepped))

/-- What is known of all the labels of a run is known at each of its steps. -/
theorem attach
    {condition : α → Prop}
    (run : Traces step labels state last)
    (known : ∀ label ∈ labels, condition label) :
    Traces
      (fun label before after =>
        step label before after ∧ condition label)
      labels state last := by
  induction run with
  | done state =>
    exact .done state
  | next stepped _ inductionHypothesis =>
    exact .next ⟨stepped, known _ List.mem_cons_self⟩
      (inductionHypothesis fun label member =>
        known label (List.mem_cons_of_mem _ member))

/-- The invariant rule: what every step preserves, every run preserves. -/
theorem invariant
    {holds : σ → Prop}
    (preserved :
      ∀ label before after, holds before → step label before after → holds after)
    (run : Traces step labels state last)
    (initially : holds state) :
    holds last := by
  induction run with
  | done state =>
    exact initially
  | next stepped _ inductionHypothesis =>
    exact inductionHypothesis (preserved _ _ _ initially stepped)

/-- The simulation rule: a function that follows the labels of a run. -/
theorem simulation
    {allowed : α → Prop} {related : σ → τ → Prop}
    {follow : α → τ → τ} {abstract : τ}
    (preserved :
      ∀ label before after abstract,
        allowed label → related before abstract →
        step label before after → related after (follow label abstract))
    (run : Traces step labels state last)
    (labelsAllowed : ∀ label ∈ labels, allowed label)
    (initially : related state abstract) :
    related last
      (labels.foldl (fun reached label => follow label reached)
        abstract) := by
  induction run generalizing abstract with
  | done state =>
    exact initially
  | next stepped _ inductionHypothesis =>
    rw [List.foldl_cons]
    refine inductionHypothesis
      (fun label member =>
        labelsAllowed label (List.mem_cons_of_mem _ member)) ?_
    exact preserved _ _ _ _
      (labelsAllowed _ List.mem_cons_self) initially stepped

/-- A run on two lists of labels, one after the other. -/
theorem split
    {earlier later : List α}
    (run : Traces step (earlier ++ later) state last) :
    ∃ middle,
      Traces step earlier state middle ∧ Traces step later middle last := by
  induction earlier generalizing state with
  | nil =>
    exact ⟨state, .done state, run⟩
  | cons label labels inductionHypothesis =>
    cases run with
    | next stepped rest =>
      obtain ⟨middle, before, after⟩ := inductionHypothesis rest
      exact ⟨middle, .next stepped before, after⟩

/-- Where steps are functions of their labels, so are runs. -/
theorem unique
    {other : σ}
    (deterministic :
      ∀ label before first second,
        step label before first → step label before second → first = second)
    (run : Traces step labels state last)
    (again : Traces step labels state other) :
    last = other := by
  induction run with
  | done state =>
    cases again
    rfl
  | next stepped _ inductionHypothesis =>
    cases again with
    | next stepped' rest' =>
      have same := deterministic _ _ _ _ stepped' stepped
      subst same
      exact inductionHypothesis rest'

/-- The property holds in every state of the run. -/
def Along
    (step : α → σ → σ → Prop)
    (holds : σ → Prop)
    (labels : List α)
    (state last : σ) : Prop :=
  ∀ earlier later middle,
    labels = earlier ++ later →
    Traces step earlier state middle →
    Traces step later middle last → holds middle

/--
The rule for exact conditions: if steps that meet the condition keep an invariant
that is enough for the property, and any other step ends without the property, then
the property holds along a run exactly when all its steps meet the condition.
-/
theorem along_iff
    {invariant holds : σ → Prop} {condition : α → σ → Prop}
    (run : Traces step labels state last)
    (deterministic :
      ∀ label before first second,
        step label before first → step label before second → first = second)
    (enough : ∀ state, invariant state → holds state)
    (kept :
      ∀ label before after,
        invariant before → step label before after →
        condition label before → invariant after)
    (lost :
      ∀ label before after,
        invariant before → step label before after →
        ¬ condition label before → ¬ holds after)
    (initially : invariant state) :
    Along step holds labels state last ↔
      Traces
        (fun label before after =>
          step label before after ∧ condition label before)
        labels state last := by
  constructor
  · intro along
    induction run with
    | done state =>
      exact .done state
    | @next label labels first middle last stepped rest inductionHypothesis =>
      have held : holds middle :=
        along [label] labels middle rfl (.next stepped (.done middle)) rest
      have met : condition label first :=
        Classical.byContradiction fun unmet =>
          lost _ _ _ initially stepped unmet held
      refine .next ⟨stepped, met⟩
        (inductionHypothesis (kept _ _ _ initially stepped met) ?_)
      intro earlier later between shape before after
      exact along (label :: earlier) later between
        (by rw [shape, List.cons_append]) (.next stepped before) after
  · intro careful earlier later middle shape before _
    subst shape
    obtain ⟨between, first, _⟩ := careful.split
    have reached :=
      first.invariant
        (fun label before after holding stepped =>
          kept label before after holding stepped.1 stepped.2)
        initially
    have same :=
      (first.mono fun _ _ _ stepped => stepped.1).unique deterministic before
    exact enough middle (same ▸ reached)

/-! ## Steps that are functions -/

/-- Run a step function on given labels while every step passes a check. -/
def runIf
    (next : α → σ → Option σ)
    (check : α → σ → Bool) :
    List α → σ → Option σ
  | [], state => some state
  | label :: labels, state =>
    if check label state then
      (next label state).bind (runIf next check labels)
    else
      none

theorem of_runIf
    {next : α → σ → Option σ} {check : α → σ → Bool}
    {condition : α → σ → Prop}
    (sound : ∀ label state, check label state = true → condition label state)
    (ran : runIf next check labels state = some last) :
    Traces
      (fun label before after =>
        next label before = some after ∧ condition label before)
      labels state last := by
  induction labels generalizing state with
  | nil =>
    cases ran
    exact .done _
  | cons label labels inductionHypothesis =>
    by_cases passes : check label state = true
    · simp only [runIf, if_pos passes] at ran
      obtain ⟨middle, stepped, rest⟩ := Option.bind_eq_some_iff.mp ran
      exact .next ⟨stepped, sound label state passes⟩
        (inductionHypothesis rest)
    · simp [runIf, passes] at ran

/-- A run whose last state passes a test. -/
theorem exists_of_any
    {next : α → σ → Option σ} {check : α → σ → Bool}
    {condition : α → σ → Prop} {test : σ → Bool}
    (sound : ∀ label state, check label state = true → condition label state)
    (passed : (runIf next check labels state).any test = true) :
    ∃ last,
      Traces
        (fun label before after =>
          next label before = some after ∧ condition label before)
        labels state last ∧ test last = true := by
  obtain ⟨last, ran, passes⟩ := (Option.any_eq_true _ _).mp passed
  exact ⟨last, of_runIf sound ran, passes⟩

/-- A run whose steps are not checked. -/
theorem exists_of_run
    {next : α → σ → Option σ} {test : σ → Bool}
    (passed : (runIf next (fun _ _ => true) labels state).any test = true) :
    ∃ last,
      Traces (fun label before after => next label before = some after)
        labels state last ∧ test last = true := by
  have anything : ∀ (label : α) (state : σ), true = true → True :=
    fun _ _ _ => trivial
  obtain ⟨last, run, passes⟩ := exists_of_any anything passed
  exact ⟨last, run.mono fun _ _ _ stepped => stepped.1, passes⟩

/-- A run whose steps meet a condition that can be decided. -/
theorem exists_of_decide
    {next : α → σ → Option σ}
    {condition : α → σ → Prop} [∀ label state, Decidable (condition label state)]
    {result : σ → Prop} [DecidablePred result]
    (passed :
      (runIf next (fun label state => decide (condition label state)) labels
        state).any (fun last => decide (result last)) = true) :
    ∃ last,
      Traces
        (fun label before after =>
          next label before = some after ∧ condition label before)
        labels state last ∧ result last := by
  have sound : ∀ label state,
      decide (condition label state) = true → condition label state :=
    fun _ _ => of_decide_eq_true
  obtain ⟨last, run, passes⟩ := exists_of_any sound passed
  exact ⟨last, run, of_decide_eq_true passes⟩

end Traces

end HitOs
