import HitOs.Traces
import Mathlib.Algebra.Order.BigOperators.Group.Finset
import Mathlib.Logic.Function.Basic

namespace HitOs

/-!
# Tasks that take turns

Tasks share a state, and each is at a control point of its program.  A task in a
kernel without preemption runs until it sleeps, so a step is what one task does
between two points where it may sleep.  An assertion says what holds of the
shared state, of each task at its point, and of each two tasks; it holds in every
run if no step of one task breaks what is said of it or of the others.
-/

variable {ι σ π α : Type}

/-- A shared state, and the points of the tasks. -/
structure World (ι σ π : Type) where
  shared : σ
  point : ι → π

/--
What a task does between two sleep points, given what the environment chooses
meanwhile; none if the task cannot go on.
-/
abbrev Program (ι σ π α : Type) :=
  ι → α → σ → π → Option (σ × π)

section Steps

variable [DecidableEq ι]

/-- The world after one task has gone on. -/
def World.moved
    (world : World ι σ π)
    (task : ι)
    (next : σ × π) : World ι σ π where
  shared := next.1
  point := Function.update world.point task next.2

@[simp] theorem World.moved_self
    {world : World ι σ π} {task : ι} {next : σ × π} :
    (world.moved task next).point task = next.2 :=
  Function.update_self ..

@[simp] theorem World.moved_other
    {world : World ι σ π} {task other : ι} {next : σ × π}
    (different : other ≠ task) :
    (world.moved task next).point other = world.point other :=
  Function.update_of_ne different ..

section Sums

variable [Fintype ι] (measure : π → Nat)

/-- Only the task that goes on can change a sum over the tasks. -/
theorem World.sum_moved
    (world : World ι σ π)
    (task : ι)
    (next : σ × π) :
    ∑ other, measure ((world.moved task next).point other) +
        measure (world.point task) =
      ∑ other, measure (world.point other) + measure next.2 := by
  have rest :
      ∑ other ∈ Finset.univ.erase task,
          measure ((world.moved task next).point other) =
        ∑ other ∈ Finset.univ.erase task, measure (world.point other) := by
    refine Finset.sum_congr rfl ?_
    intro other isOther
    rw [World.moved_other (Finset.ne_of_mem_erase isOther)]
  rw [← Finset.add_sum_erase _ _ (Finset.mem_univ task), rest,
    ← Finset.add_sum_erase _ (fun other => measure (world.point other))
      (Finset.mem_univ task), World.moved_self]
  omega

/-- Two tasks have no more than all tasks have. -/
theorem World.two_le_sum
    (world : World ι σ π)
    {first second : ι}
    (different : first ≠ second) :
    measure (world.point first) + measure (world.point second) ≤
      ∑ other, measure (world.point other) := by
  have isOther : second ∈ Finset.univ.erase first :=
    Finset.mem_erase.mpr ⟨different.symm, Finset.mem_univ second⟩
  have among :
      measure (world.point second) ≤
        ∑ other ∈ Finset.univ.erase first, measure (world.point other) :=
    Finset.single_le_sum
      (fun other _ => Nat.zero_le (measure (world.point other))) isOther
  rw [← Finset.add_sum_erase _ _ (Finset.mem_univ first)]
  omega

/-- One task has no more than all tasks have. -/
theorem World.one_le_sum
    (world : World ι σ π)
    (task : ι) :
    measure (world.point task) ≤ ∑ other, measure (world.point other) :=
  Finset.single_le_sum
    (fun other _ => Nat.zero_le (measure (world.point other)))
    (Finset.mem_univ task)

end Sums

namespace Program

/-- One task goes on, if it can. -/
def step
    (program : Program ι σ π α)
    (label : ι × α)
    (world : World ι σ π) : Option (World ι σ π) :=
  (program label.1 label.2 world.shared (world.point label.1)).map
    (world.moved label.1)

/-- Steps that meet a condition on the state before them. -/
def StepIf
    (program : Program ι σ π α)
    (condition : ι × α → World ι σ π → Prop)
    (label : ι × α)
    (before after : World ι σ π) : Prop :=
  program.step label before = some after ∧ condition label before

/-- Steps without a condition. -/
def Step
    (program : Program ι σ π α)
    (label : ι × α)
    (before after : World ι σ π) : Prop :=
  program.step label before = some after

variable {program : Program ι σ π α}
variable {before after : World ι σ π} {label : ι × α}

theorem Step.inversion
    (stepped : program.Step label before after) :
    ∃ next,
      program label.1 label.2 before.shared (before.point label.1) = some next ∧
      after = before.moved label.1 next := by
  obtain ⟨next, moved, rfl⟩ := Option.map_eq_some_iff.mp stepped
  exact ⟨next, moved, rfl⟩

/-- Run the program on given labels. -/
def run
    (program : Program ι σ π α) :
    List (ι × α) → World ι σ π → Option (World ι σ π)
  | [], world => some world
  | label :: labels, world => (program.step label world).bind (run program labels)

theorem traces_of_run
    {labels : List (ι × α)}
    (ran : program.run labels before = some after) :
    Traces program.Step labels before after := by
  induction labels generalizing before with
  | nil =>
    cases ran
    exact .done _
  | cons label labels inductionHypothesis =>
    obtain ⟨middle, stepped, rest⟩ := Option.bind_eq_some_iff.mp ran
    exact .next stepped (inductionHypothesis rest)

/-- Run the program on given labels while every step passes a check. -/
def runIf
    (program : Program ι σ π α)
    (check : ι × α → World ι σ π → Bool) :
    List (ι × α) → World ι σ π → Option (World ι σ π)
  | [], world => some world
  | label :: labels, world =>
    if check label world then
      (program.step label world).bind (runIf program check labels)
    else
      none

theorem traces_of_runIf
    {check : ι × α → World ι σ π → Bool}
    {condition : ι × α → World ι σ π → Prop}
    {labels : List (ι × α)}
    (sound :
      ∀ label world, check label world = true → condition label world)
    (ran : program.runIf check labels before = some after) :
    Traces (program.StepIf condition) labels before after := by
  induction labels generalizing before with
  | nil =>
    cases ran
    exact .done _
  | cons label labels inductionHypothesis =>
    unfold runIf at ran
    by_cases passes : check label before = true
    · rw [if_pos passes] at ran
      obtain ⟨middle, stepped, rest⟩ := Option.bind_eq_some_iff.mp ran
      exact .next ⟨stepped, sound label before passes⟩
        (inductionHypothesis rest)
    · rw [if_neg passes] at ran
      cases ran

end Program

end Steps

/-- What is said of the shared state, of a task, and of two tasks. -/
structure Annotation (ι σ π : Type) where
  shared :
    σ → Prop
  here :
    σ → ι → π → Prop
  apart :
    ι → π → ι → π → Prop

namespace Annotation

/-- The assertion holds of a world. -/
structure Holds
    (assertion : Annotation ι σ π)
    (world : World ι σ π) : Prop where
  shared :
    assertion.shared world.shared
  here :
    ∀ task, assertion.here world.shared task (world.point task)
  apart :
    ∀ task other, task ≠ other →
      assertion.apart task (world.point task) other (world.point other)

/-- What a step of a task has to keep. -/
structure Keeps
    (assertion : Annotation ι σ π)
    (world : World ι σ π)
    (task : ι)
    (next : σ × π) : Prop where
  shared :
    assertion.shared next.1
  here :
    assertion.here next.1 task next.2
  others :
    ∀ other, other ≠ task → assertion.here next.1 other (world.point other)
  apart :
    ∀ other, other ≠ task →
      assertion.apart task next.2 other (world.point other) ∧
        assertion.apart other (world.point other) task next.2

variable [DecidableEq ι]
variable {assertion : Annotation ι σ π} {world : World ι σ π}

theorem Holds.moved
    {task : ι} {next : σ × π}
    (holds : assertion.Holds world)
    (keeps : assertion.Keeps world task next) :
    assertion.Holds (world.moved task next) where
  shared := keeps.shared
  here other := by
    by_cases same : other = task
    · subst same
      rw [World.moved_self]
      exact keeps.here
    · rw [World.moved_other same]
      exact keeps.others other same
  apart first second different := by
    by_cases isFirst : first = task
    · subst isFirst
      have isOther : second ≠ first := Ne.symm different
      rw [World.moved_self, World.moved_other isOther]
      exact (keeps.apart second isOther).1
    · rw [World.moved_other isFirst]
      by_cases isSecond : second = task
      · subst isSecond
        rw [World.moved_self]
        exact (keeps.apart first isFirst).2
      · rw [World.moved_other isSecond]
        exact holds.apart first second different

/--
The rule for runs: an assertion that every step keeps, when the condition is met,
holds at the end of every run that meets the condition.
-/
theorem Holds.run
    {program : Program ι σ π α}
    {condition : ι × α → World ι σ π → Prop}
    {labels : List (ι × α)} {start last : World ι σ π}
    (initially : assertion.Holds start)
    (kept :
      ∀ world task choice next,
        assertion.Holds world → condition (task, choice) world →
        program task choice world.shared (world.point task) = some next →
          assertion.Keeps world task next)
    (ran : Traces (program.StepIf condition) labels start last) :
    assertion.Holds last := by
  refine ran.invariant ?_ initially
  rintro ⟨task, choice⟩ before after holds ⟨stepped, met⟩
  obtain ⟨next, moved, rfl⟩ := Program.Step.inversion stepped
  exact holds.moved (kept before task choice next holds met moved)

end Annotation

end HitOs
