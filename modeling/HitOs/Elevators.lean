import Mathlib.Data.List.Perm.Basic
import Mathlib.Order.Lattice

namespace HitOs

/-!
# Elevators

A list that is served from its head, and that goes up at most twice: the jobs of this
sweep in order, and then those of the next one.  A new job goes to the first place
between two neighbours where it is in order, or where the first sweep ends and it is
the first of the next; or else to the end.
-/

namespace Elevator

variable {α κ : Type} [LinearOrder κ] {key : α → κ}
variable {x job : α} {jobs : List α}

/-- The jobs behind `x`, with a new one among them. -/
def place (key : α → κ) (job : α) : α → List α → List α
  | _, [] => [job]
  | x, y :: rest =>
    if (key x < key job ∨ ¬ key x < key y) ∧ key job < key y then
      job :: y :: rest
    else
      y :: place key job y rest

/-- A list with a new job. -/
def add (key : α → κ) (job : α) : List α → List α
  | [] => [job]
  | x :: rest => x :: place key job x rest

/-- The jobs behind `x` go up, but for one place where the next sweep begins. -/
def Sweeps (key : α → κ) : α → List α → Prop
  | _, [] => True
  | x, y :: rest =>
    if key x < key y then
      Sweeps key y rest
    else
      (y :: rest).Pairwise fun first second => key first < key second

theorem place_perm :
    (place key job x jobs).Perm (job :: jobs) := by
  induction jobs generalizing x with
  | nil =>
    exact List.Perm.refl _
  | cons y rest inductionHypothesis =>
    unfold place
    split
    · exact List.Perm.refl _
    · exact (inductionHypothesis.cons y).trans (List.Perm.swap job y rest)

theorem add_perm : (add key job jobs).Perm (job :: jobs) := by
  cases jobs with
  | nil => exact List.Perm.refl _
  | cons x rest =>
    exact (place_perm.cons x).trans (List.Perm.swap job x rest)

theorem sweeps_of_pairwise
    (sorted :
      (x :: jobs).Pairwise fun first second => key first < key second) :
    Sweeps key x jobs := by
  induction jobs generalizing x with
  | nil =>
    exact trivial
  | cons y rest inductionHypothesis =>
    obtain ⟨below, sorted⟩ := List.pairwise_cons.mp sorted
    unfold Sweeps
    rw [if_pos (below y List.mem_cons_self)]
    exact inductionHypothesis sorted

/-- In one sweep a later job is put where it is in order. -/
theorem pairwise_place
    (sorted :
      (x :: jobs).Pairwise fun first second => key first < key second)
    (later : key x < key job)
    (other : ∀ y ∈ jobs, key y ≠ key job) :
    (x :: place key job x jobs).Pairwise
      fun first second => key first < key second := by
  induction jobs generalizing x with
  | nil =>
    exact List.pairwise_pair.mpr later
  | cons y rest inductionHypothesis =>
    obtain ⟨below, tail⟩ := List.pairwise_cons.mp sorted
    unfold place
    by_cases here : key job < key y
    · rw [if_pos ⟨Or.inl later, here⟩]
      refine List.pairwise_cons.mpr ⟨?_, List.pairwise_cons.mpr ⟨?_, tail⟩⟩
      · intro z member
        rcases List.mem_cons.mp member with rfl | behind
        · exact later
        · exact below z behind
      · intro z member
        rcases List.mem_cons.mp member with rfl | behind
        · exact here
        · exact here.trans ((List.pairwise_cons.mp tail).1 z behind)
    · rw [if_neg fun inOrder => here inOrder.2]
      have after : key y < key job :=
        lt_of_le_of_ne (not_lt.mp here) (other y List.mem_cons_self)
      refine List.pairwise_cons.mpr
        ⟨?_, inductionHypothesis tail after fun z member =>
          other z (List.mem_cons_of_mem y member)⟩
      intro z member
      rcases List.mem_cons.mp member with rfl | behind
      · exact below z List.mem_cons_self
      · rcases List.mem_cons.mp (place_perm.mem_iff.mp behind) with
          rfl | inRest
        · exact later
        · exact below z (List.mem_cons_of_mem y inRest)

/-- A new job does not make a third sweep. -/
theorem sweeps_place
    (sweeps : Sweeps key x jobs)
    (other : ∀ y ∈ jobs, key y ≠ key job) :
    Sweeps key x (place key job x jobs) := by
  induction jobs generalizing x with
  | nil =>
    unfold place Sweeps
    split
    · exact trivial
    · exact List.pairwise_singleton _ _
  | cons y rest inductionHypothesis =>
    have others : ∀ z ∈ rest, key z ≠ key job :=
      fun z member => other z (List.mem_cons_of_mem y member)
    unfold place
    unfold Sweeps at sweeps
    by_cases up : key x < key y
    · rw [if_pos up] at sweeps
      by_cases here : key x < key job ∧ key job < key y
      · rw [if_pos ⟨Or.inl here.1, here.2⟩, Sweeps, if_pos here.1, Sweeps,
          if_pos here.2]
        exact sweeps
      · rw [if_neg fun inOrder =>
          here ⟨inOrder.1.resolve_right (not_not.mpr up), inOrder.2⟩]
        rw [Sweeps, if_pos up]
        exact inductionHypothesis sweeps others
    · rw [if_neg up] at sweeps
      by_cases first : key job < key y
      · have sorted :
            (job :: y :: rest).Pairwise
              fun first second => key first < key second := by
          refine List.pairwise_cons.mpr ⟨fun z member => ?_, sweeps⟩
          rcases List.mem_cons.mp member with rfl | behind
          · exact first
          · exact first.trans ((List.pairwise_cons.mp sweeps).1 z behind)
        rw [if_pos ⟨Or.inr up, first⟩, Sweeps]
        split
        · exact sweeps_of_pairwise sorted
        · exact sorted
      · have after : key y < key job :=
          lt_of_le_of_ne (not_lt.mp first) (other y List.mem_cons_self)
        rw [if_neg fun inOrder => first inOrder.2, Sweeps, if_neg up]
        exact pairwise_place sweeps after others

/-- Only the keys of the jobs in the list matter. -/
theorem Sweeps.congr
    {key' : α → κ}
    (sweeps : Sweeps key x jobs)
    (same : ∀ y ∈ x :: jobs, key' y = key y) :
    Sweeps key' x jobs := by
  induction jobs generalizing x with
  | nil =>
    exact trivial
  | cons y rest inductionHypothesis =>
    have here := same x List.mem_cons_self
    have next := same y (List.mem_cons_of_mem x List.mem_cons_self)
    unfold Sweeps at sweeps ⊢
    rw [here, next]
    split at sweeps
    · rename_i up
      rw [if_pos up]
      exact inductionHypothesis sweeps
        fun z member => same z (List.mem_cons_of_mem x member)
    · rename_i down
      rw [if_neg down]
      refine sweeps.imp_of_mem fun {first second} inFirst inSecond order => ?_
      rw [same first (List.mem_cons_of_mem x inFirst),
        same second (List.mem_cons_of_mem x inSecond)]
      exact order

/-- When the head has been served, what is left goes up at most twice. -/
theorem Sweeps.tail
    {y : α} {rest : List α}
    (sweeps : Sweeps key x (y :: rest)) :
    Sweeps key y rest := by
  unfold Sweeps at sweeps
  split at sweeps
  · exact sweeps
  · exact sweeps_of_pairwise sweeps

/-- A list that goes up at most twice is two lists that go up. -/
theorem Sweeps.runs
    (sweeps : Sweeps key x jobs) :
    ∃ first second,
      x :: jobs = first ++ second ∧
      (first.Pairwise fun earlier later => key earlier < key later) ∧
      second.Pairwise fun earlier later => key earlier < key later := by
  suffices runs :
      ∃ first second,
        jobs = first ++ second ∧
        ((x :: first).Pairwise fun earlier later => key earlier < key later) ∧
        second.Pairwise fun earlier later => key earlier < key later by
    obtain ⟨first, second, same, up, again⟩ := runs
    exact ⟨x :: first, second, congrArg (x :: ·) same, up, again⟩
  induction jobs generalizing x with
  | nil =>
    exact ⟨[], [], rfl, List.pairwise_singleton _ _, List.Pairwise.nil⟩
  | cons y rest inductionHypothesis =>
    unfold Sweeps at sweeps
    split at sweeps
    · rename_i step
      obtain ⟨first, second, same, up, again⟩ := inductionHypothesis sweeps
      refine ⟨y :: first, second, congrArg (y :: ·) same, ?_, again⟩
      refine List.pairwise_cons.mpr ⟨fun z member => ?_, up⟩
      rcases List.mem_cons.mp member with rfl | behind
      · exact step
      · exact step.trans ((List.pairwise_cons.mp up).1 z behind)
    · exact ⟨[], y :: rest, rfl, List.pairwise_singleton _ _, sweeps⟩

end Elevator

end HitOs
