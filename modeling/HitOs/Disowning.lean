import HitOs.QuietSteps
import Mathlib.Data.List.NodupEquivFin

namespace HitOs

/-!
# The children of a task that exits

The loop of `do_exit` over all tasks: the children get father 1, and task 1 gets a
SIGCHLD if one of them is dead.
-/

namespace Tasks

/-- What the loop over some slots makes of a process in the given one. -/
structure Disowned
    (pid : Int)
    (slots : List Slot)
    (slot : Slot)
    (before after : Process) : Prop where
  same :
    after =
      { before with
        father :=
          if slot ∈ slots ∧ before.father = pid then 1 else before.father
        signal := after.signal }
  louder : Louder before.toTask after.toTask

/-- A dead child of the process with this number, in one of the slots. -/
def DeadChild (pid : Int) (slots : List Slot) (process : Processes) : Prop :=
  ∃ slot child, slot ∈ slots ∧ process slot = some child ∧
    child.father = pid ∧ child.state = .zombie

/-- What the loop over some slots does. -/
structure Disowning
    (pid : Int)
    (slots : List Slot)
    (before after : Processes) : Prop where
  each :
    ∀ slot, Option.Rel (Disowned pid slots slot) (before slot) (after slot)
  told :
    DeadChild pid slots before →
      ∀ init, after 1 = some init → init.signal.getLsbD sigChld.val = true

section Disown

variable {pid : Int} {slot : Slot} {before after : Processes}

theorem Louder.post
    (signr : Fin 32)
    (process : Process) :
    Louder process.toTask (process.post signr).toTask := by
  intro other pending
  simp only [Process.post, BitVec.getLsbD_or, pending, Bool.true_or]

theorem post_self
    (signr : Fin 32)
    (process : Process) :
    (process.post signr).signal.getLsbD signr.val = true := by
  simp only [Process.post, BitVec.getLsbD_or, getLsbD_bit, decide_true, Bool.or_true]

theorem disowned_refl
    {slots : List Slot} {process : Process}
    (foreign : ¬ (slot ∈ slots ∧ process.father = pid)) :
    Disowned pid slots slot process process where
  same := by rw [if_neg foreign]
  louder _ pending := pending

theorem disowned_self
    {slots : List Slot} {process : Process}
    (member : slot ∈ slots)
    (child : process.father = pid) :
    Disowned pid slots slot process { process with father := 1 } where
  same := by rw [if_pos ⟨member, child⟩]
  louder _ pending := pending

theorem Disowned.post
    {slots : List Slot} {process now : Process}
    (disowned : Disowned pid slots slot process now)
    (signr : Fin 32) :
    Disowned pid slots slot process (now.post signr) where
  same := by
    conv_lhs => rw [Process.post, disowned.same]
    rfl
  louder other pending :=
    Louder.post signr now other (disowned.louder other pending)

/-- A loop that changes nothing. -/
theorem disowning_refl
    {slots : List Slot}
    (foreign :
      ∀ slot process, slot ∈ slots → before slot = some process →
        process.father ≠ pid) :
    Disowning pid slots before before where
  each := by
    intro slot
    cases present : before slot with
    | none =>
      exact .none
    | some process =>
      exact .some (disowned_refl fun both =>
        foreign slot process both.1 present both.2)
  told := by
    rintro ⟨slot, child, member, present, father, _⟩
    exact absurd father (foreign slot child member present)

theorem disownOne_spec
    (pid : Int)
    (process : Processes)
    (slot : Slot) :
    Disowning pid [slot] process (State.disownOne pid process slot) := by
  cases present : process slot with
  | none =>
    have same : State.disownOne pid process slot = process := by
      simp only [State.disownOne, present]
    rw [same]
    refine disowning_refl ?_
    intro other found member here
    rw [List.mem_singleton.mp member, present] at here
    cases here
  | some child =>
    by_cases father : child.father = pid
    · have moved :
          ∀ other,
            Option.Rel (Disowned pid [slot] other) (process other)
              (Function.update process slot
                (some { child with father := 1 }) other) := by
        intro other
        by_cases same : other = slot
        · subst same
          rw [Function.update_self, present]
          exact .some (disowned_self List.mem_cons_self father)
        · rw [Function.update_of_ne same]
          cases process other with
          | none =>
            exact .none
          | some found =>
            exact .some (disowned_refl fun both =>
              same (List.mem_singleton.mp both.1))
      by_cases zombie : child.state = .zombie
      · have shape :
            State.disownOne pid process slot =
              Function.update
                (Function.update process slot
                  (some { child with father := 1 })) 1
                ((Function.update process slot
                  (some { child with father := 1 }) 1).map
                    (Process.post sigChld)) := by
          simp only [State.disownOne, present, if_pos father, if_pos zombie]
        rw [shape]
        constructor
        · intro other
          by_cases init : other = 1
          · subst init
            rw [Function.update_self]
            exact rel_map (fun _ _ disowned => disowned.post sigChld)
              (moved 1)
          · rw [Function.update_of_ne init]
            exact moved other
        · intro _ init here
          rw [Function.update_self] at here
          obtain ⟨was, _, rfl⟩ := Option.map_eq_some_iff.mp here
          exact post_self sigChld was
      · have shape :
            State.disownOne pid process slot =
              Function.update process slot
                (some { child with father := 1 }) := by
          simp only [State.disownOne, present, if_pos father, if_neg zombie]
        rw [shape]
        refine ⟨moved, ?_⟩
        rintro ⟨other, found, member, here, _, dead⟩
        rw [List.mem_singleton.mp member, present] at here
        cases here
        exact absurd dead zombie
    · have same : State.disownOne pid process slot = process := by
        simp only [State.disownOne, present, if_neg father]
      rw [same]
      refine disowning_refl ?_
      intro other found member here
      rw [List.mem_singleton.mp member, present] at here
      cases here
      exact father

theorem Disowned.cons
    {slots : List Slot} {head : Slot} {process middle last : Process}
    (first : Disowned pid [head] slot process middle)
    (rest : Disowned pid slots slot middle last)
    (fresh : head ∉ slots) :
    Disowned pid (head :: slots) slot process last where
  same := by
    have father :
        (if slot ∈ slots ∧ middle.father = pid then 1 else middle.father) =
          if slot ∈ head :: slots ∧ process.father = pid then 1
          else process.father := by
      rw [first.same]
      simp only [List.mem_cons]
      by_cases here : slot = head
      · subst here
        by_cases child : process.father = pid
        · simp [child, fresh]
        · simp [child]
      · simp [here]
    conv_lhs => rw [rest.same, father, first.same]
  louder signr pending := rest.louder signr (first.louder signr pending)

theorem Disowning.cons
    {slots : List Slot} {middle : Processes}
    (first : Disowning pid [slot] before middle)
    (rest : Disowning pid slots middle after)
    (fresh : slot ∉ slots) :
    Disowning pid (slot :: slots) before after where
  each other :=
    rel_trans (fun _ _ _ one two => one.cons two fresh)
      (first.each other) (rest.each other)
  told := by
    rintro ⟨other, child, member, present, father, dead⟩ init here
    by_cases head : other = slot
    · obtain ⟨was, there, disowned⟩ := rel_of_some (rest.each 1) here
      refine disowned.louder sigChld (first.told ?_ was there)
      exact ⟨other, child, List.mem_singleton.mpr head, present, father, dead⟩
    · refine rest.told ?_ init here
      obtain ⟨now, there, disowned⟩ := rel_some (first.each other) present
      have foreign : ¬ (other ∈ [slot] ∧ child.father = pid) :=
        fun both => head (List.mem_singleton.mp both.1)
      refine ⟨other, now, (List.mem_cons.mp member).resolve_left head, there, ?_, ?_⟩
      · rw [disowned.same]
        simp only [if_neg foreign]
        exact father
      · rw [disowned.same]
        exact dead

theorem foldl_disownOne
    {slots : List Slot}
    (nodup : slots.Nodup) :
    Disowning pid slots before (slots.foldl (State.disownOne pid) before) := by
  induction slots generalizing before with
  | nil =>
    exact disowning_refl fun _ _ member => nomatch member
  | cons slot slots inductionHypothesis =>
    obtain ⟨fresh, nodup⟩ := List.nodup_cons.mp nodup
    exact (disownOne_spec pid before slot).cons
      (inductionHypothesis nodup) fresh

/-- The whole loop. -/
theorem disown_spec
    (pid : Int)
    (state : State) :
    Disowning pid (List.finRange nrTasks) state.process
      (state.disown pid).process :=
  foldl_disownOne (List.nodup_finRange nrTasks)

end Disown

end Tasks

end HitOs
