import HitOs.ProcessSteps

namespace HitOs

/-!
# Runs of processes

From the first task on, processes are distinct, have a father that runs, and are
reported once.
-/

namespace Tasks

open WaitQueue (TaskState)
open ProcessTree (Exit Stage Member Tree Event)

/-! ## Every run -/

theorem booted_consistent :
    Consistent bootedState := by
  have only :
      ∀ slot process, bootedState.process slot = some process →
        slot = 0 ∧ process.point = .booting ∧ process.state = .running := by
    intro slot process present
    simp only [bootedState] at present
    split at present
    · rename_i first
      cases present
      exact ⟨first, rfl, rfl⟩
    · cases present
  refine ⟨⟨by decide, by decide⟩, ?_, ?_, ⟨_, rfl, rfl⟩, ?_⟩
  · intro slot process present
    obtain ⟨_, point, state⟩ := only slot process present
    rw [point, state]
    exact iff_of_false TaskState.noConfusion Point.noConfusion
  · intro slot process present
    obtain ⟨first, point, _⟩ := only slot process present
    rw [point]
    exact iff_of_true rfl first
  · intro process _ _
    refine ⟨rfl, ?_⟩
    intro slot later
    simp only [bootedState, if_neg later]

/-- What holds in every state that the tasks can reach. -/
structure Reached (state : State) : Prop where
  consistent : Consistent state
  distinct : state.tree.Distinct
  logged : state.tree.Logged

theorem booted_reached :
    Reached bootedState := by
  have only :
      ∀ {slot : Slot} {member : Member},
        bootedState.tree.member slot = some member →
          slot = 0 ∧ member.page = 0 ∧ member.serial = 0 ∧
          member.stage = .living := by
    intro slot member present
    obtain ⟨process, here, rfl⟩ := of_tree_member present
    simp only [bootedState] at here
    split at here
    · rename_i first
      cases here
      exact ⟨first, rfl, rfl, rfl⟩
    · cases here
  have same :
      ∀ {first second : Slot} {member other : Member},
        bootedState.tree.member first = some member →
        bootedState.tree.member second = some other → first = second :=
    fun here there => (only here).1.trans (only there).1.symm
  have nobody :
      ∀ {slot : Slot} {exit : Exit}, ¬ bootedState.tree.Pending slot exit := by
    rintro slot exit ⟨member, present, reporting⟩
    cases reporting.symm.trans (only present).2.2.2
  constructor
  · exact booted_consistent
  · refine ⟨fun here there _ => same here there,
      fun here there _ => same here there,
      fun here there _ => same here there, ?_, ?_⟩
    · intro slot member present
      rw [(only present).2.1]
      rfl
    · intro slot member present
      rw [(only present).2.2.1]
      decide
  · constructor
    · exact List.nodup_nil
    · intro _ never
      cases never
    · intro _ _ _ _ _ never
      cases never
    · intro slot member code present ends
      rw [(only present).2.2.2] at ends
      rcases ends with never | never
      · cases never
      · cases never
    · exact fun pending => absurd pending nobody
    · intro _ never
      cases never
    · rintro exit (never | ⟨slot, pending⟩)
      · cases never
      · exact absurd pending nobody
    · exact List.nodup_nil
    · exact fun pending _ => absurd pending nobody

section Runs

variable {state after : State}

theorem Reached.step
    {action : ProcessAction}
    (reached : Reached state)
    (stepped : action.Step state after) :
    Reached after := by
  obtain ⟨consistent, tree⟩ := reached.consistent.step stepped
  cases tree with
  | same tree =>
    exact ⟨consistent, tree ▸ reached.distinct, tree ▸ reached.logged⟩
  | moves moved _ =>
    exact ⟨consistent, reached.distinct.step moved,
      reached.logged.step reached.distinct moved⟩
  | boots _ _ moved _ =>
    exact ⟨consistent, reached.distinct.step moved,
      reached.logged.step reached.distinct moved⟩

/-- The run lemma. -/
theorem reached_of_run
    {actions : List ProcessAction}
    (run : Traces ProcessAction.Step actions bootedState state) :
    Reached state :=
  run.invariant (fun _ _ _ reached stepped => reached.step stepped)
    booted_reached

/-- A run in which init does not exit. -/
abbrev StayingRun (actions : List ProcessAction) (state : State) : Prop :=
  Traces
    (fun action before after =>
      ProcessAction.Step action before after ∧ action.InitStays)
    actions bootedState state

/-- There is task 0 alone, or init and its descendants. -/
def Fathered (state : State) : Prop :=
  state.tree.Alone 0 ∨ state.tree.Rooted 0 1 1

theorem Fathered.step
    {action : ProcessAction}
    (fathered : Fathered state)
    (reached : Reached state)
    (stepped : action.Step state after)
    (stays : action.InitStays) :
    Fathered after := by
  have busy : (1 : Slot) ≠ 0 := by decide
  cases (reached.consistent.step stepped).2 with
  | same tree =>
    rw [Fathered, tree]
    exact fathered
  | moves moved allowed =>
    rcases fathered with alone | rooted
    · exact (alone.no_step moved (allowed stays)).elim
    · exact Or.inr (rooted.step reached.distinct moved (allowed stays))
  | boots alone present moved tree =>
    refine Or.inr ?_
    rw [tree]
    exact alone.bear present busy

/-- What holds as long as init does not exit. -/
structure Orderly (state : State) : Prop where
  reached : Reached state
  fathered : Fathered state

theorem booted_orderly :
    Orderly bootedState where
  reached := booted_reached
  fathered := by
    refine Or.inl ⟨⟨_, rfl, rfl, rfl⟩, ?_⟩
    intro slot later
    simp only [State.tree, bootedState, if_neg later, Option.map_none]

theorem orderly_of_run
    {actions : List ProcessAction}
    (run : StayingRun actions state) :
    Orderly state := by
  refine run.invariant ?_ booted_orderly
  intro action before after orderly stepped
  exact ⟨orderly.reached.step stepped.1,
    orderly.fathered.step orderly.reached stepped.1 stepped.2⟩

/-! ## Process numbers -/

/-- Processes with one number are one. -/
theorem Reached.same_pid
    {first second : Slot} {process other : Process}
    (reached : Reached state)
    (here : state.process first = some process)
    (there : state.process second = some other)
    (same : process.pid = other.pid) :
    first = second :=
  reached.distinct.pids (tree_member here) (tree_member there) same

/--
`find_empty_process` ends and finds an unused number and an empty slot, if there is
one, and in every run no two live tasks have the same number.
-/
theorem live_pids_distinct :
    (∀ table lastPid, LastPid lastPid →
      ∃ slot pid,
        (∀ turns, 65 ≤ turns →
          findEmptyProcess table turns lastPid = some (slot, pid)) ∧
        1 ≤ pid ∧
        (∀ other task, table other = some task → task.pid ≠ pid) ∧
        (∀ empty, slot = some empty → empty ≠ 0 ∧ table empty = none) ∧
        (slot = none ↔ ∀ used, used ≠ 0 → table used ≠ none)) ∧
    (∀ actions state,
      Traces ProcessAction.Step actions bootedState state →
        ∀ first second task other,
          state.table first = some task → state.table second = some other →
          task.pid = other.pid → first = second) := by
  constructor
  · intro table lastPid ranged
    obtain ⟨slot, pid, found, isPid, fresh, empty, full⟩ :=
      findEmptyProcess_spec table ranged
    refine ⟨slot, pid, found, isPid.low, ?_, empty, full⟩
    intro other task present same
    exact fresh ⟨other, task, present, same⟩
  · intro actions state run first second task other here there same
    obtain ⟨process, present, rfl⟩ := Option.map_eq_some_iff.mp here
    obtain ⟨process', present', rfl⟩ := Option.map_eq_some_iff.mp there
    exact (reached_of_run run).same_pid present present' same

/-- Tasks 0 and 1. -/
def withInit : Table :=
  fun slot =>
    if slot = 1 then some { initTask with pid := 1 } else booted slot

/-- After the largest number comes 1, which init has. -/
theorem live_pids_distinct_wrap :
    ∃ slot pid,
      findEmptyProcess withInit 65 (2 ^ 31 - 1) = some (some slot, pid) ∧
      1 < pid ∧ 1 < slot := by
  obtain ⟨slot, pid, found, positive, fresh, empty, full⟩ :=
    live_pids_distinct.1 withInit (2 ^ 31 - 1) ⟨by decide, by decide⟩
  cases slot with
  | none =>
    exact absurd rfl (full.mp rfl 2 (by decide))
  | some slot =>
    obtain ⟨later, unused⟩ := empty slot rfl
    have notInit : pid ≠ 1 :=
      fun same => fresh 1 { initTask with pid := 1 } rfl same.symm
    refine ⟨slot, pid, found 65 (Nat.le_refl 65), by omega, ?_⟩
    have other : slot ≠ 1 := by
      rintro rfl
      cases unused
    have first : slot.val ≠ 0 := fun same => later (Fin.ext same)
    have second : slot.val ≠ 1 := fun same => other (Fin.ext same)
    exact Fin.lt_def.mpr (Nat.lt_of_le_of_ne (Nat.one_le_iff_ne_zero.mpr first)
      second.symm)

/-! ## Reaping -/

theorem stage_dead
    {process : Process} {code : Int}
    (dead : process.member.stage = .dead code) :
    process.point = .dead ∧ process.exitCode = code := by
  cases point : process.point <;>
    simp_all [Process.member, Process.stage]

theorem stage_reporting
    {process : Process} {exit : Exit}
    (reporting : process.member.stage = .reporting exit) :
    process.point = .reporting exit := by
  cases point : process.point <;>
    simp_all [Process.member, Process.stage]

/-- A process that runs in the tree is not a zombie. -/
theorem Consistent.not_zombie
    {slot : Slot} {process : Process}
    (consistent : Consistent state)
    (present : state.process slot = some process)
    (runs : process.member.stage.Runs) :
    process.state ≠ .zombie := by
  intro zombie
  have dead := (consistent.zombies present).mp zombie
  simp only [Process.member, Process.stage, dead] at runs
  exact runs

/-- The father in one slot takes the exit code of the child in another. -/
structure Reaps
    (father child : Slot)
    (zombie : Process)
    (before after : State) : Prop where
  dead : zombie.state = .zombie
  fathered :
    ∃ process, before.process father = some process ∧ zombie.father = process.pid
  reports :
    ∃ process, after.process father = some process ∧
      process.point =
        .reporting
          { serial := zombie.serial
            pid := zombie.pid
            code := zombie.exitCode }
  released : after.process child = none
  freed : before.pages zombie.page = true ∧ after.pages zombie.page = false

theorem Reaps.of_reaped
    {father child : Slot} {zombie : Process}
    (reached : Reached state)
    (present : state.process child = some zombie)
    (reaped :
      Tree.Reaped father child zombie.member state.tree after.tree) :
    Reaps father child zombie state after := by
  obtain ⟨⟨code, dead, member, here, reporting⟩, ⟨found, there, pid⟩, empty,
    free⟩ := reaped
  obtain ⟨point, exitCode⟩ := stage_dead dead
  obtain ⟨process, reporter, rfl⟩ := of_tree_member here
  obtain ⟨process', waiter, rfl⟩ := of_tree_member there
  have code' := stage_reporting reporting
  rw [← exitCode] at code'
  exact ⟨(reached.consistent.zombies present).mpr point,
    ⟨process', waiter, pid⟩, ⟨process, reporter, code'⟩,
    Option.map_eq_none_iff.mp empty,
    reached.distinct.held (tree_member present), free⟩

/-- The claim about a step. -/
structure ReapsOnly (before after : State) : Prop where
  keeps :
    ∀ child zombie, before.process child = some zombie →
      (∃ now, after.process child = some now ∧ now.serial = zombie.serial ∧
        now.page = zombie.page ∧ after.pages zombie.page = true) ∨
      ∃ father, Reaps father child zombie before after
  reports :
    ∀ father process exit, after.process father = some process →
      process.point = .reporting exit →
        (∃ was, before.process father = some was ∧
          was.serial = process.serial ∧ was.point = .reporting exit) ∨
        ∃ child zombie, before.process child = some zombie ∧
          Reaps father child zombie before after

theorem reapsOnly_of_same
    (reached : Reached state)
    (same : after.tree = state.tree) :
    ReapsOnly state after where
  keeps := by
    intro child zombie present
    have there := tree_member present
    rw [← same] at there
    obtain ⟨now, here, member⟩ := of_tree_member there
    have held := reached.distinct.held (tree_member present)
    rw [← same] at held
    exact Or.inl ⟨now, here, congrArg Member.serial member,
      congrArg Member.page member, held⟩
  reports := by
    intro father process exit present reporting
    have there := tree_member present
    rw [same] at there
    obtain ⟨was, here, member⟩ := of_tree_member there
    refine Or.inl ⟨was, here, congrArg Member.serial member, stage_reporting ?_⟩
    rw [member]
    simp only [Process.member, Process.stage, reporting]

theorem reapsOnly_of_moves
    {event : Event Slot}
    (reached : Reached state)
    (moved : Tree.Step 1 event state.tree after.tree)
    (present' : ∀ slot, event ≠ .vanishes slot) :
    ReapsOnly state after where
  keeps := by
    intro child zombie present
    have there := tree_member present
    rcases moved.kept_or_reaped there with
      ⟨member, here, serial, page⟩ | vanishes | ⟨father, reaped⟩
    · obtain ⟨now, here', rfl⟩ := of_tree_member here
      have held := (reached.distinct.step moved).held here
      rw [page] at held
      exact Or.inl ⟨now, here', serial, page, held⟩
    · exact absurd vanishes (present' child)
    · exact Or.inr ⟨father, .of_reaped reached present reaped⟩
  reports := by
    intro father process exit present reporting
    have stage : process.member.stage = .reporting exit := by
      simp only [Process.member, Process.stage, reporting]
    rcases moved.pending ⟨_, tree_member present, stage⟩ with
      ⟨member, here, pending⟩ | ⟨child, zombie, code, here, reaped, _, _⟩
    · obtain ⟨was, there, rfl⟩ := of_tree_member here
      refine Or.inl ⟨was, there, ?_, stage_reporting pending⟩
      rcases moved.kept_or_reaped here with
        ⟨now, here', serial, _⟩ | vanishes | ⟨other, reaped⟩
      · cases here'.symm.trans (tree_member present)
        exact serial.symm
      · exact absurd vanishes (present' father)
      · cases reaped.empty.symm.trans (tree_member present)
    · obtain ⟨was, there, rfl⟩ := of_tree_member here
      exact Or.inr ⟨child, was, there, .of_reaped reached there reaped⟩

theorem Orderly.reapsOnly
    {action : ProcessAction}
    (orderly : Orderly state)
    (stepped : action.Step state after)
    (stays : action.InitStays) :
    ReapsOnly state after := by
  have reached := orderly.reached
  cases (reached.consistent.step stepped).2 with
  | same tree =>
    exact reapsOnly_of_same reached tree
  | boots _ _ moved _ =>
    exact reapsOnly_of_moves reached moved fun _ never => nomatch never
  | moves moved allowed =>
    refine reapsOnly_of_moves reached moved ?_
    rintro slot rfl
    rcases orderly.fathered with alone | rooted
    · exact alone.no_step moved (allowed stays)
    · exact rooted.not_vanishes reached.distinct moved

/-- The claim about a state. -/
structure WellFathered (state : State) : Prop where
  fathers :
    ∀ slot process, slot ≠ 0 → state.process slot = some process →
      ∃ other father, state.process other = some father ∧
        father.pid = process.father ∧ father.state ≠ .zombie ∧
        (process.father = 0 → slot = 1)
  found :
    ∀ slot process code, state.process slot = some process →
      process.point = .closing code →
        ((state.dying slot process code).findFather process.father).isSome

theorem Orderly.wellFathered
    (orderly : Orderly state) :
    WellFathered state := by
  obtain ⟨reached, fathered⟩ := orderly
  have consistent := reached.consistent
  constructor
  · intro slot process later present
    have member := tree_member present
    rcases fathered with alone | rooted
    · cases (alone.empty later).symm.trans member
    · have live :
          ∀ other father, state.tree.member other = some father →
            father.stage.Runs →
              ∃ found, state.process other = some found ∧
                found.member = father ∧ found.state ≠ .zombie := by
        intro other father there runs
        obtain ⟨found, here, rfl⟩ := of_tree_member there
        exact ⟨found, here, rfl, consistent.not_zombie here runs⟩
      by_cases init : slot = 1
      · subst init
        obtain ⟨root, there, _, zero, _⟩ := rooted.root
        cases member.symm.trans there
        obtain ⟨idle, there', pid, living⟩ := rooted.hasIdle
        obtain ⟨found, here, rfl, alive⟩ :=
          live 0 idle there' (living ▸ trivial)
        exact ⟨0, found, here, pid.trans zero.symm, alive, fun _ => rfl⟩
      · obtain ⟨other, father, there, busy, pid, runs⟩ :=
          rooted.fathers member later init
        have notIdle := rooted.pid_ne_zero reached.distinct there busy
        obtain ⟨found, here, rfl, alive⟩ := live other father there runs
        exact ⟨other, found, here, pid, alive,
          fun zero => absurd (pid.trans zero) notIdle⟩
  · intro slot process code present closing
    obtain ⟨_, ⟨father, _, found, _⟩ | ⟨_, fatherless, _⟩⟩ :=
      exitClosed_spec consistent present closing
    · rw [found]
      rfl
    · have stage : process.member.stage = .closing code := by
        simp only [Process.member, Process.stage, closing]
      have exited : ¬ process.member.stage.Runs := by
        rw [stage]
        exact id
      have member := tree_member present
      rcases fathered with alone | rooted
      · exfalso
        have later :=
          consistent.later present (by rw [closing]; rfl)
        cases (alone.empty later).symm.trans member
      · obtain ⟨child, has⟩ :=
          rooted.father_found reached.distinct member exited
        rcases fatherless with zero | nobody
        · exact absurd zero child
        · exact absurd has nobody

/--
As long as init does not exit, every task has a father that is not a zombie, every exit
is reported at most once and with its code, and a child keeps its slot and its page
until its father takes the code.
-/
theorem children_reaped_once
    {actions : List ProcessAction}
    (run : StayingRun actions state) :
    WellFathered state ∧
    (state.exits.map Exit.serial).Nodup ∧
    (state.reports.map Exit.serial).Nodup ∧
    (∀ exit ∈ state.reports, exit ∈ state.exits) ∧
    (∀ slot zombie, state.process slot = some zombie →
      zombie.state = .zombie →
        ({ serial := zombie.serial
           pid := zombie.pid
           code := zombie.exitCode } : Exit) ∈ state.exits) ∧
    (∀ action after, ProcessAction.Step action state after →
      action.InitStays → ReapsOnly state after) := by
  have orderly := orderly_of_run run
  have logged := orderly.reached.logged
  refine ⟨orderly.wellFathered, logged.exits, logged.serials,
    logged.reported, ?_,
    fun _ _ stepped stays => orderly.reapsOnly stepped stays⟩
  intro slot zombie present dead
  have point := (orderly.reached.consistent.zombies present).mp dead
  have stage : zombie.member.stage = .dead zombie.exitCode := by
    simp only [Process.member, Process.stage, point]
  exact logged.ending (tree_member present) (Or.inr stage)

/-- Init forks a child, which exits, and takes its exit code. -/
def reaping : List ProcessAction :=
  [.fork 0 (some 1) true, .fork 1 (some 2) true, .exit 2 256, .closed 2,
    .waitpid 1 (-1) 0#32, .report 1]

def isStaying (action : ProcessAction) (_ : State) : Bool :=
  match action with
  | .exit slot _ => decide (slot ≠ 1)
  | _ => true

theorem initStays_of_isStaying
    (action : ProcessAction)
    (state : State)
    (passed : isStaying action state = true) :
    action.InitStays := by
  rintro code rfl
  cases passed

theorem children_reaped_once_init :
    ∃ state,
      StayingRun reaping state ∧
      state.reports = [{ serial := 2, pid := 2, code := 256 }] ∧
      WellFathered state ∧
      (state.reports.map Exit.serial).Nodup := by
  have passed :
      ((Traces.runIf ProcessAction.step isStaying reaping
        bootedState).any fun state =>
          decide
            (state.reports = [{ serial := 2, pid := 2, code := 256 }])) =
        true := by
    decide +kernel
  obtain ⟨state, run, reports⟩ :=
    Traces.exists_of_any initStays_of_isStaying passed
  obtain ⟨fathered, _, once, _⟩ := children_reaped_once run
  exact ⟨state, run, of_decide_eq_true reports, fathered, once⟩

end Runs

end Tasks

end HitOs
