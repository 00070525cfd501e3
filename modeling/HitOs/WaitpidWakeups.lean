import HitOs.ProcessRuns

namespace HitOs

/-!
# What wakes a task in `waitpid`

A child that exits tells its father with a SIGCHLD, and `do_exit` tells task 1 of the
dead children that it inherits.  A task that sleeps in `sys_waitpid` beside a dead
child therefore has a SIGCHLD pending; whether `schedule` wakes it is a matter of its
mask.
-/

namespace Tasks

open WaitQueue (TaskState)
open ProcessTree (Exit Stage Member Tree Event)

/-- A task sleeps in `sys_waitpid`. -/
structure Asleep
    (state : State)
    (slot : Slot)
    (pid : Int)
    (options : BitVec 32)
    (waiter : Process) : Prop where
  present : state.process slot = some waiter
  waiting : waiter.point = .waiting pid options
  asleep : waiter.state = .interruptible

/-- Whoever sleeps beside a dead child has a SIGCHLD. -/
def Told (state : State) : Prop :=
  ∀ slot pid options waiter, Asleep state slot pid options waiter →
    ∀ other child, Ready state slot waiter pid other child →
      waiter.signal.getLsbD sigChld.val = true

/-! ## Steps that put nobody to sleep and kill no child -/

/-- A task of the later state that sleeps has slept, with no more signals. -/
def StillAsleep (before : State) (slot : Slot) (now : Process) : Prop :=
  ∃ was, before.process slot = some was ∧ was.point = now.point ∧
    was.state = .interruptible ∧ now.pid = was.pid ∧ now.pgrp = was.pgrp ∧
    Louder was.toTask now.toTask

/-- A dead task of the later state was dead. -/
def StillDead (before : State) (slot : Slot) (now : Process) : Prop :=
  ∃ was, before.process slot = some was ∧ was.state = .zombie ∧
    now.pid = was.pid ∧ now.father = was.father ∧ now.pgrp = was.pgrp

section Told

variable {state after : State} {slot : Slot} {process : Process}

theorem awaits_congr
    {pid : Int} {current current' child child' : Process}
    (awaits : current'.Awaits pid child')
    (pid' : current'.pid = current.pid)
    (group : current'.pgrp = current.pgrp)
    (childPid : child'.pid = child.pid)
    (father : child'.father = child.father)
    (childGroup : child'.pgrp = child.pgrp) :
    current.Awaits pid child := by
  unfold Process.Awaits at awaits ⊢
  rw [pid', group, childPid, father, childGroup] at awaits
  exact awaits

/-- For a sleeper and a dead child that were there before, nothing is new. -/
theorem Told.kept
    {pid : Int} {options : BitVec 32} {other : Slot} {child : Process}
    (told : Told state)
    (asleep : Asleep after slot pid options process)
    (still : StillAsleep state slot process)
    (dead : StillDead state other child)
    (ready : Ready after slot process pid other child) :
    process.signal.getLsbD sigChld.val = true := by
  obtain ⟨was, there, point, state', samePid, group, louder⟩ := still
  obtain ⟨child', there', zombie, childPid, father, childGroup⟩ := dead
  refine louder sigChld
    (told slot pid options was ⟨there, point.trans asleep.waiting, state'⟩
      other child' ?_)
  exact ⟨ready.1, there', awaits_congr ready.2.2.1 samePid group childPid
    father childGroup, zombie⟩

/-- A step after which all sleepers and dead tasks are old ones. -/
structure Follows (before after : State) : Prop where
  sleepers :
    ∀ {slot : Slot} {pid : Int} {options : BitVec 32} {now : Process},
      Asleep after slot pid options now → StillAsleep before slot now
  dead :
    ∀ {slot : Slot} {now : Process},
      after.process slot = some now → now.state = .zombie → StillDead before slot now

theorem Told.follows
    (told : Told state)
    (follows : Follows state after) :
    Told after := by
  intro slot pid options waiter asleep other child ready
  exact told.kept asleep (follows.sleepers asleep)
    (follows.dead ready.2.1 ready.2.2.2) ready

theorem stillAsleep_self
    {pid : Int} {options : BitVec 32}
    (asleep : Asleep state slot pid options process) :
    StillAsleep state slot process :=
  ⟨process, asleep.present, rfl, asleep.asleep, rfl, rfl, fun _ pending => pending⟩

theorem stillDead_self
    (present : state.process slot = some process)
    (zombie : process.state = .zombie) :
    StillDead state slot process :=
  ⟨process, present, zombie, rfl, rfl, rfl⟩

theorem Quietly.follows
    (quietly : Quietly state after) :
    Follows state after where
  sleepers := by
    intro slot pid options now asleep
    obtain ⟨was, there, quiet⟩ := quietly.of_some asleep.present
    obtain ⟨point, sleeps, group, louder⟩ :=
      quiet.waits asleep.waiting asleep.asleep
    exact ⟨was, there, point.trans asleep.waiting.symm, sleeps,
      congrArg Member.pid quiet.member, group, louder⟩
  dead := by
    intro slot now here zombie
    obtain ⟨was, there, quiet⟩ := quietly.of_some here
    exact ⟨was, there, quiet.zombie.mp zombie,
      congrArg Member.pid quiet.member, congrArg Member.father quiet.member,
      quiet.group zombie⟩

/-- A task that runs is put in a slot. -/
theorem follows_put
    (running : process.state = .running) :
    Follows state (state.put slot process) where
  sleepers := by
    intro other pid options now asleep
    obtain ⟨here, waiting, sleeps⟩ := asleep
    by_cases same : other = slot
    · subst same
      simp only [State.put, Function.update_self] at here
      cases here
      cases running.symm.trans sleeps
    · simp only [State.put, Function.update_of_ne same] at here
      exact stillAsleep_self ⟨here, waiting, sleeps⟩
  dead := by
    intro other now here zombie
    by_cases same : other = slot
    · subst same
      simp only [State.put, Function.update_self] at here
      cases here
      cases running.symm.trans zombie
    · simp only [State.put, Function.update_of_ne same] at here
      exact stillDead_self here zombie

theorem follows_release :
    Follows state (state.release slot process) where
  sleepers := by
    intro other pid options now asleep
    obtain ⟨here, waiting, sleeps⟩ := asleep
    by_cases same : other = slot
    · subst same
      simp [State.release] at here
    · simp only [State.release, Function.update_of_ne same] at here
      exact stillAsleep_self ⟨here, waiting, sleeps⟩
  dead := by
    intro other now here zombie
    by_cases same : other = slot
    · subst same
      simp [State.release] at here
    · simp only [State.release, Function.update_of_ne same] at here
      exact stillDead_self here zombie

/-- Sleepers, children and signals are all that matters. -/
theorem Told.congr
    (told : Told state)
    (same : after.process = state.process) :
    Told after := by
  refine told.follows ⟨?_, ?_⟩
  · intro slot pid options now asleep
    exact stillAsleep_self
      ⟨same ▸ asleep.present, asleep.waiting, asleep.asleep⟩
  · intro slot now here zombie
    exact stillDead_self (same ▸ here) zombie

/-! ## `fork` and `waitpid` -/

theorem Told.fork
    {page : Option Nat} {copied : Bool} {parent : Process}
    (told : Told state)
    (consistent : Consistent state)
    (forks : Forks process parent)
    (forked : state.sysFork slot parent page copied = some after) :
    Told after := by
  have running : parent.state = .running := by
    rcases forks.shape with ⟨_, rfl⟩ | ⟨_, rfl⟩
    · exact forks.running
    · exact forks.running
  obtain ⟨nr, pid, found, isPid, fresh, rfl | ⟨child, page', rfl, later, empty,
    free, rfl⟩⟩ := sysFork_spec consistent.lastPid forked
  · have failed :
        Follows state (state.put slot { parent with eax := -eagain }) :=
      follows_put running
    exact (told.follows failed).congr rfl
  · have returned :
        Follows state (state.put slot { parent with eax := pid }) :=
      follows_put running
    have made :
        Follows (state.put slot { parent with eax := pid })
          ((state.put slot { parent with eax := pid }).put child
            (parent.child pid page' state.forks)) :=
      follows_put rfl
    exact ((told.follows returned).follows made).congr rfl

theorem Told.waitpid
    {current : Process} {pid : Int} {options : BitVec 32}
    (told : Told state)
    (ends : WaitpidEnds state slot process current pid options after)
    (running : current.state = .running) :
    Told after := by
  cases ends with
  | returns eax =>
    have moved : Follows state (state.put slot (current.returns eax)) :=
      follows_put running
    exact told.follows moved
  | @reaps other child ready =>
    have moved :
        Follows (state.release other child)
          ((state.release other child).put slot
            (current.reaping child)) :=
      follows_put running
    exact (told.follows follows_release).follows moved
  | sleeps nobody =>
    intro other wanted options' waiter asleep slot' child ready
    obtain ⟨different, childHere, awaits, zombie⟩ := ready
    -- the task that has begun to wait is not dead
    have elsewhere : slot' ≠ slot := by
      rintro rfl
      simp only [State.put, Function.update_self] at childHere
      cases childHere
      cases zombie
    have before : state.process slot' = some child := by
      simpa only [State.put, Function.update_of_ne elsewhere] using childHere
    by_cases same : other = slot
    · subst same
      obtain ⟨here, waiting, _⟩ := asleep
      simp only [State.put, Function.update_self] at here
      cases here
      cases waiting
      exact absurd ⟨different, before, awaits, zombie⟩
        (nobody slot' child)
    · have here : state.process other = some waiter := by
        simpa only [State.put, Function.update_of_ne same]
          using asleep.present
      exact told other wanted options' waiter
        ⟨here, asleep.waiting, asleep.asleep⟩ slot' child
        ⟨different, before, awaits, zombie⟩

/-! ## `do_exit` -/

/-- Task 1, and no other, inherits the dead children of a task that exits. -/
def ProcessAction.Inherits (action : ProcessAction) (state : State) : Prop :=
  match action with
  | .exit slot _ =>
    ∀ process, state.process slot = some process →
      DeadChild process.pid (List.finRange nrTasks) state.process →
        ∀ other heir, state.process other = some heir → heir.pid = 1 → other = 1
  | _ => True

theorem Told.disown
    {pid : Int}
    (told : Told state)
    (inherits :
      DeadChild pid (List.finRange nrTasks) state.process →
        ∀ other heir, state.process other = some heir → heir.pid = 1 → other = 1) :
    Told (state.disown pid) := by
  have spec := disown_spec pid state
  intro slot wanted options waiter asleep other child ready
  obtain ⟨was, there, disowned⟩ :=
    rel_of_some (spec.each slot) asleep.present
  obtain ⟨child', there', disowned'⟩ :=
    rel_of_some (spec.each other) ready.2.1
  have samePid : waiter.pid = was.pid := by rw [disowned.same]
  have zombie : child'.state = .zombie := by
    rw [← ready.2.2.2, disowned'.same]
  by_cases inherited : child'.father = pid
  · have dead : DeadChild pid (List.finRange nrTasks) state.process :=
      ⟨other, child', List.mem_finRange other, there', inherited, zombie⟩
    have father : child.father = 1 := by
      rw [disowned'.same]
      exact if_pos ⟨List.mem_finRange other, inherited⟩
    have heir : was.pid = 1 := by
      rw [← samePid, ← ready.2.2.1.1, father]
    have init := inherits dead slot was there heir
    subst init
    exact spec.told dead waiter asleep.present
  · have still : StillAsleep state slot waiter := by
      refine ⟨was, there, ?_, ?_, samePid, ?_, disowned.louder⟩
      · rw [disowned.same]
      · rw [← asleep.asleep, disowned.same]
      · rw [disowned.same]
    have stillDead : StillDead state other child := by
      refine ⟨child', there', zombie, ?_, ?_, ?_⟩
      · rw [disowned'.same]
      · rw [disowned'.same]
        exact if_neg fun both => inherited both.2
      · rw [disowned'.same]
    exact told.kept asleep still stillDead ready

theorem Told.exit
    {code : Int}
    (told : Told state)
    (present : state.process slot = some process)
    (running : process.state = .running)
    (inherits :
      DeadChild process.pid (List.finRange nrTasks) state.process →
        ∀ other heir, state.process other = some heir → heir.pid = 1 → other = 1) :
    Told (state.doExit slot process code) := by
  have spec := disown_spec process.pid state
  obtain ⟨now, here, disowned⟩ := rel_some (spec.each slot) present
  have running' : now.state = .running := by
    rw [disowned.same]
    exact running
  have moved :
      Follows (state.disown process.pid)
        ((state.disown process.pid).put slot
          { now with point := .closing code }) :=
    follows_put running'
  refine ((told.disown inherits).follows moved).congr ?_
  rw [State.doExit, change_eq_put here]

/-- Before `tell_father` only the dying task itself may be untold. -/
theorem Told.dying
    {code : Int} {user other : Slot} {pid : Int} {options : BitVec 32}
    {waiter child : Process}
    (told : Told state)
    (present : state.process slot = some process)
    (asleep : Asleep (state.dying slot process code) user pid options waiter)
    (ready : Ready (state.dying slot process code) user waiter pid other child) :
    (other = slot ∧ child.father = process.father) ∨
      waiter.signal.getLsbD sigChld.val = true := by
  have quietly :
      Quietly state
        (if process.leader then state.killSession process.session
          else state) :=
    quietly_leader
  obtain ⟨now, here, quiet⟩ := quietly.to_some present
  have follows := quietly.follows
  obtain ⟨there, waiting, sleeps⟩ := asleep
  obtain ⟨different, childThere, awaits, zombie⟩ := ready
  simp only [State.dying, change_eq_put here] at there childThere
  have otherUser : user ≠ slot := by
    rintro rfl
    simp only [State.put, Function.update_self] at there
    cases there
    cases sleeps
  simp only [State.put, Function.update_of_ne otherUser] at there
  by_cases same : other = slot
  · subst same
    simp only [State.put, Function.update_self] at childThere
    cases childThere
    exact Or.inl ⟨rfl, congrArg Member.father quiet.member⟩
  · simp only [State.put, Function.update_of_ne same] at childThere
    exact Or.inr ((told.follows follows) user pid options waiter
      ⟨there, waiting, sleeps⟩ other child
      ⟨different, childThere, awaits, zombie⟩)

/-- It is left to tell the father of the dying task. -/
theorem Told.after_dying
    {code : Int}
    (told : Told state)
    (present : state.process slot = some process)
    (follows : Follows (state.dying slot process code) after)
    (tells :
      ∀ user pid options waiter child,
        Asleep after user pid options waiter →
        Ready after user waiter pid slot child →
        waiter.pid = process.father → waiter.signal.getLsbD sigChld.val = true) :
    Told after := by
  intro user pid options waiter asleep other child ready
  obtain ⟨was, there, point, state', samePid, group, louder⟩ :=
    follows.sleepers asleep
  obtain ⟨child', there', zombie, childPid, childFather, childGroup⟩ :=
    follows.dead ready.2.1 ready.2.2.2
  have awaits :=
    awaits_congr ready.2.2.1 samePid group childPid childFather childGroup
  rcases told.dying present ⟨there, point.trans asleep.waiting, state'⟩
    ⟨ready.1, there', awaits, zombie⟩ with ⟨same, fathered⟩ | before
  · subst same
    refine tells user pid options waiter child asleep ready ?_
    exact samePid.trans (awaits.1.symm.trans fathered)
  · exact louder sigChld before

theorem Told.closed
    {code : Int}
    (told : Told state)
    (reached : Reached state)
    (present : state.process slot = some process)
    (closing : process.point = .closing code) :
    Told (state.exitClosed slot process code) := by
  obtain ⟨dying, tree⟩ := dying_spec reached.consistent present closing
  have distinct : (state.dying slot process code).tree.Distinct := by
    rw [tree]
    exact reached.distinct.put (tree_member present) _
  have shape :
      state.exitClosed slot process code =
        (state.dying slot process code).tellFather slot process := rfl
  rw [shape, State.tellFather]
  cases found :
      (state.dying slot process code).findFather process.father with
  | some father =>
    have follows :
        Follows (state.dying slot process code)
          ((state.dying slot process code).change father
            (Process.post sigChld)) :=
      (quietly_change_post father sigChld).follows
    refine told.after_dying present follows ?_
    intro user pid options waiter child asleep ready fathered
    obtain ⟨was, there, _, _, samePid, _⟩ := follows.sleepers asleep
    obtain ⟨_, parent, here, parentPid⟩ := findFather_some found
    have samePids : parent.pid = was.pid :=
      parentPid.trans (fathered.symm.trans samePid)
    have same : father = user :=
      distinct.pids (tree_member here) (tree_member there) samePids
    subst same
    have posted := asleep.present
    simp only [change_eq_put here, State.put, Function.update_self]
      at posted
    cases posted
    exact post_self sigChld parent
  | none =>
    refine told.after_dying present follows_release ?_
    intro user pid options waiter child asleep ready fathered
    have gone := ready.2.1
    simp [State.release] at gone

/-! ## All actions -/

/-- The step lemma: whoever sleeps beside a dead child has been told. -/
theorem Told.step
    {action : ProcessAction}
    (told : Told state)
    (reached : Reached state)
    (stepped : action.Step state after)
    (inherits : action.Inherits state) :
    Told after := by
  have consistent := reached.consistent
  cases action with
  | fork slot page copied =>
    obtain ⟨process, runs, forked⟩ := Option.bind_eq_some_iff.mp stepped
    obtain ⟨present, running⟩ := running_eq_some.mp runs
    split at forked
    · rename_i booting
      exact told.fork consistent
        ⟨running, Or.inl ⟨booting, rfl⟩⟩ forked
    · rename_i user
      exact told.fork consistent ⟨running, Or.inr ⟨user, rfl⟩⟩ forked
    · cases forked
  | exit slot code =>
    obtain ⟨process, runs, exits⟩ := Option.bind_eq_some_iff.mp stepped
    obtain ⟨present, running⟩ := running_eq_some.mp runs
    split at exits
    · cases exits
      exact told.exit present running (inherits process present)
    · cases exits
  | closed slot =>
    obtain ⟨process, runs, exits⟩ := Option.bind_eq_some_iff.mp stepped
    obtain ⟨present, _⟩ := running_eq_some.mp runs
    split at exits
    · rename_i code closing
      cases exits
      exact told.closed reached present closing
    · cases exits
  | waitpid slot pid options =>
    obtain ⟨current, inUser, rfl⟩ := Option.map_eq_some_iff.mp stepped
    obtain ⟨_, running, _⟩ := inUser_eq_some.mp inUser
    have ends :
        WaitpidEnds state slot current current pid options
          (state.sysWaitpid slot current pid options) :=
      sysWaitpid_spec consistent
    exact told.waitpid ends running
  | resume slot =>
    obtain ⟨process, runs, resumed⟩ := Option.bind_eq_some_iff.mp stepped
    obtain ⟨present, running⟩ := running_eq_some.mp runs
    split at resumed
    · rename_i pid options waiting
      cases resumed
      simp only [State.waitpidResumed]
      split
      · have ends :
            WaitpidEnds state slot process
              { process with
                signal := process.signal &&& ~~~(bit sigChld) }
              pid options
              (state.sysWaitpid slot
                { process with
                  signal := process.signal &&& ~~~(bit sigChld) }
                pid options) :=
          sysWaitpid_spec consistent
        exact told.waitpid ends running
      · refine told.follows (follows_put ?_)
        exact running
    · cases resumed
  | report slot =>
    obtain ⟨process, runs, reports⟩ := Option.bind_eq_some_iff.mp stepped
    obtain ⟨present, running⟩ := running_eq_some.mp runs
    split at reports
    · rename_i exit reporting
      cases reports
      have moved :
          Follows state (state.put slot (process.returns exit.pid)) :=
        follows_put running
      exact (told.follows moved).congr rfl
    · cases reports
  | _ =>
    exact told.follows
      (ProcessAction.quietly consistent rfl stepped).follows

/-- What holds in a run in which only task 1 inherits dead children. -/
structure Heard (state : State) : Prop where
  reached : Reached state
  told : Told state

theorem booted_told :
    Told bootedState := by
  rintro slot pid options waiter ⟨here, waiting, _⟩
  simp only [bootedState] at here
  split at here
  · cases here
    cases waiting
  · cases here

/-- A run in which only task 1 inherits dead children. -/
abbrev InheritingRun (actions : List ProcessAction) (state : State) : Prop :=
  Traces
    (fun action before after =>
      ProcessAction.Step action before after ∧ action.Inherits before)
    actions bootedState state

/-- The run lemma. -/
theorem heard_of_run
    {actions : List ProcessAction}
    (run : InheritingRun actions state) :
    Heard state := by
  refine run.invariant ?_ ⟨booted_reached, booted_told⟩
  intro action before after heard stepped
  exact ⟨heard.reached.step stepped.1,
    heard.told.step heard.reached stepped.1 stepped.2⟩

/-! ## What `schedule` makes of the signal -/

/-- A signal is pending, or becomes pending because the alarm is due. -/
def Task.Pending (jiffies : Int) (signr : Fin 32) (task : Task) : Prop :=
  task.signal.getLsbD signr.val = true ∨
    (signr = sigAlrm ∧ task.alarm ≠ 0 ∧ task.alarm < jiffies)

/-- The mask does not keep the signal from waking the task. -/
def Task.Wakes (signr : Fin 32) (task : Task) : Prop :=
  task.blocked.getLsbD signr.val = false ∨ signr = sigKill ∨ signr = sigStop

theorem Task.waking_iff
    {task : Task} :
    task.waking ≠ 0#32 ↔
      ∃ signr : Fin 32, task.signal.getLsbD signr.val = true ∧
        task.Wakes signr := by
  have bits :
      ∀ signr : Fin 32,
        task.waking.getLsbD signr.val =
          (task.signal.getLsbD signr.val &&
            !(!(decide (signr = sigKill) || decide (signr = sigStop)) &&
              task.blocked.getLsbD signr.val)) := by
    intro signr
    rw [Task.waking, BitVec.getLsbD_and, BitVec.getLsbD_not,
      BitVec.getLsbD_and, getLsbD_blockable, decide_eq_true signr.isLt,
      Bool.true_and]
  have wakes :
      ∀ signr : Fin 32,
        task.waking.getLsbD signr.val = true ↔
          task.signal.getLsbD signr.val = true ∧ task.Wakes signr := by
    intro signr
    rw [bits, Task.Wakes]
    by_cases kill : signr = sigKill
    · simp [kill]
    · by_cases stop : signr = sigStop
      · simp [stop]
      · simp [kill, stop]
  rw [← lowest_isSome_iff, lowest, List.find?_isSome]
  constructor
  · rintro ⟨signr, _, set⟩
    exact ⟨signr, (wakes signr).mp set⟩
  · rintro ⟨signr, both⟩
    exact ⟨signr, List.mem_finRange signr, (wakes signr).mpr both⟩

/-- When the loop of `schedule` wakes a task that sleeps. -/
theorem Task.woken_iff
    {jiffies : Int} {task : Task}
    (asleep : task.state = .interruptible) :
    (task.checkSignals jiffies).state = .running ↔
      ∃ signr, task.Pending jiffies signr ∧ task.Wakes signr := by
  have tested :
      ∀ alarmed : Task, alarmed.state = .interruptible →
        ((if alarmed.waking ≠ 0#32 ∧ alarmed.state = .interruptible then
            ({ alarmed with state := .running } : Task)
          else
            alarmed).state = .running ↔ alarmed.waking ≠ 0#32) := by
    intro alarmed sleeps
    by_cases pending : alarmed.waking ≠ 0#32
    · rw [if_pos ⟨pending, sleeps⟩]
      exact iff_of_true rfl pending
    · rw [if_neg fun both => pending both.1, sleeps]
      exact iff_of_false TaskState.noConfusion pending
  unfold Task.checkSignals
  by_cases due : task.alarm ≠ 0 ∧ task.alarm < jiffies
  · simp only [if_pos due]
    refine (tested
      { task with signal := task.signal ||| bit sigAlrm, alarm := 0 }
      asleep).trans ?_
    rw [Task.waking_iff]
    refine exists_congr fun signr => and_congr_left' ?_
    simp only [Task.Pending, due, BitVec.getLsbD_or, getLsbD_bit,
      Bool.or_eq_true, decide_eq_true_eq, and_self, and_true, ne_eq,
      not_false_eq_true]
  · simp only [if_neg due]
    refine (tested task asleep).trans ?_
    rw [Task.waking_iff]
    refine exists_congr fun signr => and_congr_left' ?_
    simp only [Task.Pending, due, and_false, or_false]

/-- The condition: SIGCHLD or another signal that is pending can wake the task. -/
def Wakeable (jiffies : Int) (task : Task) : Prop :=
  task.blocked.getLsbD sigChld.val = false ∨
    ∃ signr, signr ≠ sigChld ∧ task.Pending jiffies signr ∧ task.Wakes signr

theorem Task.woken_iff_wakeable
    {jiffies : Int} {task : Task}
    (asleep : task.state = .interruptible)
    (told : task.signal.getLsbD sigChld.val = true) :
    (task.checkSignals jiffies).state = .running ↔ Wakeable jiffies task := by
  have kinds : ¬ sigChld = sigKill ∧ ¬ sigChld = sigStop := by decide
  rw [Task.woken_iff asleep]
  constructor
  · rintro ⟨signr, pending, wakes⟩
    by_cases child : signr = sigChld
    · subst child
      exact Or.inl
        ((wakes.resolve_right fun either =>
          either.elim kinds.1 kinds.2))
    · exact Or.inr ⟨signr, child, pending, wakes⟩
  · rintro (unblocked | ⟨signr, _, pending, wakes⟩)
    · exact ⟨sigChld, Or.inl told, Or.inl unblocked⟩
    · exact ⟨signr, pending, wakes⟩

/-- The claim about a state and one of its tasks. -/
def WakesUp (state : State) (slot : Slot) : Prop :=
  ∀ after, ProcessAction.Step .schedule state after →
    ∃ now, after.process slot = some now ∧ now.state = .running

/--
In a run in which only task 1 inherits dead children, `schedule` wakes a task that
sleeps in `sys_waitpid` beside a dead child exactly if the task does not block SIGCHLD
or has another signal that wakes it.
-/
theorem wakesUp_iff_wakeable
    {actions : List ProcessAction} {pid : Int} {options : BitVec 32}
    {other : Slot} {child : Process}
    (run : InheritingRun actions state)
    (asleep : Asleep state slot pid options process)
    (ready : Ready state slot process pid other child) :
    WakesUp state slot ↔ Wakeable state.jiffies process.toTask := by
  obtain ⟨reached, told⟩ := heard_of_run run
  have pending := told slot pid options process asleep other child ready
  have later : slot ≠ 0 :=
    reached.consistent.later asleep.present (by rw [asleep.waiting]; rfl)
  have scheduled :
      state.checkSignals.process slot =
        some { process with
          toTask := process.toTask.checkSignals state.jiffies } := by
    simp only [State.checkSignals, asleep.present, Option.map_some, if_neg later]
  rw [← Task.woken_iff_wakeable asleep.asleep pending]
  constructor
  · intro wakes
    obtain ⟨now, here, running⟩ := wakes state.checkSignals rfl
    cases scheduled.symm.trans here
    exact running
  · rintro running after stepped
    cases stepped
    exact ⟨_, scheduled, running⟩

/-- The claim: whoever sleeps in `sys_waitpid` beside a dead child is woken. -/
def MissesNoExit : Prop :=
  ∀ actions state,
    Traces ProcessAction.Step actions bootedState state →
    ∀ slot pid options waiter, Asleep state slot pid options waiter →
      ∀ other child, Ready state slot waiter pid other child → WakesUp state slot

/-- Init blocks some signals and waits for a child, which exits. -/
def waiting (newmask : BitVec 32) : List ProcessAction :=
  [.fork 0 (some 1) true, .fork 1 (some 2) true, .ssetmask 1 newmask,
    .waitpid 1 (-1) 0#32, .exit 2 0, .closed 2]

/-- Init sleeps beside the child that it waits for. -/
def isForgotten (state : State) : Bool :=
  (state.process 1).any fun waiter =>
    decide (waiter.point = .waiting (-1) 0#32 ∧ waiter.state = .interruptible) &&
    (state.process 2).any fun child =>
      decide (waiter.Awaits (-1) child ∧ child.state = .zombie)

theorem exists_of_isForgotten
    (forgotten : isForgotten state = true) :
    ∃ waiter child, Asleep state 1 (-1) 0#32 waiter ∧
      Ready state 1 waiter (-1) 2 child := by
  simp only [isForgotten, Option.any_eq_true, Bool.and_eq_true,
    decide_eq_true_eq] at forgotten
  obtain ⟨waiter, present, ⟨waits, sleeps⟩, child, there, awaits, dead⟩ :=
    forgotten
  exact ⟨waiter, child, ⟨present, waits, sleeps⟩, ⟨by decide, there, awaits, dead⟩⟩

/-- Init blocks SIGCHLD and sleeps for ever. -/
theorem not_missesNoExit : ¬ MissesNoExit := by
  intro missesNoExit
  have passed :
      ((Traces.runIf ProcessAction.step (fun _ _ => true)
        (waiting (bit sigChld)) bootedState).any fun state =>
          isForgotten state &&
            (state.checkSignals.process 1).all fun now =>
              decide (now.state = .interruptible)) = true := by
    decide +kernel
  obtain ⟨state, run, both⟩ := Traces.exists_of_run passed
  simp only [Bool.and_eq_true] at both
  obtain ⟨forgotten, sleeps⟩ := both
  obtain ⟨waiter, child, asleep, ready⟩ := exists_of_isForgotten forgotten
  obtain ⟨now, here, running⟩ :=
    missesNoExit _ _ run _ _ _ _ asleep _ _ ready _ rfl
  rw [here] at sleeps
  simp [running] at sleeps

/-- Only tasks without dead children exit, checked for the run above. -/
def isInheriting (action : ProcessAction) (state : State) : Bool :=
  match action with
  | .exit slot _ =>
    (state.process slot).all fun process =>
      decide (∀ other : Slot,
        ((state.process other).all fun child =>
          decide (child.father ≠ process.pid)) = true)
  | _ => true

theorem inherits_of_isInheriting
    (action : ProcessAction)
    (state : State)
    (passed : isInheriting action state = true) :
    action.Inherits state := by
  cases action with
  | exit slot code =>
    intro process present dead
    obtain ⟨other, child, _, there, father, _⟩ := dead
    simp only [isInheriting, present, Option.all_some, decide_eq_true_eq] at passed
    have foreign := passed other
    simp only [there, Option.all_some, decide_eq_true_eq] at foreign
    exact absurd father foreign
  | _ =>
    trivial

/-- Init blocks SIGHUP only and is woken. -/
theorem wakesUp_iff_wakeable_hup :
    ∃ state waiter child,
      InheritingRun (waiting (bit sigHup)) state ∧
      Asleep state 1 (-1) 0#32 waiter ∧
      Ready state 1 waiter (-1) 2 child ∧ WakesUp state 1 := by
  have passed :
      ((Traces.runIf ProcessAction.step isInheriting
        (waiting (bit sigHup)) bootedState).any fun state =>
          isForgotten state &&
            (state.process 1).all fun waiter =>
              !waiter.blocked.getLsbD sigChld.val) = true := by
    decide +kernel
  obtain ⟨state, run, both⟩ :=
    Traces.exists_of_any inherits_of_isInheriting passed
  simp only [Bool.and_eq_true] at both
  obtain ⟨forgotten, unblocked⟩ := both
  obtain ⟨waiter, child, asleep, ready⟩ := exists_of_isForgotten forgotten
  rw [asleep.present] at unblocked
  simp only [Option.all_some, Bool.not_eq_true'] at unblocked
  exact ⟨state, waiter, child, run, asleep, ready,
    (wakesUp_iff_wakeable run asleep ready).mpr (Or.inl unblocked)⟩

end Told

end Tasks

end HitOs
