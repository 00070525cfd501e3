import HitOs.Processes

namespace HitOs

/-!
# Steps that the process tree does not see

The tree that the tasks form, and the actions that leave it as it is: they change
signals, masks, clocks and the states of tasks, but no process comes, goes, exits or
begins to wait for a child.
-/

namespace Tasks

open WaitQueue (TaskState)
open ProcessTree (Stage Member Tree)

/-! ## Optional values that are related -/

section Related

variable {α β γ : Type} {first : Option α} {second : Option β}
variable {relation : α → β → Prop} {other : α → γ → Prop}

theorem rel_mono
    {weaker : α → β → Prop}
    (each : ∀ one two, relation one two → weaker one two)
    (related : Option.Rel relation first second) :
    Option.Rel weaker first second := by
  cases related with
  | none =>
    exact .none
  | some related =>
    exact .some (each _ _ related)

theorem rel_map
    {change : β → γ}
    (each : ∀ one two, relation one two → other one (change two))
    (related : Option.Rel relation first second) :
    Option.Rel other first (second.map change) := by
  cases related with
  | none =>
    exact .none
  | some related =>
    exact .some (each _ _ related)

theorem rel_trans
    {third : Option γ} {next : β → γ → Prop}
    (each :
      ∀ one two three, relation one two → next two three → other one three)
    (related : Option.Rel relation first second)
    (again : Option.Rel next second third) :
    Option.Rel other first third := by
  cases related with
  | none =>
    cases again
    exact .none
  | some related =>
    cases again with
    | some again =>
      exact .some (each _ _ _ related again)

theorem rel_some
    {one : α}
    (related : Option.Rel relation first second)
    (present : first = some one) :
    ∃ two, second = some two ∧ relation one two := by
  cases related with
  | none =>
    cases present
  | some related =>
    cases present
    exact ⟨_, rfl, related⟩

theorem rel_of_some
    {two : β}
    (related : Option.Rel relation first second)
    (present : second = some two) :
    ∃ one, first = some one ∧ relation one two := by
  cases related with
  | none =>
    cases present
  | some related =>
    cases present
    exact ⟨_, rfl, related⟩

end Related

/-! ## The tree -/

namespace Process

/-- The stage of a process in the tree. -/
def stage (process : Process) : Stage :=
  match process.point with
  | .closing code => .closing code
  | .dead => .dead process.exitCode
  | .reporting exit => .reporting exit
  | _ => .living

def member (process : Process) : Member where
  pid := process.pid
  father := process.father
  page := process.page
  serial := process.serial
  stage := process.stage

end Process

/-- The tree that the tasks form. -/
def State.tree (state : State) : ProcessTree.Tree Slot where
  member slot := (state.process slot).map Process.member
  held := state.pages
  born := state.forks
  exits := state.exits
  reports := state.reports

/-- The points of task 0. -/
def Point.ofIdle (point : Point) : Bool :=
  match point with
  | .booting => true
  | .idle => true
  | _ => false

/-- What holds of the tasks besides their tree. -/
structure Consistent (state : State) : Prop where
  lastPid : LastPid state.lastPid
  zombies :
    ∀ {slot : Slot} {process : Process},
      state.process slot = some process →
        (process.state = .zombie ↔ process.point = .dead)
  busy :
    ∀ {slot : Slot} {process : Process},
      state.process slot = some process → (process.point.ofIdle = true ↔ slot = 0)
  idle : ∃ process, state.process 0 = some process ∧ process.pid = 0
  boots :
    ∀ {process : Process},
      state.process 0 = some process → process.point = .booting →
        state.lastPid = 0 ∧ ∀ slot, slot ≠ 0 → state.process slot = none

/-! ## Steps that the tree does not see -/

/-- All signals are still pending. -/
def Louder (before after : Task) : Prop :=
  ∀ signr : Fin 32, before.signal.getLsbD signr.val = true →
    after.signal.getLsbD signr.val = true

/--
A process goes on without a change of its place in the tree.  It does not begin to
wait for a child, and while it waits it loses no signal.
-/
structure Quiet (before after : Process) : Prop where
  member : after.member = before.member
  zombie : after.state = .zombie ↔ before.state = .zombie
  point :
    after.point = before.point ∨
      (before.point.ofIdle = true ∧ after.point = .idle) ∨
      (before.point.ofIdle = false ∧ after.point.ofIdle = false ∧
        before.point ≠ .dead ∧ after.point ≠ .dead)
  waits :
    ∀ {pid : Int} {options : BitVec 32},
      after.point = .waiting pid options → after.state = .interruptible →
        before.point = .waiting pid options ∧
        before.state = .interruptible ∧ after.pgrp = before.pgrp ∧
        Louder before.toTask after.toTask
  group : after.state = .zombie → after.pgrp = before.pgrp

/-- Every process does so, and no process comes or goes. -/
structure Quietly (before after : State) : Prop where
  each :
    ∀ slot, Option.Rel Quiet (before.process slot) (after.process slot)
  lastPid : after.lastPid = before.lastPid
  pages : after.pages = before.pages
  forks : after.forks = before.forks
  exits : after.exits = before.exits
  reports : after.reports = before.reports

section Quietly

variable {before after : State} {slot : Slot} {process : Process}

theorem Quiet.refl
    (process : Process) :
    Quiet process process :=
  ⟨rfl, Iff.rfl, Or.inl rfl,
    fun waits sleeps => ⟨waits, sleeps, rfl, fun _ pending => pending⟩,
    fun _ => rfl⟩

/-- A signal is posted. -/
theorem Quiet.post
    (signr : Fin 32)
    (process : Process) :
    Quiet process (process.post signr) := by
  refine ⟨rfl, Iff.rfl, Or.inl rfl, ?_, fun _ => rfl⟩
  intro pid options waits sleeps
  refine ⟨waits, sleeps, rfl, ?_⟩
  intro other pending
  simp only [Process.post, BitVec.getLsbD_or, pending, Bool.true_or]

/-- A process that does not wait and lives changes what the tree does not see. -/
theorem Quiet.of_member
    {before after : Process}
    (member : after.member = before.member)
    (alive : before.state ≠ .zombie)
    (alive' : after.state ≠ .zombie)
    (point : after.point = before.point)
    (awake : after.state = .interruptible → ∀ pid options,
      after.point ≠ .waiting pid options) :
    Quiet before after :=
  ⟨member, iff_of_false alive' alive, Or.inl point,
    fun waits sleeps => absurd waits (awake sleeps _ _),
    fun dead => absurd dead alive'⟩

theorem Quietly.refl
    (state : State) :
    Quietly state state where
  each := by
    intro slot
    cases state.process slot with
    | none =>
      exact .none
    | some process =>
      exact .some (Quiet.refl process)
  lastPid := rfl
  pages := rfl
  forks := rfl
  exits := rfl
  reports := rfl

theorem Quietly.of_some
    (quietly : Quietly before after)
    (present : after.process slot = some process) :
    ∃ was, before.process slot = some was ∧ Quiet was process :=
  rel_of_some (quietly.each slot) present

theorem Quietly.of_none
    (quietly : Quietly before after)
    (empty : before.process slot = none) :
    after.process slot = none := by
  have related := quietly.each slot
  rw [empty] at related
  cases now : after.process slot with
  | none =>
    rfl
  | some process =>
    rw [now] at related
    cases related

theorem Quietly.to_some
    (quietly : Quietly before after)
    (present : before.process slot = some process) :
    ∃ now, after.process slot = some now ∧ Quiet process now :=
  rel_some (quietly.each slot) present

theorem Quietly.tree
    (quietly : Quietly before after) :
    after.tree = before.tree := by
  have members : after.tree.member = before.tree.member := by
    funext slot
    cases was : before.process slot with
    | none =>
      simp only [State.tree, quietly.of_none was, was]
    | some process =>
      obtain ⟨now, present, quiet⟩ := quietly.to_some was
      simp only [State.tree, present, was, Option.map_some, quiet.member]
  unfold State.tree at members ⊢
  simp only at members
  rw [members, quietly.pages, quietly.forks, quietly.exits, quietly.reports]

theorem Quietly.consistent
    (quietly : Quietly before after)
    (consistent : Consistent before) :
    Consistent after where
  lastPid := quietly.lastPid ▸ consistent.lastPid
  zombies := by
    intro slot process present
    obtain ⟨was, earlier, quiet⟩ := quietly.of_some present
    rw [quiet.zombie, consistent.zombies earlier]
    rcases quiet.point with same | ⟨idle, now⟩ | ⟨_, _, alive, alive'⟩
    · rw [same]
    · rw [now]
      refine iff_of_false ?_ Point.noConfusion
      intro dead
      rw [dead] at idle
      cases idle
    · exact iff_of_false alive alive'
  busy := by
    intro slot process present
    obtain ⟨was, earlier, quiet⟩ := quietly.of_some present
    rw [← consistent.busy earlier]
    rcases quiet.point with same | ⟨idle, now⟩ | ⟨busy, busy', _⟩
    · rw [same]
    · rw [now]
      exact iff_of_true rfl idle
    · rw [busy, busy']
  idle := by
    obtain ⟨process, present, pid⟩ := consistent.idle
    obtain ⟨now, here, quiet⟩ := quietly.to_some present
    have same := congrArg Member.pid quiet.member
    exact ⟨now, here, same.trans pid⟩
  boots := by
    intro process present booting
    obtain ⟨was, earlier, quiet⟩ := quietly.of_some present
    rcases quiet.point with same | ⟨_, now⟩ | ⟨_, busy, _⟩
    · obtain ⟨first, empty⟩ := consistent.boots earlier (same ▸ booting)
      refine ⟨quietly.lastPid.trans first, ?_⟩
      intro slot other
      exact quietly.of_none (empty slot other)
    · rw [booting] at now
      cases now
    · rw [booting] at busy
      cases busy

/-- One process goes on quietly. -/
theorem quietly_put
    {now : Process}
    (present : before.process slot = some process)
    (quiet : Quiet process now) :
    Quietly before (before.put slot now) where
  each := by
    intro other
    by_cases same : other = slot
    · subst same
      simp only [State.put, Function.update_self, present]
      exact .some quiet
    · simp only [State.put, Function.update_of_ne same]
      cases before.process other with
      | none =>
        exact .none
      | some process =>
        exact .some (Quiet.refl process)
  lastPid := rfl
  pages := rfl
  forks := rfl
  exits := rfl
  reports := rfl

/-- All processes go on quietly. -/
theorem quietly_map
    {each : Slot → Process → Process}
    (quiet :
      ∀ slot process, before.process slot = some process →
        Quiet process (each slot process)) :
    Quietly before
      { before with
        process := fun slot => (before.process slot).map (each slot) } where
  each := by
    intro slot
    cases present : before.process slot with
    | none =>
      simp only [present, Option.map_none]
      exact .none
    | some process =>
      simp only [present, Option.map_some]
      exact .some (quiet slot process present)
  lastPid := rfl
  pages := rfl
  forks := rfl
  exits := rfl
  reports := rfl

theorem change_eq_put
    {change : Process → Process}
    (present : before.process slot = some process) :
    before.change slot change = before.put slot (change process) := by
  simp only [State.change, State.put, present, Option.map_some]

theorem quietly_change_post
    (slot : Slot)
    (signr : Fin 32) :
    Quietly before (before.change slot (Process.post signr)) := by
  cases present : before.process slot with
  | none =>
    have same : before.change slot (Process.post signr) = before := by
      simp only [State.change, present, Option.map_none]
      rw [← present, Function.update_eq_self]
    rw [same]
    exact Quietly.refl before
  | some process =>
    rw [change_eq_put present]
    exact quietly_put present (Quiet.post signr process)

end Quietly

/-! ## The quiet actions -/

section QuietActions

variable {state after : State} {slot : Slot} {process : Process}

theorem running_eq_some :
    state.running slot = some process ↔
      state.process slot = some process ∧ process.state = .running := by
  simp [State.running, Option.filter_eq_some_iff]

theorem inUser_eq_some :
    state.inUser slot = some process ↔
      state.process slot = some process ∧ process.state = .running ∧
        process.point = .user := by
  simp [State.inUser, Option.filter_eq_some_iff, running_eq_some, and_assoc]

/-- A task in user mode changes what the tree does not see. -/
theorem quietly_inUser
    {now : Process}
    (current : state.inUser slot = some process)
    (member : now.member = process.member)
    (state' : now.state = process.state)
    (point : now.point = process.point) :
    Quietly state (state.put slot now) := by
  obtain ⟨present, running, user⟩ := inUser_eq_some.mp current
  refine quietly_put present (Quiet.of_member member ?_ ?_ point ?_)
  · rw [running]
    exact TaskState.noConfusion
  · rw [state', running]
    exact TaskState.noConfusion
  · intro _ pid options waits
    rw [point, user] at waits
    cases waits

theorem Task.checkSignals_rest
    (jiffies : Int)
    (task : Task) :
    (task.checkSignals jiffies).pid = task.pid ∧
    (task.checkSignals jiffies).father = task.father ∧
    (task.checkSignals jiffies).pgrp = task.pgrp ∧
    (task.checkSignals jiffies).exitCode = task.exitCode ∧
    Louder task (task.checkSignals jiffies) ∧
    ((task.checkSignals jiffies).state = task.state ∨
      (task.state = .interruptible ∧
        (task.checkSignals jiffies).state = .running)) := by
  have louder :
      ∀ signal : BitVec 32, ∀ signr : Fin 32,
        signal.getLsbD signr.val = true →
          (signal ||| bit sigAlrm).getLsbD signr.val = true := by
    intro signal signr pending
    simp only [BitVec.getLsbD_or, pending, Bool.true_or]
  unfold Task.checkSignals
  simp only
  split
  · split
    · rename_i woken
      exact ⟨rfl, rfl, rfl, rfl, louder _, Or.inr ⟨woken.2, rfl⟩⟩
    · exact ⟨rfl, rfl, rfl, rfl, louder _, Or.inl rfl⟩
  · split
    · rename_i woken
      exact ⟨rfl, rfl, rfl, rfl, fun _ pending => pending, Or.inr ⟨woken.2, rfl⟩⟩
    · exact ⟨rfl, rfl, rfl, rfl, fun _ pending => pending, Or.inl rfl⟩

theorem quietly_checkSignals :
    Quietly state state.checkSignals := by
  refine quietly_map ?_
  intro slot process present
  by_cases first : slot = 0
  · simp only [if_pos first]
    exact Quiet.refl process
  · simp only [if_neg first]
    obtain ⟨pid, father, pgrp, code, louder, woken⟩ :=
      Task.checkSignals_rest state.jiffies process.toTask
    refine ⟨?_, ?_, Or.inl rfl, ?_, fun _ => pgrp⟩
    · simp only [Process.member, Process.stage, pid, father, code]
    · rcases woken with same | ⟨asleep, now⟩
      · rw [same]
      · rw [asleep, now]
        simp
    · intro wanted options waits sleeps
      rcases woken with same | ⟨_, now⟩
      · exact ⟨waits, same.symm.trans sleeps, pgrp, louder⟩
      · cases sleeps.symm.trans now

theorem doSignal_rest
    (signr : Fin 32)
    (registers : Registers)
    (task : Task) :
    (doSignal signr registers task).2.pid = task.pid ∧
    (doSignal signr registers task).2.father = task.father ∧
    (doSignal signr registers task).2.exitCode = task.exitCode ∧
    (doSignal signr registers task).2.state = task.state := by
  by_cases ignored : (task.sigaction signr).handler = 1#32
  · simp [doSignal, ignored]
  · by_cases default : (task.sigaction signr).handler = 0#32
    · by_cases child : signr = sigChld
      · subst child
        simp [doSignal, default]
      · simp [doSignal, default, child]
    · by_cases once : (task.sigaction signr).flags &&& saOneshot = 0#32
      · simp [doSignal, ignored, default, once]
      · simp [doSignal, ignored, default, once, Task.setAction]

theorem retFromSysCall_rest
    (registers : Registers)
    (task : Task) :
    (retFromSysCall registers task).2.pid = task.pid ∧
    (retFromSysCall registers task).2.father = task.father ∧
    (retFromSysCall registers task).2.exitCode = task.exitCode ∧
    (retFromSysCall registers task).2.state = task.state := by
  unfold retFromSysCall
  split
  · exact ⟨rfl, rfl, rfl, rfl⟩
  · exact doSignal_rest _ _ _

theorem doTimer_rest
    (cpl : Bool)
    (task : Task) :
    (doTimer cpl task).1.pid = task.pid ∧
    (doTimer cpl task).1.father = task.father ∧
    (doTimer cpl task).1.exitCode = task.exitCode ∧
    (doTimer cpl task).1.state = task.state := by
  cases cpl
  · by_cases left : 0 < long (task.counter - 1)
    · simp [doTimer, left]
    · simp [doTimer, left]
  · by_cases left : 0 < long (task.counter - 1)
    · simp [doTimer, left]
    · simp [doTimer, left]

/-- The actions that the tree does not see. -/
def ProcessAction.isQuiet (action : ProcessAction) : Bool :=
  match action with
  | .fork _ _ _ => false
  | .exit _ _ => false
  | .closed _ => false
  | .waitpid _ _ _ => false
  | .resume _ => false
  | .report _ => false
  | _ => true

theorem ProcessAction.quietly
    {action : ProcessAction}
    (consistent : Consistent state)
    (quiet : action.isQuiet = true)
    (stepped : action.Step state after) :
    Quietly state after := by
  cases action with
  | ssetmask slot newmask =>
    obtain ⟨current, user, rfl⟩ := Option.map_eq_some_iff.mp stepped
    exact quietly_inUser user rfl rfl rfl
  | setsid slot suser =>
    obtain ⟨current, user, rfl⟩ := Option.map_eq_some_iff.mp stepped
    unfold State.setsid
    split
    · exact quietly_inUser user rfl rfl rfl
    · exact quietly_inUser user rfl rfl rfl
  | alarm slot time =>
    obtain ⟨current, user, rfl⟩ := Option.map_eq_some_iff.mp stepped
    exact quietly_inUser user rfl rfl rfl
  | deliver slot registers =>
    obtain ⟨current, user, rest⟩ := Option.bind_eq_some_iff.mp stepped
    obtain ⟨pid, father, code, state'⟩ :=
      retFromSysCall_rest registers current.toTask
    have kept :
        Quietly state
          (state.put slot
            { current with
              toTask := (retFromSysCall registers current.toTask).2 }) := by
      refine quietly_inUser user ?_ state' rfl
      simp only [Process.member, Process.stage, pid, father, code]
    split at rest
    · cases rest
    · rename_i delivered
      cases rest
      rw [delivered] at kept
      exact kept
  | sleep slot interruptible =>
    obtain ⟨current, runs, rest⟩ := Option.bind_eq_some_iff.mp stepped
    obtain ⟨present, running⟩ := running_eq_some.mp runs
    split at rest
    · rename_i sleeps
      cases rest
      refine quietly_put present (Quiet.of_member rfl ?_ ?_ rfl ?_)
      · rw [running]
        exact TaskState.noConfusion
      · cases interruptible <;> exact TaskState.noConfusion
      · intro _ pid options waits
        simp only at waits
        rw [waits] at sleeps
        cases sleeps
    · cases rest
  | wake slot =>
    obtain ⟨sleeper, present, rest⟩ := Option.bind_eq_some_iff.mp stepped
    split at rest
    · rename_i sleeps
      cases rest
      refine quietly_put present
        (Quiet.of_member rfl ?_ TaskState.noConfusion rfl
          fun never => TaskState.noConfusion never)
      intro zombie
      rw [(consistent.zombies present).mp zombie] at sleeps
      cases sleeps
    · cases rest
  | post slot signr =>
    cases stepped
    exact quietly_change_post slot signr
  | tick slot cpl =>
    obtain ⟨current, runs, rfl⟩ := Option.map_eq_some_iff.mp stepped
    obtain ⟨present, running⟩ := running_eq_some.mp runs
    obtain ⟨pid, father, code, state'⟩ := doTimer_rest cpl current.toTask
    have kept :
        Quietly state
          (state.put slot
            { current with toTask := (doTimer cpl current.toTask).1 }) := by
      refine quietly_put present (Quiet.of_member ?_ ?_ ?_ rfl ?_)
      · simp only [Process.member, Process.stage, pid, father, code]
      · rw [running]
        exact TaskState.noConfusion
      · rw [state', running]
        exact TaskState.noConfusion
      · intro asleep
        rw [state', running] at asleep
        cases asleep
    exact ⟨kept.each, kept.lastPid, kept.pages, kept.forks, kept.exits, kept.reports⟩
  | schedule =>
    cases stepped
    exact quietly_checkSignals
  | _ =>
    cases quiet

end QuietActions

end Tasks

end HitOs
