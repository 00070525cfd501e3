import HitOs.PipeTurns

namespace HitOs

/-!
# What one action does to a pipe

Each action as a relation between the states before and after it: what is transferred,
and whether the call then returns, sleeps, or waits for a page.
-/

namespace WaitQueue

open Routine

variable {ι : Type}

namespace State

variable [DecidableEq ι] {state : State ι} {current task other : ι}

/-- The queue after `wake_up`. -/
def woken (state : State ι) : State ι :=
  match state.waiting with
  | some task => (state.setTaskState task .running).setWaiting none
  | none => state

/-- The queue when a task has gone to sleep. -/
def slept (current : ι) (state : State ι) : State ι :=
  ((state.setTmp current (some state.waiting)).setWaiting
    (some current)).setTaskState current .uninterruptible

/-- The queue when a task has come out of `sleep_on`. -/
def resumed (current : ι) (state : State ι) : State ι :=
  match state.tmp current with
  | some (some tmp) => (state.setTaskState tmp .running).setTmp current none
  | _ => state.setTmp current none

theorem wakeUp_eq : wakeUp state = .ret () state.woken := by
  change (match state.waiting with
    | some task => _
    | none => _ : Routine (State ι) Unit) state = _
  unfold woken
  cases state.waiting with
  | none => rfl
  | some task => rfl

theorem sleepOnResumed_eq :
    sleepOnResumed current state = .ret () (state.resumed current) := by
  unfold sleepOnResumed resumed
  simp only [bind, andThen, Routine.read]
  cases state.tmp current with
  | none => rfl
  | some tmp =>
    cases tmp with
    | none => rfl
    | some tmp => rfl

theorem sleepOn_of_ret
    {initTask : ι} {after : State ι}
    (outcome : sleepOn initTask current state = .ret () after) :
    after = state.slept current := by
  unfold sleepOn at outcome
  split at outcome
  · cases outcome
  · cases outcome
    rfl

theorem not_sleepOn_abandon
    {initTask : ι} {after : State ι} :
    sleepOn initTask current state ≠ .abandon after := by
  unfold sleepOn
  split
  · exact nofun
  · exact nofun

@[simp] theorem woken_waiting : state.woken.waiting = none := by
  unfold woken
  split
  · rfl
  · assumption

@[simp] theorem woken_tmp : state.woken.tmp = state.tmp := by
  unfold woken
  split
  · rfl
  · rfl

/-- `wake_up` makes the task at the head runnable. -/
theorem runnable_woken :
    state.woken.Runnable task ↔
      state.waiting = some task ∨ state.Runnable task := by
  unfold woken
  split
  · rename_i head waiting
    by_cases same : task = head
    · simp [same, waiting]
    · simp [same, waiting, Ne.symm same]
  · rename_i nobody
    simp [nobody]

theorem runnable_slept
    (different : task ≠ current) :
    (state.slept current).Runnable task ↔ state.Runnable task := by
  simp [slept, different]

theorem not_runnable_slept : ¬ (state.slept current).Runnable current := by
  simp [slept]

theorem slept_tmp :
    (state.slept current).tmp =
      Function.update state.tmp current (some state.waiting) :=
  rfl

theorem resumed_tmp :
    (state.resumed current).tmp = Function.update state.tmp current none := by
  unfold resumed
  split
  · rfl
  · rfl

end State

end WaitQueue

namespace Pipes

open Routine
open WaitQueue (sleepOn sleepOnResumed wakeUp)

variable {ι : Type} [DecidableEq ι]

namespace State

def woken (state : State ι) : State ι :=
  { state with queue := state.queue.woken }

def slept (current : ι) (state : State ι) : State ι :=
  { state with queue := state.queue.slept current }

def resumed (current : ι) (state : State ι) : State ι :=
  { state with queue := state.queue.resumed current }

end State

section Queue

variable {initTask current : ι} {state after : State ι}

theorem onQueue_wakeUp :
    onQueue wakeUp state = .ret () state.woken :=
  zoom_of_ret WaitQueue.State.wakeUp_eq

theorem onQueue_resumed :
    onQueue (sleepOnResumed current) state = .ret () (state.resumed current) :=
  zoom_of_ret WaitQueue.State.sleepOnResumed_eq

/-- A task that goes to sleep, and what it remembers. -/
theorem endsIn_slept
    {point : Point}
    (ends :
      ((do
        onQueue (sleepOn initTask current)
        update (State.goto current point) : Routine (State ι) Unit)
          state).EndsIn after) :
    after = (state.slept current).goto current point := by
  cases outcome : sleepOn initTask current state.queue with
  | ret value queue =>
    have same := WaitQueue.State.sleepOn_of_ret outcome
    have slept :
        onQueue (sleepOn initTask current) state =
          .ret () (state.slept current) := by
      rw [State.slept, ← same]
      exact zoom_of_ret outcome
    rw [bind_of_ret slept] at ends
    rcases ends with ⟨_, reached⟩ | reached
    · cases reached
      rfl
    · cases reached
  | abandon queue =>
    exact absurd outcome WaitQueue.State.not_sleepOn_abandon
  | panic message =>
    have panicked :
        onQueue (sleepOn initTask current) state = .panic message := by
      unfold onQueue zoom
      rw [outcome]
    rw [bind_of_panic panicked] at ends
    rcases ends with ⟨_, reached⟩ | reached
    · cases reached
    · cases reached

end Queue

/-! ## The ends of turns -/

/-- A reader that can take no more bytes has returned, or sleeps. -/
inductive ReadEnd
    (current : ι)
    (count done : Nat)
    (buf : List Byte)
    (state : State ι) : State ι → Prop where
  | returned
      (why : count = 0 ∨ state.pipe.count ≠ 2) :
      ReadEnd current count done buf state
        (state.woken.readReturns current done buf)
  | slept
      (more : count ≠ 0)
      (both : state.pipe.count = 2) :
      ReadEnd current count done buf state
        ((state.woken.slept current).goto current (.reading count done buf))

/-- A writer that can give no more bytes has returned, or sleeps. -/
inductive WriteEnd
    (current : ι)
    (buf : Nat → Byte)
    (count written : Nat)
    (state : State ι) : State ι → Prop where
  | returned
      (nothing : count = 0) :
      WriteEnd current buf count written state
        (state.woken.writeReturns current buf written)
  | broken
      (more : count ≠ 0)
      (alone : state.pipe.count ≠ 2) :
      WriteEnd current buf count written state
        ((state.woken.breakPipe current).writeReturns current buf
          (if written ≠ 0 then written else -1))
  | slept
      (more : count ≠ 0)
      (both : state.pipe.count = 2) :
      WriteEnd current buf count written state
        ((state.woken.slept current).goto current
          (.writing buf count written))

section Ends

variable {initTask current : ι} {state after : State ι}
variable {count done written : Nat}

theorem readEnd_of_ends
    {buf : List Byte}
    (ends :
      (readEnds initTask current count done buf state).EndsIn after) :
    ReadEnd current count done buf state after := by
  unfold readEnds at ends
  split at ends
  · rename_i nothing
    unfold readDone at ends
    rw [bind_of_ret onQueue_wakeUp] at ends
    rcases ends with ⟨_, reached⟩ | reached
    · cases reached
      exact .returned (Or.inl nothing)
    · cases reached
  · rename_i more
    unfold readEmpty at ends
    rw [bind_of_ret onQueue_wakeUp] at ends
    change ((if state.pipe.count ≠ 2 then _ else _ :
      Routine (State ι) Unit) state.woken).EndsIn after at ends
    split at ends
    · rename_i alone
      rcases ends with ⟨_, reached⟩ | reached
      · cases reached
        exact .returned (Or.inr alone)
      · cases reached
    · rename_i both
      rw [endsIn_slept ends]
      exact .slept more (not_not.mp both)

theorem writeEnd_of_ends
    {buf : Nat → Byte}
    (ends :
      (writeEnds initTask current buf count written state).EndsIn after) :
    WriteEnd current buf count written state after := by
  unfold writeEnds at ends
  split at ends
  · rename_i nothing
    unfold writeDone at ends
    rw [bind_of_ret onQueue_wakeUp] at ends
    rcases ends with ⟨_, reached⟩ | reached
    · cases reached
      exact .returned nothing
    · cases reached
  · rename_i more
    unfold writeFull at ends
    rw [bind_of_ret onQueue_wakeUp] at ends
    change ((if state.pipe.count ≠ 2 then _ else _ :
      Routine (State ι) Unit) state.woken).EndsIn after at ends
    split at ends
    · rename_i alone
      rcases ends with ⟨_, reached⟩ | reached
      · cases reached
        exact .broken more alone
      · cases reached
    · rename_i both
      rw [endsIn_slept ends]
      exact .slept more (not_not.mp both)

end Ends

/-! ## Turns -/

/-- A turn of a reader in `read_pipe`. -/
inductive ReadTurn
    (current : ι)
    (fault : Option Nat)
    (count done : Nat)
    (buf : List Byte)
    (state : State ι) : State ι → Prop where
  | ran
      {after : State ι}
      (present :
        ∀ bytes, fault = some bytes → min count state.pipe.size ≤ bytes)
      (ends :
        ReadEnd current (count - min count state.pipe.size)
          (done + min count state.pipe.size)
          (buf ++ Ring.window pageSize state.pipe.page state.pipe.tail
            (min count state.pipe.size))
          (state.took (min count state.pipe.size)) after) :
      ReadTurn current fault count done buf state after
  | stopped
      {present : Nat}
      (known : fault = some present)
      (missing : present < min count state.pipe.size) :
      ReadTurn current fault count done buf state
        (state.putStopped current present
          (chunkEnd state.pipe.tail (min count state.pipe.size) present)
          count done buf)

/-- A turn of a writer in `write_pipe`. -/
inductive WriteTurn
    (current : ι)
    (fault : Option Nat)
    (buf : Nat → Byte)
    (count written : Nat)
    (state : State ι) : State ι → Prop where
  | ran
      {after : State ι}
      (present :
        ∀ bytes, fault = some bytes → min count state.pipe.room ≤ bytes)
      (ends :
        WriteEnd current buf (count - min count state.pipe.room)
          (written + min count state.pipe.room)
          (state.gave
            (Ring.load buf written (min count state.pipe.room))) after) :
      WriteTurn current fault buf count written state after
  | stopped
      {present : Nat}
      (known : fault = some present)
      (missing : present < min count state.pipe.room) :
      WriteTurn current fault buf count written state
        (state.getStopped current buf present
          (chunkEnd state.pipe.head (min count state.pipe.room) present)
          count written)

section Turns

variable {initTask current : ι} {state after : State ι}
variable {fault : Option Nat} {count done written : Nat}

theorem readTurn_of_ends
    {buf : List Byte}
    (inRange : state.pipe.InRange)
    (ends :
      (readLoop initTask current (count + 1) fault count done buf
        state).EndsIn after) :
    ReadTurn current fault count done buf state after := by
  by_cases present :
      ∀ bytes, fault = some bytes → min count state.pipe.size ≤ bytes
  · rw [readLoop_resident inRange (Nat.lt_succ_self count) present] at ends
    exact .ran present (readEnd_of_ends ends)
  · obtain ⟨bytes, known⟩ := not_forall.mp present
    obtain ⟨rfl, missing⟩ := Classical.not_imp.mp known
    have stopped := Nat.not_le.mp missing
    rw [readLoop_stopped inRange (Nat.lt_succ_self count) stopped] at ends
    rcases ends with ⟨_, reached⟩ | reached
    · cases reached
      exact .stopped rfl stopped
    · cases reached

theorem writeTurn_of_ends
    {buf : Nat → Byte}
    (inRange : state.pipe.InRange)
    (ends :
      (writeLoop initTask current buf (count + 1) fault count written
        state).EndsIn after) :
    WriteTurn current fault buf count written state after := by
  by_cases present :
      ∀ bytes, fault = some bytes → min count state.pipe.room ≤ bytes
  · rw [writeLoop_resident inRange (Nat.lt_succ_self count) present] at ends
    exact .ran present (writeEnd_of_ends ends)
  · obtain ⟨bytes, known⟩ := not_forall.mp present
    obtain ⟨rfl, missing⟩ := Classical.not_imp.mp known
    have stopped := Nat.not_le.mp missing
    rw [writeLoop_stopped inRange (Nat.lt_succ_self count) stopped] at ends
    rcases ends with ⟨_, reached⟩ | reached
    · cases reached
      exact .stopped rfl stopped
    · cases reached

end Turns

/-! ## Actions -/

/-- What the actions do. -/
inductive Moves (before : State ι) : Action ι → State ι → Prop where
  | read
      {current : ι} {count : Int} {fault : Option Nat} {after : State ι}
      (isOpen : before.readEnd = true)
      (user : (before.point current).isUser = true)
      (turn : ReadTurn current fault count.toNat 0 [] before after) :
      Moves before (.read current count fault) after
  | write
      {current : ι} {buf : Nat → Byte} {count : Int} {fault : Option Nat}
      {after : State ι}
      (isOpen : before.writeEnd = true)
      (user : (before.point current).isUser = true)
      (turn : WriteTurn current fault buf count.toNat 0 before after) :
      Moves before (.write current buf count fault) after
  | resumeRead
      {current : ι} {fault : Option Nat} {count done : Nat}
      {buf : List Byte} {after : State ι}
      (asleep : before.point current = .reading count done buf)
      (runnable : before.queue.Runnable current)
      (turn :
        ReadTurn current fault count done buf (before.resumed current)
          after) :
      Moves before (.resume current fault) after
  | resumeWrite
      {current : ι} {fault : Option Nat} {buf : Nat → Byte}
      {count written : Nat} {after : State ι}
      (asleep : before.point current = .writing buf count written)
      (runnable : before.queue.Runnable current)
      (turn :
        WriteTurn current fault buf count written (before.resumed current)
          after) :
      Moves before (.resume current fault) after
  | putMore
      {current : ι} {fault : Option Nat} {val : Byte}
      {chars size count done : Nat} {buf bytes : List Byte} {after : State ι}
      (asleep :
        before.point current = .putting val chars size count done buf)
      (turn :
        ReadTurn current (fault.map fun bytes => bytes - chars) count done
          (buf ++ bytes) (before.fetch bytes) after) :
      Moves before (.resume current fault) after
  | putSome
      {current : ι} {val : Byte}
      {chars size count done present : Nat} {buf bytes : List Byte}
      {next : Byte}
      (asleep :
        before.point current = .putting val chars size count done buf)
      (missing : present < chars) :
      Moves before (.resume current (some present))
        ((before.fetch bytes).goto current
          (.putting next (chars - present - 1) (size + present + 1) count done
            (buf ++ bytes)))
  | getMore
      {current : ι} {fault : Option Nat} {buf : Nat → Byte}
      {chars size count written number : Nat} {after : State ι}
      (asleep :
        before.point current = .getting buf chars size count written number)
      (turn :
        WriteTurn current (fault.map fun bytes => bytes - chars) buf count
          written
          (before.store (Ring.load buf (written - chars) chars) size number)
          after) :
      Moves before (.resume current fault) after
  | getSome
      {current : ι} {buf : Nat → Byte}
      {chars size count written number present : Nat}
      (asleep :
        before.point current = .getting buf chars size count written number)
      (missing : present < chars) :
      Moves before (.resume current (some present))
        ((before.store (Ring.load buf (written - chars) present) size
          number).goto current
            (.getting buf (chars - present) (size + present) count written
              (number + present)))
  | closeRead
      (isOpen : before.readEnd = true)
      (idle : ∀ task, (before.point task).isReader = false) :
      Moves before .closeRead
        { before.woken with
          pipe := { before.pipe with count := before.pipe.count - 1 }
          readEnd := false }
  | closeWrite
      (isOpen : before.writeEnd = true)
      (idle : ∀ task, (before.point task).isWriter = false) :
      Moves before .closeWrite
        { before.woken with
          pipe := { before.pipe with count := before.pipe.count - 1 }
          writeEnd := false }

section Steps

variable {initTask current : ι} {before after : State ι}
variable {fault : Option Nat}

theorem moves_of_putting
    {val : Byte} {chars size count done : Nat} {buf : List Byte}
    (inRange : before.pipe.InRange)
    (asleep : before.point current = .putting val chars size count done buf)
    (ends :
      (resumeAt initTask current fault
        (.putting val chars size count done buf) before).EndsIn after) :
    Moves before (.resume current fault) after := by
  rw [resumeAt] at ends
  have fetched :
      update (State.fetch [val]) before = .ret () (before.fetch [val]) :=
    rfl
  rw [bind_of_ret fetched] at ends
  have joined (present : Nat) :
      (before.fetch [val]).fetch (Ring.load before.pipe.page size present) =
        before.fetch (val :: Ring.load before.pipe.page size present) := by
    unfold State.fetch
    simp only [List.append_assoc, List.cons_append, List.nil_append]
  by_cases present : ∀ bytes, fault = some bytes → chars ≤ bytes
  · have copied :
        putBytes current fault chars size count done (buf ++ [val])
            (before.fetch [val]) =
          .ret
            (some (fault.map fun bytes => bytes - chars,
              buf ++ [val] ++ Ring.load before.pipe.page size chars))
            ((before.fetch [val]).fetch
              (Ring.load before.pipe.page size chars)) :=
      putBytes_copied present
    rw [joined, List.append_assoc, List.singleton_append] at copied
    rw [bind_of_ret copied] at ends
    exact .putMore asleep (readTurn_of_ends inRange ends)
  · obtain ⟨bytes, known⟩ := not_forall.mp present
    obtain ⟨rfl, missing⟩ := Classical.not_imp.mp known
    have stopped := Nat.not_le.mp missing
    have copied :
        putBytes current (some bytes) chars size count done (buf ++ [val])
            (before.fetch [val]) =
          .ret none
            (((before.fetch [val]).fetch
              (Ring.load before.pipe.page size bytes)).goto current
                (.putting (before.pipe.page (size + bytes))
                  (chars - bytes - 1) (size + bytes + 1) count done
                  (buf ++ [val] ++ Ring.load before.pipe.page size bytes))) :=
      putBytes_missing stopped
    rw [joined, List.append_assoc, List.singleton_append] at copied
    rw [bind_of_ret copied] at ends
    rcases ends with ⟨_, reached⟩ | reached
    · cases reached
      exact .putSome asleep stopped
    · cases reached

theorem moves_of_getting
    {buf : Nat → Byte} {chars size count written number : Nat}
    (inRange : before.pipe.InRange)
    (asleep :
      before.point current = .getting buf chars size count written number)
    (ends :
      (resumeAt initTask current fault
        (.getting buf chars size count written number) before).EndsIn
          after) :
    Moves before (.resume current fault) after := by
  rw [resumeAt] at ends
  by_cases present : ∀ bytes, fault = some bytes → chars ≤ bytes
  · rw [bind_of_ret (getBytes_copied present)] at ends
    exact .getMore asleep
      (writeTurn_of_ends ⟨inRange.head, inRange.tail⟩ ends)
  · obtain ⟨bytes, known⟩ := not_forall.mp present
    obtain ⟨rfl, missing⟩ := Classical.not_imp.mp known
    have stopped := Nat.not_le.mp missing
    rw [bind_of_ret (getBytes_missing stopped)] at ends
    rcases ends with ⟨_, reached⟩ | reached
    · cases reached
      exact .getSome asleep stopped
    · cases reached

theorem moves_of_ends
    {action : Action ι}
    (inRange : before.pipe.InRange)
    (enabled : action.Enabled before)
    (ends : (action.perform initTask before).EndsIn after) :
    Moves before action after := by
  cases action with
  | read current count fault =>
    exact .read enabled.1 enabled.2.1 (readTurn_of_ends inRange ends)
  | write current buf count fault =>
    exact .write enabled.1 enabled.2.1 (writeTurn_of_ends inRange ends)
  | resume current fault =>
    change (resumeAt initTask current fault (before.point current)
      before).EndsIn after at ends
    cases point : before.point current with
    | user eax =>
      rw [Action.Enabled, point] at enabled
      exact enabled.elim
    | reading count done buf =>
      rw [Action.Enabled, point] at enabled
      rw [point, resumeAt] at ends
      rw [bind_of_ret onQueue_resumed] at ends
      exact .resumeRead point enabled (readTurn_of_ends inRange ends)
    | putting val chars size count done buf =>
      rw [point] at ends
      exact moves_of_putting inRange point ends
    | writing buf count written =>
      rw [Action.Enabled, point] at enabled
      rw [point, resumeAt] at ends
      rw [bind_of_ret onQueue_resumed] at ends
      exact .resumeWrite point enabled (writeTurn_of_ends inRange ends)
    | getting buf chars size count written number =>
      rw [point] at ends
      exact moves_of_getting inRange point ends
  | closeRead =>
    unfold Action.perform iput at ends
    simp only [bind_assoc] at ends
    rw [bind_of_ret onQueue_wakeUp] at ends
    rcases ends with ⟨_, reached⟩ | reached
    · cases reached
      exact .closeRead enabled.1 enabled.2
    · cases reached
  | closeWrite =>
    unfold Action.perform iput at ends
    simp only [bind_assoc] at ends
    rw [bind_of_ret onQueue_wakeUp] at ends
    rcases ends with ⟨_, reached⟩ | reached
    · cases reached
      exact .closeWrite enabled.1 enabled.2
    · cases reached

theorem moves_of_step
    {action : Action ι}
    (inRange : before.pipe.InRange)
    (stepped : (pipeMachine initTask).Step before action after) :
    Moves before action after :=
  moves_of_ends inRange stepped.ends.1 stepped.ends.2

end Steps

/-! ## Running given actions -/

/-- A pipe as `get_pipe_inode` leaves it, and tasks in user mode. -/
def newPipe (page : Nat → Byte) : State ι where
  pipe := { head := 0, tail := 0, count := 2, page := page }
  queue :=
    { waiting := none
      taskState := fun _ => .running
      tmp := fun _ => none }
  point _ := .user 0
  signal _ := 0#32
  readEnd := true
  writeEnd := true
  history :=
    { claimed := 0
      released := 0
      serial := fun _ => none
      stored := []
      fetched := []
      reads := []
      writes := [] }

theorem newPipe_initial
    {initTask : ι}
    (page : Nat → Byte) :
    (pipeMachine initTask).initial (newPipe page) :=
  ⟨⟨rfl, rfl, rfl⟩, ⟨rfl, fun _ => ⟨rfl, fun inside => inside rfl⟩⟩,
    fun _ => rfl, ⟨rfl, rfl⟩, rfl⟩

/-- Whether a call or a resumption is enabled. -/
def Action.check (action : Action ι) (state : State ι) : Bool :=
  match action with
  | .read current _ _ =>
    state.readEnd && (state.point current).isUser &&
      decide (state.queue.taskState current = .running)
  | .write current _ _ _ =>
    state.writeEnd && (state.point current).isUser &&
      decide (state.queue.taskState current = .running)
  | .resume current _ =>
    match state.point current with
    | .user _ => false
    | .reading _ _ _ | .writing _ _ _ =>
      decide (state.queue.taskState current = .running)
    | .putting _ _ _ _ _ _ | .getting _ _ _ _ _ _ => true
  | .closeRead | .closeWrite => false

theorem Action.enabled_of_check
    {action : Action ι} {state : State ι}
    (checked : action.check state = true) :
    action.Enabled state := by
  cases action with
  | read current count fault =>
    unfold check at checked
    rw [Bool.and_eq_true, Bool.and_eq_true, decide_eq_true_iff] at checked
    exact ⟨checked.1.1, checked.1.2, checked.2⟩
  | write current buf count fault =>
    unfold check at checked
    rw [Bool.and_eq_true, Bool.and_eq_true, decide_eq_true_iff] at checked
    exact ⟨checked.1.1, checked.1.2, checked.2⟩
  | resume current fault =>
    rw [check] at checked
    rw [Enabled]
    cases point : state.point current with
    | user eax =>
      rw [point] at checked
      cases checked
    | reading count done buf =>
      rw [point] at checked
      have runnable : state.queue.taskState current = .running :=
        of_decide_eq_true checked
      exact runnable
    | putting val chars size count done buf =>
      exact trivial
    | writing buf count written =>
      rw [point] at checked
      have runnable : state.queue.taskState current = .running :=
        of_decide_eq_true checked
      exact runnable
    | getting buf chars size count written number =>
      exact trivial
  | closeRead => cases checked
  | closeWrite => cases checked

/-- Actions that have been followed are a run of the pipe. -/
theorem traces_of_follow
    {initTask : ι} {actions : List (Action ι)} {state last : State ι}
    (followed :
      (pipeMachine initTask).follow Action.check actions state = some last) :
    Traces
      (fun action before after =>
        (pipeMachine initTask).Step before action after)
      actions state last := by
  have run :
      Traces
        (fun action before after =>
          (pipeMachine initTask).Step before action after ∧ True)
        actions state last :=
    Machine.traces_of_follow
      (fun _ _ checked => ⟨Action.enabled_of_check checked, trivial⟩) followed
  exact run.mono fun _ _ _ stepped => stepped.1

end Pipes

end HitOs
