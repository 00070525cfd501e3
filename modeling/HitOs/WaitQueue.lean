import HitOs.Machine
import Mathlib.Data.Set.Card
import Mathlib.Logic.Function.Basic

namespace HitOs

/-!
# Wait queues

`sleep_on` and `wake_up` on one queue.  The queue has no list of its own: `*p`
is the last task that went to sleep, and each sleeper keeps the one before it in
the local variable `tmp` of its suspended call.  A task in the kernel gives up
the processor only in `schedule`, so a call of `sleep_on` is two routines, up to
`schedule` and from there on.
-/

namespace WaitQueue

open Routine

/-- The values of `state` in `task_struct`. -/
inductive TaskState where
  | running
  | interruptible
  | uninterruptible
  | zombie
  | stopped
  deriving Repr, DecidableEq

/-- A queue and its tasks; `tmp` is there for the tasks inside `sleep_on`. -/
structure State (ι : Type) where
  waiting : Option ι
  taskState : ι → TaskState
  tmp : ι → Option (Option ι)

variable {ι : Type}

namespace State

def Runnable (state : State ι) (task : ι) : Prop :=
  state.taskState task = .running

/-- The task has called `sleep_on` and the call has not returned. -/
def Inside (state : State ι) (task : ι) : Prop :=
  state.tmp task ≠ none

/-- The task `user` will wake `task` when it resumes. -/
def Saves (state : State ι) (user task : ι) : Prop :=
  state.tmp user = some (some task)

def setWaiting (task : Option ι) (state : State ι) : State ι :=
  { state with waiting := task }

@[simp] theorem setWaiting_waiting
    {state : State ι}
    (value : Option ι) :
    (state.setWaiting value).waiting = value :=
  rfl

@[simp] theorem runnable_setWaiting
    {state : State ι} {other : ι}
    (value : Option ι) :
    (state.setWaiting value).Runnable other ↔ state.Runnable other :=
  Iff.rfl

@[simp] theorem saves_setWaiting
    {state : State ι} {user other : ι}
    (value : Option ι) :
    (state.setWaiting value).Saves user other ↔ state.Saves user other :=
  Iff.rfl

@[simp] theorem inside_setWaiting
    {state : State ι} {other : ι}
    (value : Option ι) :
    (state.setWaiting value).Inside other ↔ state.Inside other :=
  Iff.rfl

end State

variable [DecidableEq ι]

namespace State

def setTaskState
    (task : ι)
    (value : TaskState)
    (state : State ι) : State ι :=
  { state with taskState := Function.update state.taskState task value }

def setTmp
    (task : ι)
    (value : Option (Option ι))
    (state : State ι) : State ι :=
  { state with tmp := Function.update state.tmp task value }

section Updates

variable {state : State ι} {task user other : ι}

@[simp] theorem setTaskState_waiting
    (value : TaskState) :
    (state.setTaskState task value).waiting = state.waiting :=
  rfl

@[simp] theorem setTmp_waiting
    (value : Option (Option ι)) :
    (state.setTmp task value).waiting = state.waiting :=
  rfl

@[simp] theorem runnable_setTmp
    (value : Option (Option ι)) :
    (state.setTmp task value).Runnable other ↔ state.Runnable other :=
  Iff.rfl

@[simp] theorem runnable_setTaskState_self
    (value : TaskState) :
    (state.setTaskState task value).Runnable task ↔ value = .running := by
  simp [Runnable, setTaskState]

@[simp] theorem runnable_setTaskState_ne
    (value : TaskState)
    (different : other ≠ task) :
    (state.setTaskState task value).Runnable other ↔
      state.Runnable other := by
  simp [Runnable, setTaskState, different]

@[simp] theorem saves_setTaskState
    (value : TaskState) :
    (state.setTaskState task value).Saves user other ↔ state.Saves user other :=
  Iff.rfl

@[simp] theorem saves_setTmp_self
    (value : Option (Option ι)) :
    (state.setTmp task value).Saves task other ↔
      value = some (some other) := by
  simp [Saves, setTmp]

@[simp] theorem saves_setTmp_ne
    (value : Option (Option ι))
    (different : user ≠ task) :
    (state.setTmp task value).Saves user other ↔
      state.Saves user other := by
  simp [Saves, setTmp, different]

@[simp] theorem inside_setTaskState
    (value : TaskState) :
    (state.setTaskState task value).Inside other ↔ state.Inside other :=
  Iff.rfl

@[simp] theorem inside_setTmp_self
    (value : Option (Option ι)) :
    (state.setTmp task value).Inside task ↔ value ≠ none := by
  simp [Inside, setTmp]

@[simp] theorem inside_setTmp_ne
    (value : Option (Option ι))
    (different : other ≠ task) :
    (state.setTmp task value).Inside other ↔ state.Inside other := by
  simp [Inside, setTmp, different]

end Updates

end State

/-- `sleep_on` up to the call of `schedule` -/
def sleepOn (initTask current : ι) : Routine (State ι) Unit := do
  if current = initTask then
    Routine.panic "task[0] trying to sleep"
  else
    let state ← read
    update (State.setTmp current (some state.waiting))
    update (State.setWaiting (some current))
    update (State.setTaskState current .uninterruptible)

/-- `sleep_on` from the return of `schedule` -/
def sleepOnResumed (current : ι) : Routine (State ι) Unit := do
  let state ← read
  match state.tmp current with
  | some (some tmp) => update (State.setTaskState tmp .running)
  | _ => pure ()
  update (State.setTmp current none)

/-- `wake_up` -/
def wakeUp : Routine (State ι) Unit := do
  let state ← read
  match state.waiting with
  | some task =>
    update (State.setTaskState task .running)
    update (State.setWaiting none)
  | none => pure ()

/-- What the tasks do with the queue. -/
inductive Action (ι : Type) where
  | sleep (task : ι)
  | resume (task : ι)
  | wake

/-- The queue under any interleaving of the tasks. -/
def queue (initTask : ι) : Machine (State ι) (Action ι) where
  initial state :=
    state.waiting = none ∧ ∀ task, state.Runnable task ∧ ¬ state.Inside task
  enabled action state :=
    match action with
    | .sleep task => state.Runnable task ∧ ¬ state.Inside task
    | .resume task => state.Runnable task ∧ state.Inside task
    | .wake => True
  perform action :=
    match action with
    | .sleep task => sleepOn initTask task
    | .resume task => sleepOnResumed task
    | .wake => wakeUp

/-! ## What one action does -/

/-- The ways in which an action changes the queue. -/
inductive Moves : State ι → Action ι → State ι → Prop where
  | slept
      {state : State ι} {task : ι}
      (runnable : state.Runnable task)
      (outside : ¬ state.Inside task) :
      Moves state (.sleep task)
        (((state.setTmp task (some state.waiting)).setWaiting
          (some task)).setTaskState task .uninterruptible)
  | returned
      {state : State ι} {task : ι}
      (runnable : state.Runnable task)
      (last : ∀ other, ¬ state.Saves task other) :
      Moves state (.resume task) (state.setTmp task none)
  | woke
      {state : State ι} {task other : ι}
      (runnable : state.Runnable task)
      (saves : state.Saves task other) :
      Moves state (.resume task)
        ((state.setTaskState other .running).setTmp task none)
  | wokeHead
      {state : State ι} {task : ι}
      (head : state.waiting = some task) :
      Moves state .wake
        ((state.setTaskState task .running).setWaiting none)
  | wokeNobody
      {state : State ι}
      (head : state.waiting = none) :
      Moves state .wake state

theorem moves_sleepOn
    {initTask task : ι} {state : State ι}
    (runnable : state.Runnable task)
    (outside : ¬ state.Inside task)
    {after : State ι}
    (ends : (sleepOn initTask task state).EndsIn after) :
    Moves state (.sleep task) after := by
  unfold sleepOn at ends
  by_cases first : task = initTask
  · rw [if_pos first] at ends
    rcases ends with ⟨_, outcome⟩ | outcome
    · cases outcome
    · cases outcome
  · rw [if_neg first] at ends
    rcases ends with ⟨_, outcome⟩ | outcome
    · cases outcome
      exact .slept runnable outside
    · cases outcome

theorem moves_sleepOnResumed
    {task : ι} {state : State ι}
    (runnable : state.Runnable task)
    (inside : state.Inside task)
    {after : State ι}
    (ends : (sleepOnResumed task state).EndsIn after) :
    Moves state (.resume task) after := by
  have returns :
      (sleepOnResumed task).Satisfies state
        (fun _ last => Moves state (.resume task) last)
        (Moves state (.resume task)) := by
    unfold sleepOnResumed
    rw [satisfies_bind, satisfies_read]
    cases saved : state.tmp task with
    | none =>
      exact absurd saved inside
    | some value =>
      cases value with
      | none =>
        refine Moves.returned runnable ?_
        intro other saves
        unfold State.Saves at saves
        rw [saved] at saves
        cases saves
      | some other =>
        exact .woke runnable saved
  exact returns.of_end ends

theorem moves_wakeUp
    {state after : State ι}
    (ends : (wakeUp state).EndsIn after) :
    Moves state .wake after := by
  have returns :
      wakeUp.Satisfies state
        (fun _ last => Moves state .wake last)
        (Moves state .wake) := by
    unfold wakeUp
    rw [satisfies_bind, satisfies_read]
    cases head : state.waiting with
    | none =>
      exact .wokeNobody head
    | some task =>
      exact .wokeHead head
  exact returns.of_end ends

theorem moves_of_step
    {initTask : ι} {state after : State ι} {action : Action ι}
    (stepped : (queue initTask).Step state action after) :
    Moves state action after := by
  have ends := stepped.ends
  cases action with
  | sleep task =>
    exact moves_sleepOn ends.1.1 ends.1.2 ends.2
  | resume task =>
    exact moves_sleepOnResumed ends.1.1 ends.1.2 ends.2
  | wake =>
    exact moves_wakeUp ends.2

/-! ## The chains of sleepers -/

namespace State

/-- Either `*p` refers to the task or the `tmp` of exactly one other task. -/
def ReferencedOnce (state : State ι) (task : ι) : Prop :=
  (state.waiting = some task ∧ ∀ user, ¬ state.Saves user task) ∨
  (state.waiting ≠ some task ∧ ∃ user, user ≠ task ∧
    state.Saves user task ∧
    ∀ other, state.Saves other task → other = user)

/--
The queue is a set of disjoint chains: the one that starts at `*p`, and those
that start at a task which has been woken and has not resumed yet.
-/
structure Chained (state : State ι) : Prop where
  head :
    ∀ task, state.waiting = some task →
      ¬ state.Runnable task ∧ ∀ user, ¬ state.Saves user task
  saved :
    ∀ user task, state.Saves user task → ¬ state.Runnable task
  unique :
    ∀ user other task, state.Saves user task → state.Saves other task → other = user
  covered :
    ∀ task, ¬ state.Runnable task →
      state.waiting = some task ∨ ∃ user, state.Saves user task
  inside :
    ∀ task, ¬ state.Runnable task → state.Inside task
  ordered :
    ∃ (turn : ι → Nat) (next : Nat),
      (∀ user task, state.Saves user task → turn task < turn user) ∧
        ∀ task, state.Inside task → turn task < next

omit [DecidableEq ι] in
theorem Saves.inside
    {state : State ι} {user task : ι}
    (saves : state.Saves user task) :
    state.Inside user := by
  unfold Inside
  rw [saves]
  exact Option.some_ne_none _

omit [DecidableEq ι] in
theorem Chained.ne
    {state : State ι} {user task : ι}
    (chained : state.Chained)
    (saves : state.Saves user task) :
    user ≠ task := by
  obtain ⟨turn, _, later, _⟩ := chained.ordered
  rintro rfl
  exact Nat.lt_irrefl _ (later user user saves)

omit [DecidableEq ι] in
theorem Chained.referencedOnce
    {state : State ι} {task : ι}
    (chained : state.Chained)
    (asleep : ¬ state.Runnable task) :
    state.ReferencedOnce task := by
  by_cases head : state.waiting = some task
  · exact Or.inl ⟨head, (chained.head task head).2⟩
  · rcases chained.covered task asleep with first | ⟨user, saves⟩
    · exact absurd first head
    · exact Or.inr ⟨head, user, chained.ne saves, saves,
        fun other saves' => chained.unique user other task saves saves'⟩

end State

/-- Going to sleep puts the task at the head of the first chain. -/
theorem State.Chained.slept
    {state : State ι} {task : ι}
    (chained : state.Chained)
    (runnable : state.Runnable task)
    (outside : ¬ state.Inside task) :
    (((state.setTmp task (some state.waiting)).setWaiting
      (some task)).setTaskState task .uninterruptible).Chained := by
  have saves_iff :
      ∀ user other,
        (((state.setTmp task (some state.waiting)).setWaiting
            (some task)).setTaskState task .uninterruptible).Saves
              user other ↔
          (user = task ∧ state.waiting = some other) ∨
            state.Saves user other := by
    intro user other
    by_cases self : user = task
    · subst self
      have nothing : ¬ state.Saves user other :=
        fun saves => outside saves.inside
      simp [nothing]
    · simp [self]
  have asleep_iff :
      ∀ other,
        ¬ (((state.setTmp task (some state.waiting)).setWaiting
            (some task)).setTaskState task .uninterruptible).Runnable
              other ↔
          other = task ∨ ¬ state.Runnable other := by
    intro other
    by_cases self : other = task
    · simp [self]
    · simp [self]
  have unsaved : ∀ user, ¬ state.Saves user task :=
    fun user saves => chained.saved user task saves runnable
  obtain ⟨turn, next, later, before⟩ := chained.ordered
  constructor
  case head =>
    intro other head
    cases head
    refine ⟨(asleep_iff task).mpr (Or.inl rfl), ?_⟩
    intro user saves
    rcases (saves_iff user task).mp saves with ⟨_, head⟩ | saves
    · exact (chained.head task head).1 runnable
    · exact unsaved user saves
  case saved =>
    intro user other saves
    apply (asleep_iff other).mpr
    rcases (saves_iff user other).mp saves with ⟨_, head⟩ | saves
    · exact Or.inr (chained.head other head).1
    · exact Or.inr (chained.saved user other saves)
  case unique =>
    intro user user' other saves saves'
    rcases (saves_iff user other).mp saves with ⟨first, head⟩ | saves
    · rcases (saves_iff user' other).mp saves' with ⟨second, _⟩ | saves'
      · rw [first, second]
      · exact absurd saves' ((chained.head other head).2 user')
    · rcases (saves_iff user' other).mp saves' with ⟨_, head⟩ | saves'
      · exact absurd saves ((chained.head other head).2 user)
      · exact chained.unique user user' other saves saves'
  case covered =>
    intro other asleep
    rcases (asleep_iff other).mp asleep with rfl | asleep
    · exact Or.inl rfl
    · rcases chained.covered other asleep with head | ⟨user, saves⟩
      · exact Or.inr
          ⟨task, (saves_iff task other).mpr (Or.inl ⟨rfl, head⟩)⟩
      · exact Or.inr
          ⟨user, (saves_iff user other).mpr (Or.inr saves)⟩
  case inside =>
    intro other asleep
    by_cases self : other = task
    · simp [self]
    · rcases (asleep_iff other).mp asleep with same | asleep
      · exact absurd same self
      · simp [self, chained.inside other asleep]
  case ordered =>
    refine ⟨Function.update turn task next, next + 1, ?_, ?_⟩
    · intro user other saves
      have different : other ≠ task := by
        rintro rfl
        rcases (saves_iff user other).mp saves with ⟨_, head⟩ | saves
        · exact (chained.head other head).1 runnable
        · exact unsaved user saves
      rw [Function.update_of_ne different]
      rcases (saves_iff user other).mp saves with ⟨rfl, head⟩ | was
      · rw [Function.update_self]
        exact before other
          (chained.inside other (chained.head other head).1)
      · have distinct : user ≠ task := by
          rintro rfl
          exact outside was.inside
        rw [Function.update_of_ne distinct]
        exact later user other was
    · intro other inside
      by_cases self : other = task
      · rw [self, Function.update_self]
        exact Nat.lt_succ_self next
      · rw [Function.update_of_ne self]
        refine Nat.lt_succ_of_lt (before other ?_)
        simpa [self] using inside

/-- A task that resumes leaves its chain; the next one of it can run. -/
theorem State.Chained.woke
    {state : State ι} {task other : ι}
    (chained : state.Chained)
    (runnable : state.Runnable task)
    (saves : state.Saves task other) :
    ((state.setTaskState other .running).setTmp task none).Chained := by
  have saves_iff :
      ∀ user third,
        ((state.setTaskState other .running).setTmp task none).Saves
            user third ↔
          user ≠ task ∧ state.Saves user third := by
    intro user third
    by_cases self : user = task
    · simp [self]
    · simp [self]
  have asleep_iff :
      ∀ third,
        ¬ ((state.setTaskState other .running).setTmp task none).Runnable
            third ↔
          third ≠ other ∧ ¬ state.Runnable third := by
    intro third
    by_cases same : third = other
    · simp [same]
    · simp [same]
  obtain ⟨turn, next, later, before⟩ := chained.ordered
  constructor
  case head =>
    intro third head
    have first := chained.head third head
    refine ⟨(asleep_iff third).mpr ⟨?_, first.1⟩, ?_⟩
    · rintro rfl
      exact first.2 task saves
    · intro user saves'
      exact first.2 user ((saves_iff user third).mp saves').2
  case saved =>
    intro user third saves'
    have was := (saves_iff user third).mp saves'
    refine (asleep_iff third).mpr
      ⟨?_, chained.saved user third was.2⟩
    rintro rfl
    exact was.1 (chained.unique task user third saves was.2)
  case unique =>
    intro user user' third first second
    exact chained.unique user user' third
      ((saves_iff user third).mp first).2
      ((saves_iff user' third).mp second).2
  case covered =>
    intro third asleep
    have was := (asleep_iff third).mp asleep
    rcases chained.covered third was.2 with head | ⟨user, saves'⟩
    · exact Or.inl head
    · refine Or.inr ⟨user, (saves_iff user third).mpr ⟨?_, saves'⟩⟩
      rintro rfl
      unfold State.Saves at saves saves'
      rw [saves] at saves'
      cases saves'
      exact was.1 rfl
  case inside =>
    intro third asleep
    have was := (asleep_iff third).mp asleep
    have different : third ≠ task := by
      rintro rfl
      exact was.2 runnable
    simp [different, chained.inside third was.2]
  case ordered =>
    refine ⟨turn, next, ?_, ?_⟩
    · intro user third saves'
      exact later user third ((saves_iff user third).mp saves').2
    · intro third inside
      by_cases self : third = task
      · exact before third (self ▸ saves.inside)
      · exact before third (by simpa [self] using inside)

theorem State.Chained.returned
    {state : State ι} {task : ι}
    (chained : state.Chained)
    (runnable : state.Runnable task)
    (last : ∀ other, ¬ state.Saves task other) :
    (state.setTmp task none).Chained := by
  have saves_iff :
      ∀ user other,
        (state.setTmp task none).Saves user other ↔
          state.Saves user other := by
    intro user other
    by_cases self : user = task
    · subst self
      simp [last other]
    · simp [self]
  obtain ⟨turn, next, later, before⟩ := chained.ordered
  constructor
  case head =>
    intro other head
    have first := chained.head other head
    exact ⟨first.1, fun user saves =>
      first.2 user ((saves_iff user other).mp saves)⟩
  case saved =>
    intro user other saves
    exact chained.saved user other ((saves_iff user other).mp saves)
  case unique =>
    intro user user' other first second
    exact chained.unique user user' other
      ((saves_iff user other).mp first) ((saves_iff user' other).mp second)
  case covered =>
    intro other asleep
    rcases chained.covered other asleep with head | ⟨user, saves⟩
    · exact Or.inl head
    · exact Or.inr ⟨user, (saves_iff user other).mpr saves⟩
  case inside =>
    intro other asleep
    have different : other ≠ task := by
      rintro rfl
      exact asleep runnable
    simp [different, chained.inside other asleep]
  case ordered =>
    refine ⟨turn, next, ?_, ?_⟩
    · intro user other saves
      exact later user other ((saves_iff user other).mp saves)
    · intro other inside
      have different : other ≠ task := by
        rintro rfl
        simp at inside
      exact before other (by simpa [different] using inside)

/-- `wake_up` cuts the first chain off; its first task can run. -/
theorem State.Chained.wokeHead
    {state : State ι} {task : ι}
    (chained : state.Chained)
    (head : state.waiting = some task) :
    ((state.setTaskState task .running).setWaiting none).Chained := by
  have asleep_iff :
      ∀ other,
        ¬ ((state.setTaskState task .running).setWaiting none).Runnable
            other ↔
          other ≠ task ∧ ¬ state.Runnable other := by
    intro other
    by_cases same : other = task
    · simp [same]
    · simp [same]
  have unsaved := (chained.head task head).2
  constructor
  case head =>
    intro other head'
    cases head'
  case saved =>
    intro user other saves
    refine (asleep_iff other).mpr ⟨?_, chained.saved user other saves⟩
    rintro rfl
    exact unsaved user saves
  case unique =>
    exact chained.unique
  case covered =>
    intro other asleep
    have was := (asleep_iff other).mp asleep
    rcases chained.covered other was.2 with first | covered
    · rw [head] at first
      cases first
      exact absurd rfl was.1
    · exact Or.inr covered
  case inside =>
    intro other asleep
    exact chained.inside other ((asleep_iff other).mp asleep).2
  case ordered =>
    exact chained.ordered

/-- What one action preserves. -/
theorem State.Chained.moves
    {state after : State ι} {action : Action ι}
    (chained : state.Chained)
    (moves : Moves state action after) :
    after.Chained := by
  cases moves with
  | slept runnable outside =>
    exact chained.slept runnable outside
  | returned runnable last =>
    exact chained.returned runnable last
  | woke runnable saves =>
    exact chained.woke runnable saves
  | wokeHead head =>
    exact chained.wokeHead head
  | wokeNobody =>
    exact chained

theorem chained_of_reachable
    {initTask : ι} {state : State ι}
    (reached : (queue initTask).Reachable state) :
    state.Chained := by
  induction reached with
  | start initial =>
    exact
      { head := fun _ head => by
          rw [initial.1] at head
          cases head
        saved := fun user _ saves =>
          absurd saves.inside (initial.2 user).2
        unique := fun user _ _ saves =>
          absurd saves.inside (initial.2 user).2
        covered := fun task asleep =>
          absurd (initial.2 task).1 asleep
        inside := fun task asleep =>
          absurd (initial.2 task).1 asleep
        ordered :=
          ⟨fun _ => 0, 0,
            fun user _ saves => absurd saves.inside (initial.2 user).2,
            fun task inside => absurd inside (initial.2 task).2⟩ }
  | step _ stepped inductionHypothesis =>
    exact inductionHypothesis.moves (moves_of_step stepped)

/-! ## What a wake-up leads to -/

/-- A step by which a sleeping task can run is one of the chain's two links. -/
theorem Moves.wakes
    {state after : State ι} {action : Action ι} {task : ι}
    (moves : Moves state action after)
    (asleep : ¬ state.Runnable task)
    (runnable : after.Runnable task) :
    (action = .wake ∧ state.waiting = some task) ∨
      ∃ user, action = .resume user ∧ state.Saves user task := by
  cases moves with
  | slept awake outside =>
    rename_i current
    have different : task ≠ current := by
      rintro rfl
      exact asleep awake
    simp [different] at runnable
    exact absurd runnable asleep
  | returned awake last =>
    exact absurd runnable asleep
  | woke awake saves =>
    rename_i user other
    by_cases same : task = other
    · exact Or.inr ⟨user, rfl, same ▸ saves⟩
    · simp [same] at runnable
      exact absurd runnable asleep
  | wokeHead head =>
    rename_i first
    by_cases same : task = first
    · exact Or.inl ⟨rfl, same ▸ head⟩
    · simp [same] at runnable
      exact absurd runnable asleep
  | wokeNobody =>
    exact absurd runnable asleep

/-- The task is in a chain whose first task can run. -/
inductive Freed (state : State ι) : ι → Prop where
  | next
      {user task : ι}
      (saves : state.Saves user task)
      (runnable : state.Runnable user) :
      Freed state task
  | behind
      {user task : ι}
      (saves : state.Saves user task)
      (asleep : ¬ state.Runnable user)
      (freed : Freed state user) :
      Freed state task

/-- A saved task is woken, or its saver goes on to save it. -/
theorem Moves.keeps
    {state after : State ι} {action : Action ι} {user task : ι}
    (moves : Moves state action after)
    (saves : state.Saves user task) :
    after.Runnable task ∨ after.Saves user task := by
  cases moves with
  | slept awake outside =>
    rename_i current
    have different : user ≠ current := by
      rintro rfl
      exact outside saves.inside
    exact Or.inr (by simpa [different] using saves)
  | returned awake last =>
    rename_i current
    have different : user ≠ current := by
      rintro rfl
      exact last task saves
    exact Or.inr (by simpa [different] using saves)
  | woke awake savesOther =>
    rename_i current other
    by_cases same : user = current
    · subst same
      unfold State.Saves at saves savesOther
      rw [saves] at savesOther
      cases savesOther
      exact Or.inl (by simp)
    · exact Or.inr (by simpa [same] using saves)
  | wokeHead =>
    exact Or.inr saves
  | wokeNobody =>
    exact Or.inr saves

/-- A task inside `sleep_on` that can run does so until it resumes. -/
theorem Moves.runnable
    {state after : State ι} {action : Action ι} {user : ι}
    (moves : Moves state action after)
    (inside : state.Inside user)
    (runnable : state.Runnable user) :
    after.Runnable user := by
  cases moves with
  | slept awake outside =>
    rename_i current
    have different : user ≠ current := by
      rintro rfl
      exact outside inside
    simpa [different] using runnable
  | returned awake last =>
    exact runnable
  | woke awake saves =>
    rename_i current other
    by_cases same : user = other
    · simp [same]
    · simpa [same] using runnable
  | wokeHead head =>
    rename_i first
    by_cases same : user = first
    · simp [same]
    · simpa [same] using runnable
  | wokeNobody =>
    exact runnable

/-- What one action does to a freed task. -/
theorem Freed.moves
    {state after : State ι} {action : Action ι} {task : ι}
    (freed : Freed state task)
    (moves : Moves state action after) :
    after.Runnable task ∨ Freed after task := by
  induction freed with
  | next saves runnable =>
    rcases moves.keeps saves with woken | saves'
    · exact Or.inl woken
    · exact Or.inr
        (.next saves' (moves.runnable saves.inside runnable))
  | behind saves asleep _ inductionHypothesis =>
    rename_i user other _
    rcases moves.keeps saves with woken | saves'
    · exact Or.inl woken
    · by_cases runnable : after.Runnable user
      · exact Or.inr (.next saves' runnable)
      · rcases inductionHypothesis with woken | freed
        · exact absurd woken runnable
        · exact Or.inr (.behind saves' runnable freed)

omit [DecidableEq ι] in
/-- When nobody waits at `*p`, every sleeping task is freed. -/
theorem State.Chained.freed
    {state : State ι} {task : ι}
    (chained : state.Chained)
    (nobody : state.waiting = none)
    (asleep : ¬ state.Runnable task) :
    Freed state task := by
  obtain ⟨turn, next, later, before⟩ := chained.ordered
  -- Along a chain the turns grow, and they stay below `next`.
  have climb :
      ∀ distance task, next ≤ turn task + distance →
        ¬ state.Runnable task → Freed state task := by
    intro distance
    induction distance with
    | zero =>
      intro task far asleep
      have close := before task (chained.inside task asleep)
      omega
    | succ distance inductionHypothesis =>
      intro task far asleep
      rcases chained.covered task asleep with head | ⟨user, saves⟩
      · rw [nobody] at head
        cases head
      · by_cases runnable : state.Runnable user
        · exact .next saves runnable
        · have above := later user task saves
          exact .behind saves runnable
            (inductionHypothesis user (by omega) runnable)
  exact climb next task (Nat.le_add_left next (turn task)) asleep

theorem Moves.waiting
    {state after : State ι}
    (moves : Moves state .wake after) :
    after.waiting = none := by
  cases moves with
  | wokeHead =>
    rfl
  | wokeNobody head =>
    exact head

/-- No task has been woken that has not resumed. -/
def State.Settled (state : State ι) : Prop :=
  ∀ task, state.Inside task → ¬ state.Runnable task

omit [DecidableEq ι] in
theorem Freed.not_settled
    {state : State ι} {task : ι}
    (freed : Freed state task) :
    ¬ state.Settled := by
  intro settled
  induction freed with
  | next saves runnable =>
    exact settled _ saves.inside runnable
  | behind _ _ _ inductionHypothesis =>
    exact inductionHypothesis

/-- A run of the queue. -/
def Runs
    (initTask : ι)
    (actions : List (Action ι))
    (state after : State ι) : Prop :=
  Traces (fun action before next => (queue initTask).Step before action next)
    actions state after

/-- At some moment of the run the task can run. -/
def Woken
    (initTask : ι)
    (actions : List (Action ι))
    (state after : State ι)
    (task : ι) : Prop :=
  ∃ earlier later middle,
    actions = earlier ++ later ∧
      Runs initTask earlier state middle ∧
      Runs initTask later middle after ∧
      middle.Runnable task

/-- The resumptions that follow a wake-up reach every freed task. -/
theorem Freed.woken
    {initTask : ι}
    {actions : List (Action ι)} {state after : State ι} {task : ι}
    (run : Runs initTask actions state after)
    (freed : Freed state task)
    (settled : after.Settled) :
    Woken initTask actions state after task := by
  induction run with
  | done state =>
    exact absurd settled freed.not_settled
  | next stepped rest inductionHypothesis =>
    rename_i label labels first middle last
    rcases freed.moves (moves_of_step stepped) with woken | freed
    · exact ⟨[label], labels, middle, rfl, .next stepped (.done middle), rest, woken⟩
    · obtain ⟨earlier, later, between, split, before, afterwards,
        woken⟩ := inductionHypothesis freed settled
      exact ⟨label :: earlier, later, between,
        by rw [split, List.cons_append], .next stepped before,
        afterwards, woken⟩

/-! ## The resumptions come to an end -/

theorem inside_setTmp_none
    {state : State ι} {task other : ι} :
    (state.setTmp task none).Inside other ↔
      other ≠ task ∧ state.Inside other := by
  by_cases same : other = task
  · simp [same]
  · simp [same]

/-- The tasks inside `sleep_on` after an action. -/
theorem Moves.inside
    {state after : State ι} {action : Action ι}
    (moves : Moves state action after) :
    match action with
    | .sleep task =>
      ∀ other, after.Inside other → other = task ∨ state.Inside other
    | .resume task =>
      ∀ other, after.Inside other → other ≠ task ∧ state.Inside other
    | .wake =>
      ∀ other, after.Inside other → state.Inside other := by
  cases moves with
  | slept _ _ =>
    intro other inside
    rcases eq_or_ne other _ with same | different
    · exact Or.inl same
    · exact Or.inr (by simpa [different] using inside)
  | returned _ _ =>
    exact fun _ inside => inside_setTmp_none.mp inside
  | woke _ _ =>
    exact fun _ inside => inside_setTmp_none.mp inside
  | wokeHead _ =>
    exact fun _ inside => inside
  | wokeNobody _ =>
    exact fun _ inside => inside

theorem finite_inside
    {initTask : ι} {state : State ι}
    (reached : (queue initTask).Reachable state) :
    {task | state.Inside task}.Finite := by
  induction reached with
  | @start state initial =>
    have nobody : {task | state.Inside task} = (∅ : Set ι) :=
      Set.eq_empty_of_forall_notMem fun task => (initial.2 task).2
    rw [nobody]
    exact Set.finite_empty
  | @step before after action _ stepped inductionHypothesis =>
    have inside := (moves_of_step stepped).inside
    cases action with
    | sleep task =>
      exact (inductionHypothesis.insert task).subset inside
    | resume task =>
      exact inductionHypothesis.subset
        fun other member => (inside other member).2
    | wake =>
      exact inductionHypothesis.subset inside

/-- A task that can run inside `sleep_on` returns from it. -/
theorem resumes
    {initTask : ι} {state : State ι} {task : ι}
    (runnable : state.Runnable task)
    (inside : state.Inside task) :
    ∃ after, (queue initTask).Step state (.resume task) after := by
  have returns :
      (sleepOnResumed task).Satisfies state
        (fun _ _ => True) (fun _ => False) := by
    unfold sleepOnResumed
    rw [satisfies_bind, satisfies_read]
    cases saved : state.tmp task with
    | none =>
      exact absurd saved inside
    | some value =>
      cases value with
      | none =>
        trivial
      | some other =>
        trivial
  obtain ⟨_, after, outcome, _⟩ := returns.returns
  exact ⟨after, .returned ⟨runnable, inside⟩ outcome⟩

/-- From every reachable state resumptions alone lead to a settled one. -/
theorem settles
    {initTask : ι} {state : State ι}
    (reached : (queue initTask).Reachable state) :
    ∃ tasks settled,
      Runs initTask (List.map .resume tasks) state settled ∧
        settled.Settled := by
  induction size : {task | state.Inside task}.ncard
    using Nat.strong_induction_on generalizing state with
  | _ count inductionHypothesis =>
    by_cases settled : state.Settled
    · exact ⟨[], state, .done state, settled⟩
    · unfold State.Settled at settled
      push Not at settled
      obtain ⟨task, inside, runnable⟩ := settled
      obtain ⟨after, stepped⟩ :
          ∃ after, (queue initTask).Step state (.resume task) after :=
        resumes runnable inside
      have fewer : {other | after.Inside other} ⊂
          {other | state.Inside other} := by
        have left := (moves_of_step stepped).inside
        refine ⟨fun other member => (left other member).2, ?_⟩
        intro all
        exact (left task (all inside)).1 rfl
      have smaller :=
        Set.ncard_lt_ncard fewer (finite_inside reached)
      obtain ⟨tasks, last, run, atRest⟩ :=
        inductionHypothesis _ (size ▸ smaller) (.step reached stepped) rfl
      exact ⟨task :: tasks, last, .next stepped run, atRest⟩

/--
Every sleeping task is referenced exactly once; a task is woken through its
reference only; and the resumptions that follow a `wake_up`, which come to an
end, wake every task that was asleep.
-/
theorem no_lost_sleeper
    {initTask : ι} {state : State ι}
    (reached : (queue initTask).Reachable state) :
    (∀ task, state.Inside task → ¬ state.Runnable task → state.ReferencedOnce task) ∧
    (∀ action after task,
      (queue initTask).Step state action after →
      ¬ state.Runnable task → after.Runnable task →
        (action = .wake ∧ state.waiting = some task) ∨
          ∃ user, action = .resume user ∧ state.Saves user task) ∧
    ∀ woken, (queue initTask).Step state .wake woken →
      (∃ tasks settled,
        Runs initTask (List.map .resume tasks) woken settled ∧ settled.Settled) ∧
      ∀ actions settled task,
        Runs initTask actions woken settled → settled.Settled →
        ¬ state.Runnable task →
          Woken initTask actions woken settled task := by
  have chained := chained_of_reachable reached
  refine ⟨?_, ?_, ?_⟩
  · intro task _ asleep
    exact chained.referencedOnce asleep
  · intro action after task stepped asleep runnable
    exact (moves_of_step stepped).wakes asleep runnable
  · intro woken stepped
    have moves := moves_of_step stepped
    have chained' := chained.moves moves
    refine ⟨settles (.step reached stepped), ?_⟩
    intro actions settled task run atRest _
    by_cases runnable : woken.Runnable task
    · exact ⟨[], actions, woken, rfl, .done woken, run, runnable⟩
    · exact (chained'.freed moves.waiting runnable).woken run atRest

/-- Nobody has called `sleep_on` yet. -/
def awake : State Nat where
  waiting := none
  taskState _ := .running
  tmp _ := none

/-- Task 1 has gone to sleep. -/
def oneAsleep : State Nat :=
  ((awake.setTmp 1 (some none)).setWaiting (some 1)).setTaskState 1
    .uninterruptible

/-- Tasks 1 and 2 have gone to sleep, in this order. -/
def twoAsleep : State Nat :=
  ((oneAsleep.setTmp 2 (some (some 1))).setWaiting (some 2)).setTaskState 2
    .uninterruptible

theorem twoAsleep_reachable : (queue 0).Reachable twoAsleep := by
  have start : (queue 0).Reachable awake :=
    .start ⟨rfl, fun _ => ⟨rfl, fun inside => inside rfl⟩⟩
  have first : (queue 0).Step awake (.sleep 1) oneAsleep :=
    .returned ⟨rfl, fun inside => inside rfl⟩ rfl
  have second : (queue 0).Step oneAsleep (.sleep 2) twoAsleep :=
    .returned ⟨rfl, fun inside => inside rfl⟩ rfl
  exact .step (.step start first) second

/-- Two sleepers in one chain; the wake-up reaches both of them. -/
theorem no_lost_sleeper_two :
    (queue 0).Reachable twoAsleep ∧
    twoAsleep.ReferencedOnce 1 ∧ twoAsleep.ReferencedOnce 2 ∧
    ∃ woken tasks settled,
      (queue 0).Step twoAsleep .wake woken ∧
      Runs 0 (List.map .resume tasks) woken settled ∧
      Woken 0 (List.map .resume tasks) woken settled 1 ∧
      Woken 0 (List.map .resume tasks) woken settled 2 := by
  have asleep : ∀ task, task = 1 ∨ task = 2 →
      twoAsleep.Inside task ∧ ¬ twoAsleep.Runnable task := by
    rintro task (rfl | rfl)
    · exact ⟨by simp [twoAsleep, oneAsleep], by simp [twoAsleep, oneAsleep]⟩
    · exact ⟨by simp [twoAsleep, oneAsleep], by simp [twoAsleep, oneAsleep]⟩
  have one := asleep 1 (Or.inl rfl)
  have two := asleep 2 (Or.inr rfl)
  obtain ⟨referenced, _, wakes⟩ := no_lost_sleeper twoAsleep_reachable
  have stepped : (queue 0).Step twoAsleep .wake _ :=
    .returned trivial rfl
  obtain ⟨⟨tasks, settled, run, atRest⟩, all⟩ := wakes _ stepped
  exact ⟨twoAsleep_reachable, referenced 1 one.1 one.2,
    referenced 2 two.1 two.2, _, tasks, settled, stepped, run,
    all _ settled 1 run atRest one.2, all _ settled 2 run atRest two.2⟩

end WaitQueue

end HitOs
