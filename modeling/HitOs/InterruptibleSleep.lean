import HitOs.WaitQueue
import Mathlib.Logic.Relation
import Mathlib.Order.WellFoundedSet

namespace HitOs

/-!
# Sleeping until a signal comes

`interruptible_sleep_on` and `wake_up` on one queue.  A signal can wake a task
in the middle of the chain.  When such a task resumes and `*p` is another one,
it wakes that one and goes back to sleep, with the `tmp` of its first sleep.
-/

namespace InterruptibleSleep

open Routine WaitQueue

variable {ι : Type} [DecidableEq ι]

/-- `interruptible_sleep_on` up to the first call of `schedule` -/
def interruptibleSleepOn (initTask current : ι) : Routine (State ι) Unit := do
  if current = initTask then
    Routine.panic "task[0] trying to sleep"
  else
    let state ← read
    update (State.setTmp current (some state.waiting))
    update (State.setWaiting (some current))
    update (State.setTaskState current .interruptible)

/-- The end of `interruptible_sleep_on`: `*p=NULL`, and `tmp` can run. -/
def leave (current : ι) : Routine (State ι) Unit := do
  update (State.setWaiting none)
  let state ← read
  match state.tmp current with
  | some (some tmp) => update (State.setTaskState tmp .running)
  | _ => pure ()
  update (State.setTmp current none)

/-- `interruptible_sleep_on` from the return of a call of `schedule` -/
def interruptibleSleepOnResumed (current : ι) : Routine (State ι) Unit := do
  let state ← read
  match state.waiting with
  | some head =>
    if head ≠ current then do
      update (State.setTaskState head .running)
      -- `goto repeat`
      update (State.setTaskState current .interruptible)
    else
      leave current
  | none => leave current

/-- What `schedule` does to a sleeping task that has got a signal. -/
def signalled (task : ι) : Routine (State ι) Unit := do
  let state ← read
  if state.taskState task = .interruptible then
    update (State.setTaskState task .running)
  else
    pure ()

/-- What happens to the queue. -/
inductive Action (ι : Type) where
  | sleep (task : ι)
  | resume (task : ι)
  | wake
  | signal (task : ι)

/-- The queue under any interleaving of the tasks and any signals. -/
def queue (initTask : ι) : Machine (State ι) (Action ι) where
  initial state :=
    state.waiting = none ∧ ∀ task, ¬ state.Inside task
  enabled action state :=
    match action with
    | .sleep task => state.Runnable task ∧ ¬ state.Inside task
    | .resume task => state.Runnable task ∧ state.Inside task
    | .wake => True
    | .signal _ => True
  perform action :=
    match action with
    | .sleep task => interruptibleSleepOn initTask task
    | .resume task => interruptibleSleepOnResumed task
    | .wake => wakeUp
    | .signal task => signalled task

/-! ## What one action does -/

/-- The state when the task has returned. -/
def leaving (task : ι) (state : State ι) : State ι :=
  match state.tmp task with
  | some (some tmp) =>
    ((state.setWaiting none).setTaskState tmp .running).setTmp task none
  | _ => (state.setWaiting none).setTmp task none

section Leaving

variable {state : State ι} {task user other : ι}

@[simp] theorem leaving_waiting :
    (leaving task state).waiting = none := by
  unfold leaving
  split <;> rfl

@[simp] theorem leaving_inside :
    (leaving task state).Inside other ↔
      other ≠ task ∧ state.Inside other := by
  unfold leaving
  split
  · rw [inside_setTmp_none]
    simp
  · rw [inside_setTmp_none]
    simp

@[simp] theorem leaving_saves :
    (leaving task state).Saves user other ↔
      user ≠ task ∧ state.Saves user other := by
  unfold leaving
  by_cases same : user = task
  · subst same
    split <;> simp
  · split <;> simp [same]

@[simp] theorem leaving_runnable :
    (leaving task state).Runnable other ↔
      state.Saves task other ∨ state.Runnable other := by
  unfold leaving State.Saves
  split
  · rename_i tmp saved
    by_cases same : other = tmp
    · simp [same, saved]
    · simp [same, saved, Ne.symm same]
  · rename_i nothing
    constructor
    · intro runnable
      exact Or.inr runnable
    · rintro (saved | runnable)
      · exact absurd saved (nothing other)
      · exact runnable

end Leaving

/-- The ways in which an action changes the queue. -/
inductive Moves : State ι → Action ι → State ι → Prop where
  | slept
      {state : State ι} {task : ι}
      (runnable : state.Runnable task)
      (outside : ¬ state.Inside task) :
      Moves state (.sleep task)
        (((state.setTmp task (some state.waiting)).setWaiting
          (some task)).setTaskState task .interruptible)
  | repeated
      {state : State ι} {task head : ι}
      (runnable : state.Runnable task)
      (inside : state.Inside task)
      (first : state.waiting = some head)
      (different : head ≠ task) :
      Moves state (.resume task)
        ((state.setTaskState head .running).setTaskState task
          .interruptible)
  | returned
      {state : State ι} {task : ι}
      (runnable : state.Runnable task)
      (front : ∀ head, state.waiting = some head → head = task) :
      Moves state (.resume task) (leaving task state)
  | wokeHead
      {state : State ι} {task : ι}
      (head : state.waiting = some task) :
      Moves state .wake
        ((state.setTaskState task .running).setWaiting none)
  | wokeNobody
      {state : State ι}
      (head : state.waiting = none) :
      Moves state .wake state
  | signalled
      {state : State ι} {task : ι} :
      Moves state (.signal task) (state.setTaskState task .running)
  | ignored
      {state : State ι} {task : ι} :
      Moves state (.signal task) state

theorem satisfies_leave
    (task : ι)
    (state : State ι) :
    (leave task).Satisfies state
      (fun _ after => after = leaving task state) (fun _ => False) := by
  unfold leave leaving
  rw [satisfies_bind, satisfies_update, satisfies_bind, satisfies_read]
  change Satisfies (match state.tmp task with
    | some (some tmp) => _
    | _ => _) _ _ _
  cases saved : state.tmp task with
  | none =>
    rfl
  | some value =>
    cases value with
    | none =>
      rfl
    | some tmp =>
      rfl

theorem moves_interruptibleSleepOn
    {initTask task : ι} {state after : State ι}
    (runnable : state.Runnable task)
    (outside : ¬ state.Inside task)
    (ends : (interruptibleSleepOn initTask task state).EndsIn after) :
    Moves state (.sleep task) after := by
  unfold interruptibleSleepOn at ends
  by_cases first : task = initTask
  · rw [if_pos first] at ends
    rcases ends with ⟨_, outcome⟩ | outcome
    · cases outcome
    · cases outcome
  · rw [if_neg first] at ends
    rcases ends with ⟨_, outcome⟩ | outcome
    · cases outcome
      exact .slept runnable outside
    · cases outcome

theorem satisfies_resumed
    {task : ι} {state : State ι}
    (runnable : state.Runnable task)
    (inside : state.Inside task) :
    (interruptibleSleepOnResumed task).Satisfies state
      (fun _ after => Moves state (.resume task) after)
      (fun _ => False) := by
  unfold interruptibleSleepOnResumed
  rw [satisfies_bind, satisfies_read]
  cases first : state.waiting with
  | none =>
    refine (satisfies_leave task state).mono ?_ (fun _ never => never)
    rintro _ after rfl
    refine .returned runnable ?_
    intro head same
    rw [first] at same
    cases same
  | some head =>
    by_cases different : head ≠ task
    · simp only [if_pos different]
      exact .repeated runnable inside first different
    · simp only [if_neg different]
      refine (satisfies_leave task state).mono ?_ (fun _ never => never)
      rintro _ after rfl
      refine .returned runnable ?_
      intro other same
      rw [first] at same
      cases same
      exact Decidable.not_not.mp different

theorem moves_wakeUp
    {state after : State ι}
    (ends : (wakeUp state).EndsIn after) :
    Moves state .wake after := by
  cases WaitQueue.moves_wakeUp ends with
  | wokeHead head =>
    exact .wokeHead head
  | wokeNobody head =>
    exact .wokeNobody head

theorem moves_signalled
    {task : ι} {state after : State ι}
    (ends : (signalled task state).EndsIn after) :
    Moves state (.signal task) after := by
  have returns :
      (signalled task).Satisfies state
        (fun _ last => Moves state (.signal task) last)
        (Moves state (.signal task)) := by
    unfold signalled
    rw [satisfies_bind, satisfies_read]
    by_cases asleep : state.taskState task = .interruptible
    · rw [if_pos asleep]
      exact .signalled
    · rw [if_neg asleep]
      exact .ignored
  exact returns.of_end ends

theorem moves_of_step
    {initTask : ι} {state after : State ι} {action : Action ι}
    (stepped : (queue initTask).Step state action after) :
    Moves state action after := by
  have ends :
      (queue initTask).enabled action state ∧
        ((queue initTask).perform action state).EndsIn after := by
    cases stepped with
    | returned enabled outcome =>
      exact ⟨enabled, Or.inl ⟨(), outcome⟩⟩
    | abandoned enabled outcome =>
      exact ⟨enabled, Or.inr outcome⟩
  cases action with
  | sleep task =>
    exact moves_interruptibleSleepOn ends.1.1 ends.1.2 ends.2
  | resume task =>
    rcases (satisfies_resumed ends.1.1 ends.1.2).of_ends ends.2 with
      ⟨_, moves⟩ | never
    · exact moves
    · exact never.elim
  | wake =>
    exact moves_wakeUp ends.2
  | signal task =>
    exact moves_signalled ends.2

/-! ## The tasks that can still be reached -/

omit [DecidableEq ι] in
/--
A new pair, from which no path leads back to its beginning, closes no cycle.
-/
theorem acyclic_insert
    {relation wider : ι → ι → Prop} {source target : ι}
    (acyclic : ∀ task, ¬ Relation.TransGen relation task task)
    (apart : ¬ Relation.ReflTransGen relation target source)
    (pairs :
      ∀ user task, wider user task →
        relation user task ∨ (user = source ∧ task = target)) :
    ∀ task, ¬ Relation.TransGen wider task task := by
  have split :
      ∀ first last, Relation.TransGen wider first last →
        Relation.TransGen relation first last ∨
          (Relation.ReflTransGen relation first source ∧
            Relation.ReflTransGen relation target last) := by
    intro first last path
    induction path with
    | single pair =>
      rcases pairs _ _ pair with old | ⟨rfl, rfl⟩
      · exact Or.inl (.single old)
      · exact Or.inr ⟨.refl, .refl⟩
    | tail _ pair inductionHypothesis =>
      rcases pairs _ _ pair with old | ⟨rfl, rfl⟩
      · rcases inductionHypothesis with before | ⟨before, after⟩
        · exact Or.inl (before.tail old)
        · exact Or.inr ⟨before, after.tail old⟩
      · rcases inductionHypothesis with before | ⟨before, _⟩
        · exact Or.inr ⟨before.to_reflTransGen, .refl⟩
        · exact Or.inr ⟨before, .refl⟩
  intro task cycle
  rcases split task task cycle with old | ⟨before, after⟩
  · exact acyclic task old
  · exact apart (after.trans before)

/--
The task can be reached from `*p`, or from a task that can run inside
`interruptible_sleep_on`, along `*p` and the saved `tmp` pointers.
-/
inductive Linked (state : State ι) : ι → Prop where
  | head
      {task : ι}
      (first : state.waiting = some task) :
      Linked state task
  | runnable
      {task : ι}
      (inside : state.Inside task)
      (runnable : state.Runnable task) :
      Linked state task
  | saved
      {user task : ι}
      (linked : Linked state user)
      (saves : state.Saves user task) :
      Linked state task

/-- The claim about a state: every task that is asleep can be reached. -/
def NoneLost (state : State ι) : Prop :=
  ∀ task, state.Inside task → ¬ state.Runnable task → Linked state task

/--
A task that goes back to sleep because `*p` is another one: some task inside still
has it in its `tmp`.
-/
def StillSaved (state : State ι) : Action ι → Prop
  | .resume task =>
    ∀ head, state.waiting = some head → head ≠ task → ∃ user, state.Saves user task
  | _ => True

/-- The pointers form trees, and those at `*p` lead to tasks inside only. -/
structure Threaded (state : State ι) : Prop where
  chained :
    ∀ head task, state.waiting = some head →
      Relation.ReflTransGen state.Saves head task → state.Inside task
  acyclic :
    ∀ task, ¬ Relation.TransGen state.Saves task task
  finite :
    {task | state.Inside task}.Finite

/-- A sleeping task is the first one, or some task inside has saved it. -/
def Covered (state : State ι) : Prop :=
  ∀ task, state.Inside task → ¬ state.Runnable task →
    state.waiting = some task ∨ ∃ user, state.Saves user task

/-- The invariant of runs that lose nobody. -/
structure Kept (state : State ι) : Prop where
  threaded : Threaded state
  covered : Covered state

omit [DecidableEq ι] in
/-- Induction along the chain of sleepers, from its beginning. -/
theorem Threaded.induction
    {state : State ι} {motive : ι → Prop}
    (threaded : Threaded state)
    (covered : Covered state)
    (first :
      ∀ task, state.waiting = some task → ¬ state.Runnable task → motive task)
    (next :
      ∀ user task, state.Saves user task →
        (¬ state.Runnable user → motive user) → motive task)
    (task : ι)
    (inside : state.Inside task)
    (asleep : ¬ state.Runnable task) :
    motive task := by
  have : IsStrictOrder ι (Relation.TransGen state.Saves) :=
    { irrefl := threaded.acyclic
      trans := fun _ _ _ before after => before.trans after }
  have wellFounded :
      {task | state.Inside task}.WellFoundedOn
        (Relation.TransGen state.Saves) :=
    threaded.finite.wellFoundedOn
  refine wellFounded.induction
    (P := fun task => ¬ state.Runnable task → motive task) inside ?_ asleep
  intro task inside inductionHypothesis asleep
  rcases covered task inside asleep with head | ⟨user, saves⟩
  · exact first task head asleep
  · exact next user task saves
      (inductionHypothesis user saves.inside (.single saves))

omit [DecidableEq ι] in
theorem Kept.noneLost
    {state : State ι}
    (kept : Kept state) :
    NoneLost state := by
  intro task inside asleep
  refine kept.threaded.induction kept.covered ?_ ?_ task inside asleep
  · intro task head _
    exact .head head
  · intro user task saves behind
    by_cases runnable : state.Runnable user
    · exact .saved (.runnable saves.inside runnable) saves
    · exact .saved (behind runnable) saves

/-! ## What one action preserves -/

theorem Threaded.slept
    {state : State ι} {task : ι}
    (threaded : Threaded state)
    (outside : ¬ state.Inside task) :
    Threaded
      (((state.setTmp task (some state.waiting)).setWaiting
        (some task)).setTaskState task .interruptible) := by
  have pairs :
      ∀ user other,
        (((state.setTmp task (some state.waiting)).setWaiting
            (some task)).setTaskState task .interruptible).Saves
              user other →
          state.Saves user other ∨
            (user = task ∧ state.waiting = some other) := by
    intro user other saves
    by_cases self : user = task
    · subst self
      exact Or.inr ⟨rfl, by simpa using saves⟩
    · exact Or.inl (by simpa [self] using saves)
  have inside :
      ∀ other,
        (((state.setTmp task (some state.waiting)).setWaiting
            (some task)).setTaskState task .interruptible).Inside other ↔
          other = task ∨ state.Inside other := by
    intro other
    by_cases self : other = task
    · simp [self]
    · simp [self]
  -- The new path goes from the task to the first sleeper before it.
  have reached :
      ∀ other,
        Relation.ReflTransGen
          (((state.setTmp task (some state.waiting)).setWaiting
            (some task)).setTaskState task .interruptible).Saves task other →
          other = task ∨ ∃ head, state.waiting = some head ∧
            Relation.ReflTransGen state.Saves head other := by
    intro other path
    induction path with
    | refl =>
      exact Or.inl rfl
    | tail _ saves inductionHypothesis =>
      rcases pairs _ _ saves with old | ⟨rfl, head⟩
      · rcases inductionHypothesis with rfl | ⟨head, first, behind⟩
        · exact absurd old.inside outside
        · exact Or.inr ⟨head, first, behind.tail old⟩
      · exact Or.inr ⟨_, head, .refl⟩
  constructor
  case chained =>
    intro head other first path
    cases first
    rcases reached other path with rfl | ⟨head, first, behind⟩
    · exact (inside other).mpr (Or.inl rfl)
    · exact (inside other).mpr
        (Or.inr (threaded.chained head other first behind))
  case acyclic =>
    cases first : state.waiting with
    | none =>
      rw [first] at pairs
      intro other cycle
      refine threaded.acyclic other
        (Relation.TransGen.mono ?_ other other cycle)
      intro user third saves
      rcases pairs user third saves with old | ⟨_, never⟩
      · exact old
      · cases never
    | some head =>
      rw [first] at pairs
      have apart : ¬ Relation.ReflTransGen state.Saves head task :=
        fun path => outside (threaded.chained head task first path)
      refine acyclic_insert threaded.acyclic apart ?_
      intro user third saves
      rcases pairs user third saves with old | ⟨same, behind⟩
      · exact Or.inl old
      · exact Or.inr ⟨same, (Option.some.inj behind).symm⟩
  case finite =>
    refine (threaded.finite.insert task).subset ?_
    intro other member
    exact (inside other).mp member

theorem Threaded.left
    {state : State ι}
    (threaded : Threaded state)
    (task : ι) :
    Threaded (leaving task state) where
  chained head other first _ := by
    simp at first
  acyclic other cycle := by
    refine threaded.acyclic other
      (Relation.TransGen.mono ?_ other other cycle)
    intro user third saves
    exact (leaving_saves.mp saves).2
  finite := by
    refine threaded.finite.subset ?_
    intro other member
    exact (leaving_inside.mp member).2

theorem Threaded.moves
    {state after : State ι} {action : Action ι}
    (threaded : Threaded state)
    (moves : Moves state action after) :
    Threaded after := by
  cases moves with
  | slept _ outside =>
    exact threaded.slept outside
  | repeated =>
    exact ⟨threaded.chained, threaded.acyclic, threaded.finite⟩
  | returned =>
    exact threaded.left _
  | wokeHead =>
    exact
      { chained := fun _ _ first => nomatch first
        acyclic := threaded.acyclic
        finite := threaded.finite }
  | wokeNobody =>
    exact threaded
  | signalled =>
    exact ⟨threaded.chained, threaded.acyclic, threaded.finite⟩
  | ignored =>
    exact threaded

theorem Covered.moves
    {state after : State ι} {action : Action ι}
    (covered : Covered state)
    (moves : Moves state action after)
    (stillSaved : StillSaved state action) :
    Covered after := by
  cases moves with
  | slept runnable outside =>
    rename_i task
    intro other inside asleep
    by_cases self : other = task
    · exact Or.inl (by simp [self])
    · have was : state.Inside other ∧ ¬ state.Runnable other := by
        simpa [self] using And.intro inside asleep
      right
      rcases covered other was.1 was.2 with head | ⟨user, saves⟩
      · exact ⟨task, by simp [head]⟩
      · have different : user ≠ task := by
          rintro rfl
          exact outside saves.inside
        exact ⟨user, by simpa [different] using saves⟩
  | @repeated task head _ _ first different =>
    intro other inside asleep
    by_cases self : other = task
    · subst self
      exact Or.inr (stillSaved head first different)
    · by_cases isHead : other = head
      · exact Or.inl (isHead ▸ first)
      · exact covered other inside (by simpa [self, isHead] using asleep)
  | returned _ front =>
    rename_i task
    intro other inside asleep
    simp only [leaving_inside, leaving_runnable, not_or] at inside asleep
    right
    rcases covered other inside.2 asleep.2 with head | ⟨user, saves⟩
    · exact absurd (front other head) inside.1
    · refine ⟨user, leaving_saves.mpr ⟨?_, saves⟩⟩
      rintro rfl
      exact asleep.1 saves
  | wokeHead head =>
    rename_i task
    intro other inside asleep
    have different : other ≠ task := by
      rintro rfl
      simp at asleep
    have was : ¬ state.Runnable other := by
      simpa [different] using asleep
    rcases covered other inside was with first | saved
    · rw [head] at first
      exact absurd (Option.some.inj first).symm different
    · exact Or.inr saved
  | wokeNobody =>
    exact covered
  | signalled =>
    rename_i task
    intro other inside asleep
    have different : other ≠ task := by
      rintro rfl
      simp at asleep
    exact covered other inside (by simpa [different] using asleep)
  | ignored =>
    exact covered

theorem Kept.moves
    {state after : State ι} {action : Action ι}
    (kept : Kept state)
    (moves : Moves state action after)
    (stillSaved : StillSaved state action) :
    Kept after where
  threaded := kept.threaded.moves moves
  covered := kept.covered.moves moves stillSaved

/-- Without the condition the task that goes back to sleep is lost at once. -/
theorem Moves.loses
    {state after : State ι} {action : Action ι}
    (moves : Moves state action after)
    (unsaved : ¬ StillSaved state action) :
    ¬ NoneLost after := by
  intro noneLost
  cases moves with
  | slept =>
    exact unsaved trivial
  | @repeated task head _ inside first different =>
    have nobody : ∀ user, ¬ state.Saves user task := by
      intro user saves
      exact unsaved fun _ _ _ => ⟨user, saves⟩
    cases noneLost task inside (by simp) with
    | head isFirst =>
      exact different (Option.some.inj (first.symm.trans isFirst))
    | runnable _ runnable =>
      simp at runnable
    | saved _ saves =>
      exact nobody _ saves
  | returned _ front =>
    exact unsaved fun head first different =>
      absurd (front head first) different
  | wokeHead =>
    exact unsaved trivial
  | wokeNobody =>
    exact unsaved trivial
  | signalled =>
    exact unsaved trivial
  | ignored =>
    exact unsaved trivial

/-! ## What a wake-up leads to -/

omit [DecidableEq ι] in
/-- When the task at `*p` can run, every sleeper is in a freed chain. -/
theorem Kept.freed
    {state : State ι} {task : ι}
    (kept : Kept state)
    (awake : ∀ head, state.waiting = some head → state.Runnable head)
    (inside : state.Inside task)
    (asleep : ¬ state.Runnable task) :
    Freed state task := by
  refine kept.threaded.induction kept.covered ?_ ?_ task inside asleep
  · intro head first asleep
    exact absurd (awake head first) asleep
  · intro user task saves behind
    by_cases runnable : state.Runnable user
    · exact .next saves runnable
    · exact .behind saves runnable (behind runnable)

omit [DecidableEq ι] in
/-- A chain stays freed when its pointers stay and its tasks do not go to sleep. -/
theorem freed_persists
    {state after : State ι} {task : ι}
    (freed : Freed state task)
    (saved : ∀ user other, state.Saves user other → after.Saves user other)
    (runnable :
      ∀ user, state.Inside user → state.Runnable user → after.Runnable user) :
    Freed after task := by
  induction freed with
  | next saves awake =>
    exact .next (saved _ _ saves) (runnable _ saves.inside awake)
  | @behind user other saves _ _ inductionHypothesis =>
    by_cases awake : after.Runnable user
    · exact .next (saved _ _ saves) awake
    · exact .behind (saved _ _ saves) awake inductionHypothesis

/-- What one action does to a sleeper in a freed chain. -/
theorem Moves.freed
    {state after : State ι} {action : Action ι} {task : ι}
    (moves : Moves state action after)
    (kept : Kept after)
    (inside : state.Inside task)
    (asleep : ¬ state.Runnable task)
    (freed : Freed state task) :
    after.Runnable task ∨ (after.Inside task ∧ Freed after task) := by
  by_cases runnable : after.Runnable task
  · exact Or.inl runnable
  right
  cases moves with
  | @slept current awake outside =>
    have different : task ≠ current := by
      rintro rfl
      exact outside inside
    refine ⟨by simpa [different] using inside, freed_persists freed ?_ ?_⟩
    · intro user other saves
      have distinct : user ≠ current := by
        rintro rfl
        exact outside saves.inside
      simpa [distinct] using saves
    · intro user userInside awake
      have distinct : user ≠ current := by
        rintro rfl
        exact outside userInside
      simpa [distinct] using awake
  | @repeated current head _ _ first different =>
    refine ⟨inside, kept.freed ?_ inside runnable⟩
    intro other isFirst
    have same : head = other :=
      Option.some.inj (first.symm.trans isFirst)
    subst same
    simp [different]
  | @returned current awake _ =>
    have different : task ≠ current := by
      rintro rfl
      exact asleep awake
    have stays : (leaving current state).Inside task := by
      simp [different, inside]
    refine ⟨stays, kept.freed ?_ stays runnable⟩
    intro head first
    simp at first
  | wokeHead =>
    refine ⟨inside, kept.freed ?_ inside runnable⟩
    intro head first
    cases first
  | wokeNobody =>
    exact ⟨inside, freed⟩
  | @signalled other =>
    refine ⟨inside, freed_persists freed (fun _ _ saves => saves) ?_⟩
    intro user _ awake
    by_cases same : user = other
    · simp [same]
    · simpa [same] using awake
  | ignored =>
    exact ⟨inside, freed⟩

/-- A run of the queue. -/
def Runs
    (initTask : ι)
    (actions : List (Action ι))
    (state after : State ι) : Prop :=
  Traces (fun action before next => (queue initTask).Step before action next)
    actions state after

/-- A run in which a task that goes back to sleep is always still saved. -/
def CarefulRuns
    (initTask : ι)
    (actions : List (Action ι))
    (state after : State ι) : Prop :=
  Traces
    (fun action before next =>
      (queue initTask).Step before action next ∧ StillSaved before action)
    actions state after

/-- At some moment of the run the task can run. -/
def Woken
    (initTask : ι)
    (actions : List (Action ι))
    (state after : State ι)
    (task : ι) : Prop :=
  ∃ earlier later middle,
    actions = earlier ++ later ∧
      Runs initTask earlier state middle ∧
      Runs initTask later middle after ∧
      middle.Runnable task

theorem CarefulRuns.runs
    {initTask : ι} {actions : List (Action ι)} {state after : State ι}
    (run : CarefulRuns initTask actions state after) :
    Runs initTask actions state after :=
  run.mono fun _ _ _ stepped => stepped.1

theorem CarefulRuns.keeps
    {initTask : ι} {actions : List (Action ι)} {state after : State ι}
    (run : CarefulRuns initTask actions state after)
    (kept : Kept state) :
    Kept after :=
  run.invariant
    (fun _ _ _ before stepped =>
      before.moves (moves_of_step stepped.1) stepped.2)
    kept

/-- A sleeper in a freed chain is woken before the queue is at rest. -/
theorem CarefulRuns.wakes
    {initTask : ι} {actions : List (Action ι)}
    {state after : State ι} {task : ι}
    (run : CarefulRuns initTask actions state after)
    (kept : Kept state)
    (inside : state.Inside task)
    (freed : Freed state task)
    (settled : after.Settled) :
    Woken initTask actions state after task := by
  induction run with
  | done state =>
    exact absurd settled freed.not_settled
  | @next label labels first middle last stepped rest inductionHypothesis =>
    by_cases awake : first.Runnable task
    · exact ⟨[], label :: labels, first, rfl, .done first,
        CarefulRuns.runs (.next stepped rest), awake⟩
    · have moves := moves_of_step stepped.1
      have keeps := kept.moves moves stepped.2
      rcases moves.freed keeps inside awake freed with
        runnable | ⟨stays, freed⟩
      · exact ⟨[label], labels, middle, rfl,
          .next stepped.1 (.done middle), CarefulRuns.runs rest, runnable⟩
      · obtain ⟨earlier, later, between, split, before, afterwards,
          woken⟩ :=
          inductionHypothesis keeps stays freed settled
        exact ⟨label :: earlier, later, between,
          by simp [split], .next stepped.1 before, afterwards, woken⟩

/-- With nobody at `*p`, a task that can run returns. -/
theorem returns
    {initTask : ι} {state : State ι} {task : ι}
    (nobody : state.waiting = none)
    (runnable : state.Runnable task)
    (inside : state.Inside task) :
    (queue initTask).Step state (.resume task) (leaving task state) := by
  obtain ⟨_, after, outcome, moves⟩ :=
    (satisfies_resumed runnable inside).returns
  cases moves with
  | repeated _ _ first _ =>
    simp [nobody] at first
  | returned =>
    exact .returned ⟨runnable, inside⟩ outcome

/-- With nobody at `*p`, resumptions alone bring the queue to rest. -/
theorem comes_to_rest
    {initTask : ι} {state : State ι}
    (nobody : state.waiting = none)
    (finite : {task | state.Inside task}.Finite) :
    ∃ tasks settled,
      CarefulRuns initTask (List.map .resume tasks) state settled ∧
        settled.Settled := by
  induction size : {task | state.Inside task}.ncard
    using Nat.strong_induction_on generalizing state with
  | _ count inductionHypothesis =>
    by_cases settled : state.Settled
    · exact ⟨[], state, .done state, settled⟩
    · simp only [State.Settled, not_forall, not_not] at settled
      obtain ⟨task, inside, runnable⟩ := settled
      have fewer :
          {other | (leaving task state).Inside other} ⊂
            {other | state.Inside other} := by
        refine ⟨fun other member => (leaving_inside.mp member).2, ?_⟩
        intro all
        exact (leaving_inside.mp (all inside)).1 rfl
      obtain ⟨tasks, last, run, atRest⟩ :=
        inductionHypothesis _ (size ▸ Set.ncard_lt_ncard fewer finite)
          leaving_waiting (finite.subset fewer.1) rfl
      have careful : StillSaved state (.resume task) := by
        intro head first
        simp [nobody] at first
      exact ⟨task :: tasks, last,
        .next ⟨returns nobody runnable inside, careful⟩ run, atRest⟩

/-! ## Runs that lose nobody -/

theorem kept_initially
    {initTask : ι} {start : State ι}
    (initially : (queue initTask).initial start) :
    Kept start := by
  obtain ⟨nobody, outside⟩ := initially
  refine ⟨⟨?_, ?_, ?_⟩, ?_⟩
  · intro head _ first
    simp [nobody] at first
  · intro task cycle
    obtain ⟨_, saves, _⟩ := Relation.TransGen.head'_iff.mp cycle
    exact outside task saves.inside
  · have empty : {task | start.Inside task} = (∅ : Set ι) :=
      Set.eq_empty_of_forall_notMem outside
    simp [empty]
  · intro task inside
    exact absurd inside (outside task)

/--
In every run, no sleeper is ever lost exactly when each task that goes back to sleep
is still saved by some task inside.  In such a run the resumptions that follow a
`wake_up` come to an end, and whatever happens until the queue is at rest wakes
every task that was asleep.
-/
theorem noneLost_iff_stillSaved
    {initTask : ι} {actions : List (Action ι)} {start state : State ι}
    (initially : (queue initTask).initial start)
    (run : Runs initTask actions start state) :
    (Traces.Along
        (fun action before after => (queue initTask).Step before action after)
        NoneLost actions start state ↔
      CarefulRuns initTask actions start state) ∧
    (CarefulRuns initTask actions start state →
      ∀ woken, (queue initTask).Step state .wake woken →
        (∃ tasks settled,
          CarefulRuns initTask (List.map .resume tasks) woken settled ∧
            settled.Settled) ∧
        ∀ later settled task,
          CarefulRuns initTask later woken settled → settled.Settled →
          state.Inside task → ¬ state.Runnable task →
            Woken initTask later woken settled task) := by
  have kept := kept_initially initially
  constructor
  · exact run.along_iff
      (fun _ _ _ _ stepped again => stepped.deterministic again)
      (fun _ kept => kept.noneLost)
      (fun _ _ _ kept stepped stillSaved =>
        kept.moves (moves_of_step stepped) stillSaved)
      (fun _ _ _ _ stepped unsaved =>
        (moves_of_step stepped).loses unsaved)
      kept
  · intro careful woken stepped
    have moves := moves_of_step stepped
    have keeps := (careful.keeps kept).moves moves trivial
    have nobody : woken.waiting = none := by
      cases moves with
      | wokeHead =>
        rfl
      | wokeNobody head =>
        exact head
    have inside :
        ∀ task, state.Inside task → woken.Inside task := by
      intro task inside
      cases moves with
      | wokeHead =>
        exact inside
      | wokeNobody =>
        exact inside
    refine ⟨comes_to_rest nobody keeps.threaded.finite, ?_⟩
    intro later settled task run atRest was asleep
    by_cases runnable : woken.Runnable task
    · exact ⟨[], later, woken, rfl, .done woken, run.runs, runnable⟩
    · refine run.wakes keeps (inside task was) ?_ atRest
      refine keeps.freed ?_ (inside task was) runnable
      intro head first
      simp [nobody] at first

/-! ## A task that a wake-up has taken off the chain -/

/-- The claim: no run from an empty queue loses a sleeper. -/
def LosesNobody (initTask : ι) : Prop :=
  ∀ actions start state,
    (queue initTask).initial start →
    Runs initTask actions start state → NoneLost state

theorem awake_initial : (queue 0).initial awake :=
  ⟨rfl, fun _ inside => inside rfl⟩

/--
Task 1 is woken; before it resumes, task 2 goes to sleep.  Task 1 then wakes task 2
and goes back to sleep, and nothing refers to it.
-/
theorem not_losesNobody : ¬ LosesNobody (0 : Nat) := by
  intro losesNobody
  obtain ⟨state, run, head, tmp, runnable, unsaved⟩ :
      ∃ state, Runs 0 [.sleep 1, .wake, .sleep 2] awake state ∧
        state.waiting = some 2 ∧ state.tmp 1 = some none ∧
        state.Runnable 1 ∧ ∀ user, ¬ state.Saves user 1 := by
    refine ⟨_, .next (.returned ⟨rfl, fun inside => inside rfl⟩ rfl)
      (.next (.returned trivial rfl)
        (.next (.returned ⟨rfl, fun inside => inside rfl⟩ rfl)
          (.done _))), rfl, rfl, rfl, ?_⟩
    intro user saves
    by_cases two : user = 2
    · subst two
      cases saves
    · by_cases one : user = 1
      · subst one
        cases saves
      · simp [State.Saves, State.setTaskState, State.setTmp,
          State.setWaiting, awake, one, two] at saves
  have inside : state.Inside 1 := by
    simp [State.Inside, tmp]
  obtain ⟨_, after, outcome, moves⟩ :=
    (satisfies_resumed runnable inside).returns
  have stepped : (queue 0).Step state (.resume 1) after :=
    .returned ⟨runnable, inside⟩ outcome
  refine moves.loses ?_
    (losesNobody _ _ _ awake_initial (run.snoc stepped))
  intro stillSaved
  obtain ⟨user, saves⟩ := stillSaved 2 head (by decide)
  exact unsaved user saves

/--
A signal wakes task 1 behind task 2; it goes back to sleep, and a wake-up reaches it
through task 2.
-/
theorem noneLost_iff_stillSaved_signal :
    ∃ state woken tasks settled,
      Runs 0 [.sleep 1, .sleep 2, .signal 1, .resume 1] awake state ∧
      ¬ state.Runnable 1 ∧
      NoneLost state ∧
      (queue 0).Step state .wake woken ∧
      Woken 0 (List.map .resume tasks) woken settled 1 := by
  obtain ⟨state, woken, careful, asleep, inside, stepped⟩ :
      ∃ state woken,
        CarefulRuns 0 [.sleep 1, .sleep 2, .signal 1, .resume 1] awake
          state ∧
        state.taskState 1 = .interruptible ∧ state.tmp 1 = some none ∧
        (queue 0).Step state .wake woken := by
    refine ⟨_, _,
      .next ⟨.returned ⟨rfl, fun inside => inside rfl⟩ rfl, trivial⟩
        (.next ⟨.returned ⟨rfl, fun inside => inside rfl⟩ rfl, trivial⟩
          (.next ⟨.returned trivial rfl, trivial⟩
            (.next ⟨.returned ⟨rfl, Option.some_ne_none none⟩ rfl, ?_⟩
              (.done _)))),
      rfl, rfl, .returned trivial rfl⟩
    intro head first different
    exact ⟨2, rfl⟩
  have sleeps : state.Inside 1 ∧ ¬ state.Runnable 1 := by
    simp [State.Inside, State.Runnable, asleep, inside]
  have run := careful.runs
  obtain ⟨exactly, wakes⟩ := noneLost_iff_stillSaved awake_initial run
  obtain ⟨⟨tasks, settled, rest, atRest⟩, all⟩ :=
    wakes careful woken stepped
  exact ⟨state, woken, tasks, settled, run, sleeps.2,
    exactly.mpr careful _ [] state rfl run (.done state), stepped,
    all _ settled 1 rest atRest sleeps.1 sleeps.2⟩

end InterruptibleSleep

end HitOs
