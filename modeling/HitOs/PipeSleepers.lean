import HitOs.PipeMoves

namespace HitOs

/-!
# The sleepers of a pipe

Readers and writers sleep on one queue, of which `wake_up` reaches only the head.  But
every turn of a call ends with a `wake_up`, and only then goes to sleep: so whoever
sleeps is alone in the queue, and slept after the last turn that was not stopped.
-/

namespace Pipes

variable {ι : Type} [DecidableEq ι]

/-- What a sleeper waits for. -/
def Point.Waits (pipe : Pipe) : Point → Prop
  | .reading _ _ _ => pipe.size = 0
  | .writing _ _ _ => pipe.room = 0
  | _ => False

namespace State

/-- Some task waits for a page, and is going to call `wake_up` after that. -/
def Busy (state : State ι) : Prop :=
  ∃ task, (state.point task).isStopped = true

/-- The ends that are open are counted, and whoever is in a call has its end open. -/
structure Counted (state : State ι) : Prop where
  count :
    state.pipe.count = state.readEnd.toNat + state.writeEnd.toNat
  readers :
    ∀ task, (state.point task).isReader = true → state.readEnd = true
  writers :
    ∀ task, (state.point task).isWriter = true → state.writeEnd = true

end State

/-- The queue in a turn of the given task: it has come out of `sleep_on`, and whoever
is not runnable is alone in the queue. -/
structure InTurn (current : ι) (state : State ι) : Prop where
  inRange : state.pipe.InRange
  saved : ∀ user task, ¬ state.queue.Saves user task
  outside : ¬ state.queue.Inside current
  inside :
    ∀ task, task ≠ current →
      (state.queue.Inside task ↔ (state.point task).isAsleep = true)
  runnable :
    ∀ task, ¬ state.queue.Inside task → state.queue.Runnable task
  alone :
    ∀ task, ¬ state.queue.Runnable task → state.queue.waiting = some task
  both :
    ∀ task, ¬ state.queue.Runnable task → state.pipe.count = 2

/-- The invariant between turns. -/
structure Attended (state : State ι) : Prop where
  inRange : state.pipe.InRange
  saved : ∀ user task, ¬ state.queue.Saves user task
  inside :
    ∀ task, state.queue.Inside task ↔ (state.point task).isAsleep = true
  runnable :
    ∀ task, ¬ state.queue.Inside task → state.queue.Runnable task
  alone :
    ∀ task, ¬ state.queue.Runnable task → state.queue.waiting = some task
  both :
    ∀ task, ¬ state.queue.Runnable task → state.pipe.count = 2
  waits :
    ∀ task, ¬ state.queue.Runnable task →
      state.Busy ∨ (state.point task).Waits state.pipe

/-! ## The ends -/

/-- What a turn of a task does not change. -/
structure Frame (current : ι) (state after : State ι) : Prop where
  count : after.pipe.count = state.pipe.count
  readEnd : after.readEnd = state.readEnd
  writeEnd : after.writeEnd = state.writeEnd
  points : ∀ task, task ≠ current → after.point task = state.point task

section Frames

variable {current : ι} {state after : State ι} {fault : Option Nat}
variable {count done written : Nat}

theorem ReadTurn.frame
    {buf : List Byte}
    (turn : ReadTurn current fault count done buf state after) :
    Frame current state after ∧ (after.point current).isWriter = false := by
  cases turn with
  | ran _ ends =>
    cases ends with
    | returned _ =>
      refine ⟨⟨rfl, rfl, rfl, ?_⟩, ?_⟩
      · exact fun task other => Function.update_of_ne other _ _
      · rw [readReturns_point_self]
        rfl
    | slept _ _ =>
      refine ⟨⟨rfl, rfl, rfl, ?_⟩, ?_⟩
      · exact fun task other => goto_point_of_ne other
      · rw [goto_point_self]
        rfl
  | stopped _ _ =>
    refine ⟨⟨rfl, rfl, rfl, ?_⟩, ?_⟩
    · exact fun task other => goto_point_of_ne other
    · unfold State.putStopped
      rw [goto_point_self]
      rfl

theorem WriteTurn.frame
    {buf : Nat → Byte}
    (turn : WriteTurn current fault buf count written state after) :
    Frame current state after ∧ (after.point current).isReader = false := by
  cases turn with
  | ran _ ends =>
    cases ends with
    | returned _ =>
      refine ⟨⟨rfl, rfl, rfl, ?_⟩, ?_⟩
      · exact fun task other => Function.update_of_ne other _ _
      · rw [writeReturns_point_self]
        rfl
    | broken _ _ =>
      refine ⟨⟨rfl, rfl, rfl, ?_⟩, ?_⟩
      · exact fun task other => Function.update_of_ne other _ _
      · rw [writeReturns_point_self]
        rfl
    | slept _ _ =>
      refine ⟨⟨rfl, rfl, rfl, ?_⟩, ?_⟩
      · exact fun task other => goto_point_of_ne other
      · rw [goto_point_self]
        rfl
  | stopped _ _ =>
    refine ⟨⟨rfl, rfl, rfl, ?_⟩, ?_⟩
    · exact fun task other => goto_point_of_ne other
    · unfold State.getStopped
      rw [goto_point_self]
      rfl

end Frames

namespace State.Counted

variable {current : ι} {state after : State ι}

theorem of_frame
    (counted : state.Counted)
    (frame : Frame current state after)
    (readers :
      (after.point current).isReader = true → state.readEnd = true)
    (writers :
      (after.point current).isWriter = true → state.writeEnd = true) :
    after.Counted := by
  refine ⟨?_, ?_, ?_⟩
  · rw [frame.count, frame.readEnd, frame.writeEnd]
    exact counted.count
  · intro task reader
    rw [frame.readEnd]
    by_cases mine : task = current
    · exact readers (mine ▸ reader)
    · rw [frame.points task mine] at reader
      exact counted.readers task reader
  · intro task writer
    rw [frame.writeEnd]
    by_cases mine : task = current
    · exact writers (mine ▸ writer)
    · rw [frame.points task mine] at writer
      exact counted.writers task writer

theorem readTurn
    {fault : Option Nat} {count done : Nat} {buf : List Byte}
    (counted : state.Counted)
    (isOpen : state.readEnd = true)
    (turn : ReadTurn current fault count done buf state after) :
    after.Counted := by
  obtain ⟨frame, notWriter⟩ := turn.frame
  exact counted.of_frame frame (fun _ => isOpen) fun writer =>
    absurd writer (by rw [notWriter]; decide)

theorem writeTurn
    {fault : Option Nat} {buf : Nat → Byte} {count written : Nat}
    (counted : state.Counted)
    (isOpen : state.writeEnd = true)
    (turn : WriteTurn current fault buf count written state after) :
    after.Counted := by
  obtain ⟨frame, notReader⟩ := turn.frame
  exact counted.of_frame frame
    (fun reader => absurd reader (by rw [notReader]; decide))
    fun _ => isOpen

/-- Nothing but the queue and the bytes has changed. -/
theorem congr
    (counted : state.Counted)
    (count : after.pipe.count = state.pipe.count)
    (readEnd : after.readEnd = state.readEnd)
    (writeEnd : after.writeEnd = state.writeEnd)
    (point : after.point = state.point) :
    after.Counted :=
  ⟨by rw [count, readEnd, writeEnd, counted.count],
    by rw [point, readEnd]; exact counted.readers,
    by rw [point, writeEnd]; exact counted.writers⟩

theorem moves
    {action : Action ι}
    (counted : state.Counted)
    (moved : Moves state action after) :
    after.Counted := by
  cases moved with
  | read isOpen _ turn =>
    exact counted.readTurn isOpen turn
  | write isOpen _ turn =>
    exact counted.writeTurn isOpen turn
  | resumeRead asleep _ turn =>
    refine readTurn ?_ ?_ turn
    · exact counted.congr rfl rfl rfl rfl
    · exact counted.readers _ (by rw [asleep]; rfl)
  | resumeWrite asleep _ turn =>
    refine writeTurn ?_ ?_ turn
    · exact counted.congr rfl rfl rfl rfl
    · exact counted.writers _ (by rw [asleep]; rfl)
  | putMore asleep turn =>
    refine readTurn ?_ ?_ turn
    · exact counted.congr rfl rfl rfl rfl
    · exact counted.readers _ (by rw [asleep]; rfl)
  | @putSome current _ _ _ _ _ _ _ _ _ asleep _ =>
    have reader : state.readEnd = true :=
      counted.readers current (by rw [asleep]; rfl)
    refine counted.of_frame
      ⟨rfl, rfl, rfl, fun task other => goto_point_of_ne other⟩
      (fun _ => reader) fun writer => ?_
    rw [goto_point_self] at writer
    cases writer
  | getMore asleep turn =>
    refine writeTurn ?_ ?_ turn
    · exact counted.congr rfl rfl rfl rfl
    · exact counted.writers _ (by rw [asleep]; rfl)
  | @getSome current _ _ _ _ _ _ _ asleep _ =>
    have writer : state.writeEnd = true :=
      counted.writers current (by rw [asleep]; rfl)
    refine counted.of_frame
      ⟨rfl, rfl, rfl, fun task other => goto_point_of_ne other⟩
      (fun reader => ?_) fun _ => writer
    rw [goto_point_self] at reader
    cases reader
  | closeRead isOpen idle =>
    refine ⟨?_, ?_, counted.writers⟩
    · change state.pipe.count - 1 = _
      rw [counted.count, isOpen]
      exact (Nat.add_sub_cancel_left 1 _).trans (Nat.zero_add _).symm
    · intro task reader
      exact absurd ((idle task).symm.trans reader) Bool.false_ne_true
  | closeWrite isOpen idle =>
    refine ⟨?_, counted.readers, ?_⟩
    · change state.pipe.count - 1 = _
      rw [counted.count, isOpen]
      rfl
    · intro task writer
      exact absurd ((idle task).symm.trans writer) Bool.false_ne_true

end State.Counted

/-! ## The queue -/

namespace InTurn

variable {current : ι} {state after : State ι}

/-- After `wake_up` everyone is runnable. -/
theorem woken
    (turn : InTurn current state)
    (task : ι) :
    state.queue.woken.Runnable task := by
  rw [WaitQueue.State.runnable_woken]
  by_cases runnable : state.queue.Runnable task
  · exact Or.inr runnable
  · exact Or.inl (turn.alone task runnable)

/-- The call returns. -/
theorem returned
    (turn : InTurn current state)
    (inRange : after.pipe.InRange)
    (queue : after.queue = state.queue.woken)
    (points : ∀ task, task ≠ current → after.point task = state.point task)
    (awake : (after.point current).isAsleep = false) :
    Attended after := by
  have everyone (task : ι) : after.queue.Runnable task := by
    rw [queue]
    exact turn.woken task
  have tmp : after.queue.tmp = state.queue.tmp := by
    rw [queue, WaitQueue.State.woken_tmp]
  refine ⟨inRange, ?_, ?_, fun task _ => everyone task,
    fun task asleep => absurd (everyone task) asleep,
    fun task asleep => absurd (everyone task) asleep,
    fun task asleep => absurd (everyone task) asleep⟩
  · intro user task
    unfold WaitQueue.State.Saves
    rw [tmp]
    exact turn.saved user task
  · intro task
    unfold WaitQueue.State.Inside
    rw [tmp]
    by_cases mine : task = current
    · subst mine
      rw [awake]
      exact iff_of_false turn.outside Bool.false_ne_true
    · rw [points task mine]
      exact turn.inside task mine

/-- The task goes to sleep, for what it waits for. -/
theorem slept
    (turn : InTurn current state)
    (inRange : after.pipe.InRange)
    (queue : after.queue = state.queue.woken.slept current)
    (points : ∀ task, task ≠ current → after.point task = state.point task)
    (asleep : (after.point current).isAsleep = true)
    (both : after.pipe.count = 2)
    (waits : (after.point current).Waits after.pipe) :
    Attended after := by
  have others (task : ι) (other : task ≠ current) :
      after.queue.Runnable task := by
    rw [queue, WaitQueue.State.runnable_slept other]
    exact turn.woken task
  have onlyMe (task : ι) (sleeping : ¬ after.queue.Runnable task) :
      task = current :=
    Classical.byContradiction fun other => sleeping (others task other)
  have tmp :
      after.queue.tmp =
        Function.update state.queue.tmp current (some none) := by
    rw [queue, WaitQueue.State.slept_tmp, WaitQueue.State.woken_waiting,
      WaitQueue.State.woken_tmp]
  refine ⟨inRange, ?_, ?_, ?_, ?_, fun _ _ => both, ?_⟩
  · intro user task saves
    unfold WaitQueue.State.Saves at saves
    rw [tmp] at saves
    by_cases mine : user = current
    · rw [mine, Function.update_self] at saves
      cases saves
    · rw [Function.update_of_ne mine] at saves
      exact turn.saved user task saves
  · intro task
    unfold WaitQueue.State.Inside
    rw [tmp]
    by_cases mine : task = current
    · subst mine
      rw [Function.update_self, asleep]
      exact iff_of_true (Option.some_ne_none _) rfl
    · rw [Function.update_of_ne mine, points task mine]
      exact turn.inside task mine
  · intro task outside
    refine others task ?_
    rintro rfl
    refine outside ?_
    unfold WaitQueue.State.Inside
    rw [tmp, Function.update_self]
    exact Option.some_ne_none _
  · intro task sleeping
    rw [onlyMe task sleeping, queue]
    rfl
  · intro task sleeping
    rw [onlyMe task sleeping]
    exact Or.inr waits

/-- A page is missing. -/
theorem stopped
    (turn : InTurn current state)
    (inRange : after.pipe.InRange)
    (queue : after.queue = state.queue)
    (points : ∀ task, task ≠ current → after.point task = state.point task)
    (count : after.pipe.count = state.pipe.count)
    (waiting : (after.point current).isStopped = true) :
    Attended after := by
  have awake : (after.point current).isAsleep = false := by
    cases point : after.point current with
    | putting val chars size count done buf => rfl
    | getting buf chars size count written number => rfl
    | _ =>
      rw [point] at waiting
      cases waiting
  refine ⟨inRange, ?_, ?_, ?_, ?_, ?_, fun _ _ => Or.inl ⟨current, waiting⟩⟩
  · rw [queue]
    exact turn.saved
  · intro task
    rw [queue]
    by_cases mine : task = current
    · subst mine
      rw [awake]
      exact iff_of_false turn.outside Bool.false_ne_true
    · rw [points task mine]
      exact turn.inside task mine
  · rw [queue]
    exact turn.runnable
  · rw [queue]
    exact turn.alone
  · rw [queue, count]
    exact turn.both

/-- Only the bytes of the pipe have changed. -/
theorem congr
    (turn : InTurn current state)
    (inRange : after.pipe.InRange)
    (queue : after.queue = state.queue)
    (point : after.point = state.point)
    (count : after.pipe.count = state.pipe.count) :
    InTurn current after :=
  ⟨inRange, by rw [queue]; exact turn.saved, by rw [queue]; exact turn.outside,
    by rw [queue, point]; exact turn.inside,
    by rw [queue]; exact turn.runnable, by rw [queue]; exact turn.alone,
    by rw [queue, count]; exact turn.both⟩

theorem readTurn
    {fault : Option Nat} {count done : Nat} {buf : List Byte}
    (turn : InTurn current state)
    (read : ReadTurn current fault count done buf state after) :
    Attended after := by
  have points := read.frame.1.points
  cases read with
  | ran _ ends =>
    have stored : min count state.pipe.size ≤ state.pipe.size :=
      Nat.min_le_right _ _
    have taken :
        InTurn current (state.took (min count state.pipe.size)) :=
      turn.congr (State.inRange_took turn.inRange _) rfl rfl rfl
    cases ends with
    | returned _ =>
      refine taken.returned taken.inRange rfl points ?_
      rw [readReturns_point_self]
      rfl
    | slept more both =>
      refine taken.slept taken.inRange rfl points ?_ both ?_
      · rw [goto_point_self]
        rfl
      · rw [goto_point_self]
        change (state.took _).pipe.size = 0
        rw [State.size_took turn.inRange stored]
        omega
  | stopped _ _ =>
    refine turn.stopped ?_ rfl points rfl ?_
    · exact ⟨turn.inRange.head, Nat.mod_lt _ (by decide)⟩
    · unfold State.putStopped
      rw [goto_point_self]
      rfl

theorem writeTurn
    {fault : Option Nat} {buf : Nat → Byte} {count written : Nat}
    (turn : InTurn current state)
    (write : WriteTurn current fault buf count written state after) :
    Attended after := by
  have points := write.frame.1.points
  cases write with
  | ran _ ends =>
    have fits :
        (Ring.load buf written (min count state.pipe.room)).length ≤
          state.pipe.room := by
      rw [Ring.length_load]
      exact Nat.min_le_right _ _
    have given :
        InTurn current
          (state.gave
            (Ring.load buf written (min count state.pipe.room))) :=
      turn.congr (State.inRange_gave turn.inRange _) rfl rfl rfl
    cases ends with
    | returned _ =>
      refine given.returned given.inRange rfl points ?_
      rw [writeReturns_point_self]
      rfl
    | broken _ _ =>
      refine given.returned given.inRange rfl points ?_
      rw [writeReturns_point_self]
      rfl
    | slept more both =>
      refine given.slept given.inRange rfl points ?_ both ?_
      · rw [goto_point_self]
        rfl
      · rw [goto_point_self]
        change (state.gave _).pipe.room = 0
        rw [State.room_gave turn.inRange fits, Ring.length_load]
        omega
  | stopped _ _ =>
    refine turn.stopped ?_ rfl points rfl ?_
    · exact ⟨Nat.mod_lt _ (by decide), turn.inRange.tail⟩
    · unfold State.getStopped
      rw [goto_point_self]
      rfl

end InTurn

namespace Attended

variable {current : ι} {state after : State ι}

/-- A task that is not in `sleep_on` takes its turn. -/
theorem inTurn
    (attended : Attended state)
    (awake : (state.point current).isAsleep = false) :
    InTurn current state := by
  have outside : ¬ state.queue.Inside current := by
    rw [attended.inside, awake]
    exact Bool.false_ne_true
  exact
    ⟨attended.inRange, attended.saved, outside,
      fun task _ => attended.inside task, attended.runnable, attended.alone,
      attended.both⟩

/-- A task comes out of `sleep_on`, and has nobody to wake. -/
theorem resumed
    (attended : Attended state)
    (runnable : state.queue.Runnable current) :
    InTurn current (state.resumed current) := by
  have queue : state.queue.resumed current =
      state.queue.setTmp current none := by
    unfold WaitQueue.State.resumed
    split
    · rename_i tmp saves
      exact absurd saves (attended.saved current tmp)
    · rfl
  have tmp :
      (state.resumed current).queue.tmp =
        Function.update state.queue.tmp current none :=
    WaitQueue.State.resumed_tmp
  have same (task : ι) :
      (state.resumed current).queue.Runnable task ↔
        state.queue.Runnable task := by
    change (state.queue.resumed current).Runnable task ↔ _
    rw [queue]
    exact WaitQueue.State.runnable_setTmp none
  have waiting :
      (state.resumed current).queue.waiting = state.queue.waiting := by
    change (state.queue.resumed current).waiting = _
    rw [queue]
    rfl
  refine ⟨attended.inRange, ?_, ?_, ?_, ?_, ?_, ?_⟩
  · intro user task saves
    unfold WaitQueue.State.Saves at saves
    rw [tmp] at saves
    by_cases mine : user = current
    · rw [mine, Function.update_self] at saves
      cases saves
    · rw [Function.update_of_ne mine] at saves
      exact attended.saved user task saves
  · unfold WaitQueue.State.Inside
    rw [tmp, Function.update_self]
    exact fun inside => inside rfl
  · intro task other
    unfold WaitQueue.State.Inside
    rw [tmp, Function.update_of_ne other]
    exact attended.inside task
  · intro task outside
    rw [same]
    by_cases mine : task = current
    · rw [mine]
      exact runnable
    · refine attended.runnable task ?_
      unfold WaitQueue.State.Inside at outside ⊢
      rwa [tmp, Function.update_of_ne mine] at outside
  · intro task asleep
    rw [waiting]
    exact attended.alone task (mt (same task).mpr asleep)
  · intro task asleep
    exact attended.both task (mt (same task).mpr asleep)

/-- An end is closed. -/
theorem closed
    (attended : Attended state)
    (inRange : after.pipe.InRange)
    (queue : after.queue = state.queue.woken)
    (point : after.point = state.point) :
    Attended after := by
  have everyone (task : ι) : after.queue.Runnable task := by
    rw [queue, WaitQueue.State.runnable_woken]
    by_cases runnable : state.queue.Runnable task
    · exact Or.inr runnable
    · exact Or.inl (attended.alone task runnable)
  have tmp : after.queue.tmp = state.queue.tmp := by
    rw [queue, WaitQueue.State.woken_tmp]
  refine ⟨inRange, ?_, ?_, fun task _ => everyone task,
    fun task asleep => absurd (everyone task) asleep,
    fun task asleep => absurd (everyone task) asleep,
    fun task asleep => absurd (everyone task) asleep⟩
  · unfold WaitQueue.State.Saves
    rw [tmp]
    exact attended.saved
  · unfold WaitQueue.State.Inside
    rw [tmp, point]
    exact attended.inside

theorem moves
    {action : Action ι}
    (attended : Attended state)
    (moved : Moves state action after) :
    Attended after := by
  have user {task : ι} (isUser : (state.point task).isUser = true) :
      (state.point task).isAsleep = false := by
    cases point : state.point task with
    | user eax => rfl
    | _ =>
      rw [point] at isUser
      cases isUser
  cases moved with
  | read _ isUser turn =>
    exact (attended.inTurn (user isUser)).readTurn turn
  | write _ isUser turn =>
    exact (attended.inTurn (user isUser)).writeTurn turn
  | resumeRead _ runnable turn =>
    exact (attended.resumed runnable).readTurn turn
  | resumeWrite _ runnable turn =>
    exact (attended.resumed runnable).writeTurn turn
  | @putMore current _ _ _ _ _ _ _ _ _ asleep turn =>
    have awake : (state.point current).isAsleep = false := by
      rw [asleep]
      rfl
    have mine := attended.inTurn awake
    refine InTurn.readTurn ?_ turn
    exact mine.congr mine.inRange rfl rfl rfl
  | @putSome current _ _ _ _ _ _ _ _ _ asleep _ =>
    have awake : (state.point current).isAsleep = false := by
      rw [asleep]
      rfl
    have mine := attended.inTurn awake
    refine mine.stopped mine.inRange rfl
      (fun task other => goto_point_of_ne other) rfl ?_
    rw [goto_point_self]
    rfl
  | @getMore current _ _ _ _ _ _ _ _ asleep turn =>
    have awake : (state.point current).isAsleep = false := by
      rw [asleep]
      rfl
    have mine := attended.inTurn awake
    refine InTurn.writeTurn ?_ turn
    exact mine.congr ⟨mine.inRange.head, mine.inRange.tail⟩ rfl rfl rfl
  | @getSome current _ _ _ _ _ _ _ asleep _ =>
    have awake : (state.point current).isAsleep = false := by
      rw [asleep]
      rfl
    have mine := attended.inTurn awake
    refine mine.stopped ⟨mine.inRange.head, mine.inRange.tail⟩ rfl
      (fun task other => goto_point_of_ne other) rfl ?_
    rw [goto_point_self]
    rfl
  | closeRead _ _ =>
    exact attended.closed ⟨attended.inRange.head, attended.inRange.tail⟩ rfl rfl
  | closeWrite _ _ =>
    exact attended.closed ⟨attended.inRange.head, attended.inRange.tail⟩ rfl rfl

end Attended

/-- The two invariants of a pipe, whatever pages are missing. -/
theorem attended_of_reachable
    {initTask : ι} {state : State ι}
    (reached : (pipeMachine initTask).Reachable state) :
    Attended state ∧ state.Counted := by
  induction reached with
  | @start state initial =>
    obtain ⟨⟨head, tail, count⟩, ⟨nobody, awake⟩, users, ends, _⟩ := initial
    have inRange : state.pipe.InRange :=
      ⟨by rw [head]; decide, by rw [tail]; decide⟩
    have notUser {task : ι} {test : Point → Bool}
        (never : ∀ eax, test (.user eax) = false)
        (passes : test (state.point task) = true) : False := by
      have user := users task
      cases point : state.point task with
      | user eax =>
        rw [point, never] at passes
        cases passes
      | _ =>
        rw [point] at user
        cases user
    refine ⟨⟨inRange, ?_, ?_, fun task _ => (awake task).1,
      fun task asleep => absurd (awake task).1 asleep,
      fun task asleep => absurd (awake task).1 asleep,
      fun task asleep => absurd (awake task).1 asleep⟩, ?_⟩
    · intro user task saves
      exact (awake user).2 saves.inside
    · intro task
      exact iff_of_false (awake task).2 (notUser fun _ => rfl)
    · refine ⟨?_, fun task => ?_, fun task => ?_⟩
      · rw [count, ends.1, ends.2]
        rfl
      · exact fun _ => ends.1
      · exact fun _ => ends.2
  | step _ stepped inductionHypothesis =>
    obtain ⟨attended, counted⟩ := inductionHypothesis
    have moved := moves_of_step attended.inRange stepped
    exact ⟨attended.moves moved, counted.moves moved⟩

/--
Pipes do not deadlock.  When all tasks in `read_pipe` and `write_pipe` sleep and none has
been made runnable, both ends are open, and either the pipe is empty and all of them are
readers, or it is full and all of them are writers.
-/
theorem no_deadlock
    {initTask : ι} {state : State ι} {task : ι}
    (reached : (pipeMachine initTask).Reachable state)
    (asleep :
      ∀ other, (state.point other).isUser = false →
        (state.point other).isAsleep = true ∧ ¬ state.queue.Runnable other)
    (inside : (state.point task).isUser = false) :
    state.readEnd = true ∧ state.writeEnd = true ∧
      ((state.pipe.size = 0 ∧
          ∀ other, (state.point other).isUser = false →
            (state.point other).isReader = true) ∨
        (state.pipe.size = pageSize - 1 ∧
          ∀ other, (state.point other).isUser = false →
            (state.point other).isWriter = true)) := by
  obtain ⟨attended, counted⟩ := attended_of_reachable reached
  have sleeping := (asleep task inside).2
  have same (other : ι) (isInside : (state.point other).isUser = false) :
      other = task :=
    Option.some.inj
      ((attended.alone other (asleep other isInside).2).symm.trans
        (attended.alone task sleeping))
  have both : state.readEnd.toNat + state.writeEnd.toNat = 2 :=
    counted.count.symm.trans (attended.both task sleeping)
  have idle : ¬ state.Busy := by
    rintro ⟨other, stopped⟩
    cases point : state.point other with
    | putting val chars size count done buf =>
      have here := (asleep other (by rw [point]; rfl)).1
      rw [point] at here
      cases here
    | getting buf chars size count written number =>
      have here := (asleep other (by rw [point]; rfl)).1
      rw [point] at here
      cases here
    | _ =>
      rw [point] at stopped
      cases stopped
  have waits := (attended.waits task sleeping).resolve_left idle
  refine ⟨?_, ?_, ?_⟩
  · cases isOpen : state.readEnd with
    | true => rfl
    | false =>
      have upTo := state.writeEnd.toNat_le
      rw [isOpen] at both
      change 0 + _ = 2 at both
      omega
  · cases isOpen : state.writeEnd with
    | true => rfl
    | false =>
      have upTo := state.readEnd.toNat_le
      rw [isOpen] at both
      change _ + 0 = 2 at both
      omega
  · cases point : state.point task with
    | reading count done buf =>
      rw [point] at waits
      refine Or.inl ⟨waits, fun other isInside => ?_⟩
      rw [same other isInside, point]
      rfl
    | writing buf count written =>
      rw [point] at waits
      refine Or.inr ⟨?_, fun other isInside => ?_⟩
      · have small := state.pipe.size_lt
        change pageSize - 1 - state.pipe.size = 0 at waits
        omega
      · rw [same other isInside, point]
        rfl
    | _ =>
      rw [point] at waits
      exact waits.elim

/-- A reader of an empty pipe. -/
def emptyRead : State Nat :=
  ((newPipe fun _ => 0#8).slept 1).goto 1 (.reading 2 0 [])

theorem no_deadlock_empty :
    (pipeMachine 0).Reachable emptyRead ∧
      emptyRead.writeEnd = true ∧ emptyRead.pipe.size = 0 := by
  have stepped :
      (pipeMachine 0).Step (newPipe fun _ => 0#8) (.read 1 2 none)
        emptyRead :=
    .returned ⟨rfl, rfl, rfl⟩ rfl
  have reached : (pipeMachine 0).Reachable emptyRead :=
    .step (.start (newPipe_initial _)) stepped
  have only (other : Nat) (inside : (emptyRead.point other).isUser = false) :
      other = 1 := by
    by_contra different
    unfold emptyRead at inside
    rw [goto_point_of_ne different] at inside
    cases inside
  have asleep (other : Nat)
      (inside : (emptyRead.point other).isUser = false) :
      (emptyRead.point other).isAsleep = true ∧
        ¬ emptyRead.queue.Runnable other := by
    rw [only other inside]
    exact ⟨rfl, WaitQueue.State.not_runnable_slept⟩
  have inside : (emptyRead.point 1).isUser = false := rfl
  obtain ⟨_, writeEnd, ⟨empty, _⟩ | ⟨full, _⟩⟩ :=
    no_deadlock reached asleep inside
  · exact ⟨reached, writeEnd, empty⟩
  · cases full

end Pipes

end HitOs
