import HitOs.PipeMoves

namespace HitOs

/-!
# The bytes of a pipe

For one reader and one writer whose buffers are there, a pipe is a queue of bytes: what
has been read, followed by what is between `PIPE_TAIL` and `PIPE_HEAD`, is what has
been written.
-/

namespace Pipes

variable {ι : Type} [DecidableEq ι]

/-- The bytes between `PIPE_TAIL` and `PIPE_HEAD`. -/
def Pipe.contents (pipe : Pipe) : List Byte :=
  Ring.window pageSize pipe.page pipe.tail pipe.size

namespace Point

/-- The bytes that the current call of `read_pipe` has put into its buffer. -/
def got : Point → List Byte
  | .reading _ _ buf => buf
  | _ => []

/-- The bytes that the current call of `write_pipe` has taken from its buffer. -/
def given : Point → List Byte
  | .writing buf _ written => Ring.load buf 0 written
  | _ => []

/-- A reader asleep counts the bytes that it has put. -/
def Counts : Point → Prop
  | .reading _ done buf => done = buf.length
  | _ => True

/-- Where a task can be, if one task reads and one writes and no page is missing. -/
structure Ordinary
    {ι : Type}
    (reader writer task : ι)
    (point : Point) : Prop where
  notStopped : point.isStopped = false
  reads : point.isReader = true → task = reader
  writes : point.isWriter = true → task = writer
  counts : point.Counts

end Point

/-- The bytes of the calls of `read_pipe` that have returned. -/
def History.readBytes (history : History) : List Byte :=
  (history.reads.map Prod.snd).flatten

/-- The bytes of the calls of `write_pipe` that have returned: a result `n > 0` stands
for the first `n` bytes of the buffer. -/
def History.writtenBytes (history : History) : List Byte :=
  (history.writes.map fun call =>
    Ring.load call.2 0 call.1.toNat).flatten

namespace Action

/-- The buffers are there, so that a turn is stopped only in `sleep_on`. -/
def Resident : Action ι → Prop
  | .read _ _ fault | .write _ _ _ fault | .resume _ fault => fault = none
  | .closeRead | .closeWrite => True

/-- One task reads, and one writes. -/
def By (reader writer : ι) : Action ι → Prop
  | .read current _ _ => current = reader
  | .write current _ _ _ => current = writer
  | .resume _ _ | .closeRead | .closeWrite => True

end Action

/-- The invariant: the pipe is a queue. -/
structure Fifo (reader writer : ι) (state : State ι) : Prop where
  inRange : state.pipe.InRange
  queue :
    state.history.fetched ++ state.pipe.contents = state.history.stored
  points : ∀ task, (state.point task).Ordinary reader writer task
  reads :
    state.history.readBytes ++ (state.point reader).got = state.history.fetched
  writes :
    state.history.writtenBytes ++ (state.point writer).given = state.history.stored
  lengths :
    ∀ call ∈ state.history.reads, call.1 = (call.2.length : Int)

section Contents

variable {state : State ι}

/-- What a reader takes is the front of the queue. -/
theorem contents_took
    {chars : Nat}
    (inRange : state.pipe.InRange)
    (stored : chars ≤ state.pipe.size) :
    state.pipe.contents =
      Ring.window pageSize state.pipe.page state.pipe.tail chars ++
        (state.took chars).pipe.contents := by
  unfold Pipe.contents
  rw [State.size_took inRange stored]
  change _ = _ ++ Ring.window pageSize state.pipe.page
    ((state.pipe.tail + chars) % pageSize) _
  rw [Ring.window_mod, ← Ring.window_add, Nat.add_sub_cancel' stored]

/-- `PIPE_HEAD` is where the bytes of the pipe end. -/
theorem head_eq
    (inRange : state.pipe.InRange) :
    state.pipe.head = (state.pipe.tail + state.pipe.size) % pageSize := by
  obtain ⟨head, tail⟩ := inRange
  unfold Pipe.size pageSize at *
  omega

/-- What a writer gives is put at the end of the queue. -/
theorem contents_gave
    {bytes : List Byte}
    (inRange : state.pipe.InRange)
    (fits : bytes.length ≤ state.pipe.room) :
    (state.gave bytes).pipe.contents = state.pipe.contents ++ bytes := by
  have small := state.pipe.size_lt
  unfold Pipe.room at fits
  unfold Pipe.contents
  rw [State.size_gave inRange (by omega)]
  change Ring.window pageSize
    (Ring.store pageSize bytes state.pipe.head state.pipe.page)
    state.pipe.tail _ = _
  rw [head_eq inRange, Ring.store_mod, Ring.window_store (by omega)]

end Contents

namespace Fifo

variable {reader writer : ι} {state : State ι}

/-- The invariant does not depend on who sleeps. -/
theorem congr
    {state' : State ι}
    (fifo : Fifo reader writer state)
    (pipe : state'.pipe.head = state.pipe.head ∧
      state'.pipe.tail = state.pipe.tail ∧
      state'.pipe.page = state.pipe.page)
    (point : state'.point = state.point)
    (history : state'.history = state.history) :
    Fifo reader writer state' := by
  obtain ⟨head, tail, page⟩ := pipe
  have size : state'.pipe.size = state.pipe.size := by
    unfold Pipe.size
    rw [head, tail]
  have contents : state'.pipe.contents = state.pipe.contents := by
    unfold Pipe.contents
    rw [page, tail, size]
  obtain ⟨⟨headIn, tailIn⟩, queue, points, reads, writes, lengths⟩ := fifo
  exact
    ⟨⟨by rwa [head], by rwa [tail]⟩, by rwa [history, contents],
      by rwa [point], by rwa [history, point], by rwa [history, point],
      by rwa [history]⟩

/-- A task moves on to a point where it has transferred the same bytes. -/
theorem moved
    {current : ι} {point : Point}
    (fifo : Fifo reader writer state)
    (ordinary : point.Ordinary reader writer current)
    (got : point.got = (state.point current).got)
    (given : point.given = (state.point current).given) :
    Fifo reader writer (state.goto current point) := by
  have sameGot (task : ι) :
      ((state.goto current point).point task).got =
        (state.point task).got := by
    by_cases same : task = current
    · rw [same, goto_point_self, got]
    · rw [goto_point_of_ne same]
  have sameGiven (task : ι) :
      ((state.goto current point).point task).given =
        (state.point task).given := by
    by_cases same : task = current
    · rw [same, goto_point_self, given]
    · rw [goto_point_of_ne same]
  refine ⟨fifo.inRange, fifo.queue, forall_goto ordinary fifo.points, ?_, ?_,
    fifo.lengths⟩
  · rw [sameGot]
    exact fifo.reads
  · rw [sameGiven]
    exact fifo.writes

/-- The reader takes bytes from the front of the queue. -/
theorem took
    {count done chars : Nat} {buf : List Byte}
    (fifo : Fifo reader writer (state.goto reader (.reading count done buf)))
    (stored : chars ≤ state.pipe.size) :
    Fifo reader writer
      ((state.took chars).goto reader
        (.reading (count - chars) (done + chars)
          (buf ++ Ring.window pageSize state.pipe.page state.pipe.tail
            chars))) := by
  obtain ⟨inRange, queue, points, reads, writes, lengths⟩ := fifo
  have counts : done = buf.length := by
    have here := (points reader).counts
    rwa [goto_point_self] at here
  refine ⟨State.inRange_took inRange chars, ?_, ?_, ?_, ?_, lengths⟩
  · have front :
        state.pipe.contents =
          Ring.window pageSize state.pipe.page state.pipe.tail chars ++
            (state.took chars).pipe.contents :=
      contents_took inRange stored
    change (state.history.fetched ++ _) ++ (state.took chars).pipe.contents =
      state.history.stored
    rw [List.append_assoc, ← front]
    exact queue
  · refine forall_goto_goto rfl points
      ⟨rfl, fun _ => rfl, (fun never => nomatch never), ?_⟩
    change done + chars = (buf ++ Ring.window pageSize _ state.pipe.tail chars).length
    rw [List.length_append, Ring.length_window, counts]
  · rw [goto_point_self] at reads ⊢
    change state.history.readBytes ++
        (buf ++ Ring.window pageSize _ state.pipe.tail chars) =
      state.history.fetched ++ _
    rw [← List.append_assoc]
    exact congrArg (· ++ _) reads
  · refine Eq.trans ?_ writes
    refine congrArg (state.history.writtenBytes ++ ·) ?_
    apply value_goto_goto Point.given
    · rfl
    · rfl

/-- The reader's call returns. -/
theorem readReturns
    {count done : Nat} {buf : List Byte}
    (fifo :
      Fifo reader writer (state.goto reader (.reading count done buf))) :
    Fifo reader writer (state.readReturns reader done buf) := by
  obtain ⟨inRange, queue, points, reads, writes, lengths⟩ := fifo
  have counts : done = buf.length := by
    have here := (points reader).counts
    rwa [goto_point_self] at here
  have point :
      (state.readReturns reader done buf).point =
        (state.goto reader (.user done)).point :=
    rfl
  refine ⟨inRange, queue, ?_, ?_, ?_, ?_⟩
  · rw [point]
    exact forall_goto_goto rfl points
      ⟨rfl, fun _ => rfl, (fun never => nomatch never), trivial⟩
  · rw [goto_point_self] at reads
    rw [point, goto_point_self]
    change ((state.history.reads ++ [((done : Int), buf)]).map _).flatten ++
      [] = state.history.fetched
    rw [List.map_append, List.flatten_append, List.append_nil]
    change state.history.readBytes ++ (buf ++ []) = _
    rw [List.append_nil]
    exact reads
  · rw [point]
    refine Eq.trans ?_ writes
    refine congrArg (state.history.writtenBytes ++ ·) ?_
    apply value_goto_goto Point.given
    · rfl
    · rfl
  · intro call member
    rcases List.mem_append.mp member with earlier | last
    · exact lengths call earlier
    · rw [List.mem_singleton.mp last, counts]

/-- The writer puts bytes at the end of the queue. -/
theorem gave
    {count written chars : Nat} {buf : Nat → Byte}
    (fifo :
      Fifo reader writer (state.goto writer (.writing buf count written)))
    (fits : chars ≤ state.pipe.room) :
    Fifo reader writer
      ((state.gave (Ring.load buf written chars)).goto writer
        (.writing buf (count - chars) (written + chars))) := by
  obtain ⟨inRange, queue, points, reads, writes, lengths⟩ := fifo
  have length : (Ring.load buf written chars).length ≤ state.pipe.room := by
    rwa [Ring.length_load]
  refine ⟨State.inRange_gave inRange _, ?_, ?_, ?_, ?_, lengths⟩
  · have back :
        (state.gave (Ring.load buf written chars)).pipe.contents =
          state.pipe.contents ++ Ring.load buf written chars :=
      contents_gave inRange length
    change state.history.fetched ++
        (state.gave (Ring.load buf written chars)).pipe.contents =
      state.history.stored ++ _
    rw [back, ← List.append_assoc]
    exact congrArg (· ++ _) queue
  · exact forall_goto_goto rfl points
      ⟨rfl, (fun never => nomatch never), fun _ => rfl, trivial⟩
  · refine Eq.trans ?_ reads
    refine congrArg (state.history.readBytes ++ ·) ?_
    apply value_goto_goto Point.got
    · rfl
    · rfl
  · rw [goto_point_self] at writes ⊢
    change state.history.writtenBytes ++ Ring.load buf 0 (written + chars) =
      state.history.stored ++ _
    rw [Ring.load_add, Nat.zero_add, ← List.append_assoc]
    exact congrArg (· ++ _) writes

/-- The writer's call returns; a result of -1 stands for no bytes. -/
theorem writeReturns
    {count written : Nat} {buf : Nat → Byte} {result : Int}
    (fifo :
      Fifo reader writer (state.goto writer (.writing buf count written)))
    (known : result.toNat = written) :
    Fifo reader writer (state.writeReturns writer buf result) := by
  obtain ⟨inRange, queue, points, reads, writes, lengths⟩ := fifo
  have point :
      (state.writeReturns writer buf result).point =
        (state.goto writer (.user result)).point :=
    rfl
  refine ⟨inRange, queue, ?_, ?_, ?_, lengths⟩
  · rw [point]
    exact forall_goto_goto rfl points
      ⟨rfl, (fun never => nomatch never), fun _ => rfl, trivial⟩
  · rw [point]
    refine Eq.trans ?_ reads
    refine congrArg (state.history.readBytes ++ ·) ?_
    apply value_goto_goto Point.got
    · rfl
    · rfl
  · rw [goto_point_self] at writes
    rw [point, goto_point_self]
    change ((state.history.writes ++ [(result, buf)]).map _).flatten ++ [] =
      state.history.stored
    rw [List.map_append, List.flatten_append, List.append_nil]
    change state.history.writtenBytes ++ (Ring.load buf 0 result.toNat ++ []) = _
    rw [List.append_nil, known]
    exact writes

/-! ## Turns -/

theorem readTurn
    {count done : Nat} {buf : List Byte} {after : State ι}
    (fifo : Fifo reader writer (state.goto reader (.reading count done buf)))
    (turn : ReadTurn reader none count done buf state after) :
    Fifo reader writer after := by
  cases turn with
  | ran _ ends =>
    have taken := fifo.took (Nat.min_le_right count state.pipe.size)
    cases ends with
    | returned _ =>
      exact taken.readReturns.congr ⟨rfl, rfl, rfl⟩ rfl rfl
    | slept _ _ =>
      exact taken.congr ⟨rfl, rfl, rfl⟩ rfl rfl
  | stopped known _ =>
    cases known

theorem writeTurn
    {count written : Nat} {buf : Nat → Byte} {after : State ι}
    (fifo :
      Fifo reader writer (state.goto writer (.writing buf count written)))
    (turn : WriteTurn writer none buf count written state after) :
    Fifo reader writer after := by
  cases turn with
  | ran _ ends =>
    have given := fifo.gave (Nat.min_le_right count state.pipe.room)
    cases ends with
    | returned _ =>
      exact (given.writeReturns (Int.toNat_natCast _)).congr
        ⟨rfl, rfl, rfl⟩ rfl rfl
    | broken _ _ =>
      refine (given.writeReturns ?_).congr ⟨rfl, rfl, rfl⟩ rfl rfl
      split
      · exact Int.toNat_natCast _
      · rename_i nothing
        rw [not_not.mp nothing]
        rfl
    | slept _ _ =>
      exact given.congr ⟨rfl, rfl, rfl⟩ rfl rfl
  | stopped known _ =>
    cases known

/-- The step lemma. -/
theorem step
    {initTask : ι} {action : Action ι} {after : State ι}
    (fifo : Fifo reader writer state)
    (stepped : (pipeMachine initTask).Step state action after)
    (resident : action.Resident)
    (mine : action.By reader writer) :
    Fifo reader writer after := by
  have noGetting :
      ∀ task buf chars size count written number,
        state.point task ≠ .getting buf chars size count written number := by
    intro task buf chars size count written number stopped
    have ordinary := (fifo.points task).notStopped
    rw [stopped] at ordinary
    cases ordinary
  have noPutting :
      ∀ task val chars size count done buf,
        state.point task ≠ .putting val chars size count done buf := by
    intro task val chars size count done buf stopped
    have ordinary := (fifo.points task).notStopped
    rw [stopped] at ordinary
    cases ordinary
  have idle {current : ι} (user : (state.point current).isUser = true) :
      (state.point current).got = [] ∧ (state.point current).given = [] := by
    cases point : state.point current with
    | user eax => exact ⟨rfl, rfl⟩
    | _ =>
      rw [point] at user
      cases user
  cases moves_of_step fifo.inRange stepped with
  | @read current count _ after _ user turn =>
    cases resident
    cases mine
    have start :
        Fifo reader writer
          (state.goto reader (.reading count.toNat 0 [])) :=
      fifo.moved ⟨rfl, fun _ => rfl, (fun never => nomatch never), rfl⟩
        (idle user).1.symm (idle user).2.symm
    exact start.readTurn turn
  | @write current buf count _ after _ user turn =>
    cases resident
    cases mine
    have start :
        Fifo reader writer
          (state.goto writer (.writing buf count.toNat 0)) :=
      fifo.moved
        ⟨rfl, (fun never => nomatch never), fun _ => rfl, trivial⟩
        (idle user).1.symm (idle user).2.symm
    exact start.writeTurn turn
  | @resumeRead current _ count done buf after asleep _ turn =>
    cases resident
    have same : current = reader :=
      (fifo.points current).reads (by rw [asleep]; rfl)
    subst same
    have stays :
        ((state.resumed current).goto current
          (.reading count done buf)).point = state.point := by
      change Function.update state.point current _ = state.point
      rw [← asleep, Function.update_eq_self]
    have start :
        Fifo current writer
          ((state.resumed current).goto current
            (.reading count done buf)) :=
      fifo.congr ⟨rfl, rfl, rfl⟩ stays rfl
    exact start.readTurn turn
  | @resumeWrite current _ buf count written after asleep _ turn =>
    cases resident
    have same : current = writer :=
      (fifo.points current).writes (by rw [asleep]; rfl)
    subst same
    have stays :
        ((state.resumed current).goto current
          (.writing buf count written)).point = state.point := by
      change Function.update state.point current _ = state.point
      rw [← asleep, Function.update_eq_self]
    have start :
        Fifo reader current
          ((state.resumed current).goto current
            (.writing buf count written)) :=
      fifo.congr ⟨rfl, rfl, rfl⟩ stays rfl
    exact start.writeTurn turn
  | putMore asleep _ =>
    exact absurd asleep (noPutting _ _ _ _ _ _ _)
  | putSome asleep _ =>
    exact absurd asleep (noPutting _ _ _ _ _ _ _)
  | getMore asleep _ =>
    exact absurd asleep (noGetting _ _ _ _ _ _ _)
  | getSome asleep _ =>
    exact absurd asleep (noGetting _ _ _ _ _ _ _)
  | closeRead _ _ =>
    exact fifo.congr ⟨rfl, rfl, rfl⟩ rfl rfl
  | closeWrite _ _ =>
    exact fifo.congr ⟨rfl, rfl, rfl⟩ rfl rfl

theorem of_initial
    {initTask : ι}
    (initial : (pipeMachine initTask).initial state) :
    Fifo reader writer state := by
  obtain ⟨⟨head, tail, _⟩, _, users, _, history⟩ := initial
  have idle (task : ι) :
      (state.point task).Ordinary reader writer task ∧
        (state.point task).got = [] ∧ (state.point task).given = [] := by
    have user := users task
    cases point : state.point task with
    | user eax =>
      exact ⟨⟨rfl, (fun never => nomatch never),
        (fun never => nomatch never), trivial⟩, rfl, rfl⟩
    | _ =>
      rw [point] at user
      cases user
  have empty : state.pipe.contents = [] := by
    unfold Pipe.contents Pipe.size
    rw [head, tail]
    rfl
  refine ⟨⟨by rw [head]; decide, by rw [tail]; decide⟩, ?_,
    fun task => (idle task).1, ?_, ?_, ?_⟩
  · rw [history, empty]
    rfl
  · rw [(idle reader).2.1, history]
    rfl
  · rw [(idle writer).2.2, history]
    rfl
  · rw [history]
    exact fun _ member => nomatch member

end Fifo

/--
A pipe is a queue.  What its reader has read, followed by what it holds, is what its
writer has written; each call of either has transferred the next bytes.
-/
theorem pipe_is_queue
    {initTask reader writer : ι} {actions : List (Action ι)}
    {start state : State ι}
    (initial : (pipeMachine initTask).initial start)
    (run :
      Traces
        (fun action before after =>
          (pipeMachine initTask).Step before action after ∧
            action.Resident ∧ action.By reader writer)
        actions start state) :
    state.history.fetched ++ state.pipe.contents = state.history.stored ∧
      state.history.stored.length ≤ state.history.fetched.length + 4095 ∧
      state.history.readBytes ++ (state.point reader).got = state.history.fetched ∧
      state.history.writtenBytes ++ (state.point writer).given = state.history.stored ∧
      ∀ call ∈ state.history.reads, call.1 = (call.2.length : Int) := by
  have fifo : Fifo reader writer state :=
    run.invariant
      (fun _ _ _ fifo stepped => fifo.step stepped.1 stepped.2.1 stepped.2.2)
      (Fifo.of_initial initial)
  refine ⟨fifo.queue, ?_, fifo.reads, fifo.writes, fifo.lengths⟩
  have small := state.pipe.size_lt
  rw [← fifo.queue, List.length_append]
  unfold Pipe.contents
  rw [Ring.length_window]
  unfold pageSize at small
  omega

/-- A reader that waits for a writer, which gives it more than it asked for. -/
def asking : List (Action Nat) :=
  [.read 1 2 none, .write 2 (fun i => BitVec.ofNat 8 (i + 7)) 3 none, .resume 1 none]

theorem pipe_is_queue_asking :
    ∃ state : State Nat,
      state.history.reads = [(2, [7#8, 8#8])] ∧
      state.pipe.contents = [9#8] ∧
      state.history.fetched ++ state.pipe.contents = state.history.stored := by
  have passed :
      ((pipeMachine 0).follow Action.check asking (newPipe fun _ => 0#8)).any
        (fun state =>
          state.history.reads == [(2, [7#8, 8#8])] &&
            state.pipe.contents == [9#8]) = true := by
    decide +kernel
  obtain ⟨state, followed, test⟩ := (Option.any_eq_true _ _).mp passed
  simp only [Bool.and_eq_true, beq_iff_eq] at test
  have known :
      ∀ action ∈ asking, action.Resident ∧ action.By 1 2 := by
    simp [asking, Action.Resident, Action.By]
  have run := (traces_of_follow followed).attach known
  exact
    ⟨state, test.1, test.2, (pipe_is_queue (newPipe_initial _) run).1⟩

end Pipes

end HitOs
