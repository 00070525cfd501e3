import HitOs.Pipes

namespace HitOs

/-!
# The turns of readers and writers

The loops of `read_pipe` and `write_pipe` split a transfer where the ring ends.  Seen
from outside, a turn takes all the bytes it can get, or gives all that there is room
for; or it is stopped in a copy loop, with `PIPE_TAIL` or `PIPE_HEAD` moved already.
-/

namespace Pipes

open Routine
open WaitQueue (sleepOn sleepOnResumed wakeUp)

variable {ι : Type}

/-! ## Points -/

section Points

variable [DecidableEq ι] {state : State ι} {current task : ι} {point : Point}

@[simp] theorem goto_point_self :
    (state.goto current point).point current = point :=
  Function.update_self _ _ _

@[simp] theorem goto_point_of_ne
    (different : task ≠ current) :
    (state.goto current point).point task = state.point task :=
  Function.update_of_ne different _ _

@[simp] theorem readReturns_point_self
    {done : Nat} {buf : List Byte} :
    (state.readReturns current done buf).point current = .user done :=
  Function.update_self _ _ _

@[simp] theorem writeReturns_point_self
    {written : Int} {buf : Nat → Byte} :
    (state.writeReturns current buf written).point current = .user written :=
  Function.update_self _ _ _

/-- What holds where a task has gone, and of all others, holds of all. -/
theorem forall_goto
    {property : ι → Point → Prop}
    (here : property current point)
    (there : ∀ task, property task (state.point task))
    (task : ι) :
    property task ((state.goto current point).point task) := by
  by_cases same : task = current
  · subst same
    rw [goto_point_self]
    exact here
  · rw [goto_point_of_ne same]
    exact there task

/-- The same, for a task that has gone on from one point to another. -/
theorem forall_goto_goto
    {state' : State ι} {next : Point} {property : ι → Point → Prop}
    (same : state'.point = state.point)
    (there : ∀ task, property task ((state.goto current point).point task))
    (here : property current next)
    (task : ι) :
    property task ((state'.goto current next).point task) := by
  by_cases mine : task = current
  · rw [mine, goto_point_self]
    exact here
  · have before := there task
    rw [goto_point_of_ne mine] at before ⊢
    rw [same]
    exact before

/-- What a point stands for is the same, if it is where the task has gone. -/
theorem value_goto_goto
    {α : Type} {state' : State ι} {next : Point}
    (value : Point → α)
    (same : state'.point = state.point)
    (here : value next = value point)
    (task : ι) :
    value ((state'.goto current next).point task) =
      value ((state.goto current point).point task) := by
  by_cases mine : task = current
  · rw [mine, goto_point_self, goto_point_self, here]
  · rw [goto_point_of_ne mine, goto_point_of_ne mine, same]

end Points

/-! ## Sizes -/

/-- The indices are places of the page. -/
structure Pipe.InRange (pipe : Pipe) : Prop where
  head : pipe.head < pageSize
  tail : pipe.tail < pageSize

theorem Pipe.size_lt (pipe : Pipe) : pipe.size < pageSize := by
  unfold Pipe.size pageSize
  omega

/-- The bytes that a pipe has room for. -/
def Pipe.room (pipe : Pipe) : Nat :=
  pageSize - 1 - pipe.size

namespace State

/-- A reader has taken bytes. -/
def took (chars : Nat) (state : State ι) : State ι :=
  (state.release chars).fetch
    (Ring.window pageSize state.pipe.page state.pipe.tail chars)

/-- A writer has given bytes. -/
def gave (bytes : List Byte) (state : State ι) : State ι :=
  { state with
    pipe :=
      { state.pipe with
        head := (state.pipe.head + bytes.length) % pageSize
        page := Ring.store pageSize bytes state.pipe.head state.pipe.page }
    history :=
      { state.history with
        claimed := state.history.claimed + bytes.length
        serial :=
          Ring.store pageSize
            ((List.range' state.history.claimed bytes.length).map some)
            state.pipe.head state.history.serial
        stored := state.history.stored ++ bytes } }

variable {state : State ι}

theorem took_took (first second : Nat) :
    (state.took first).took second = state.took (first + second) := by
  unfold took release fetch
  simp only [Nat.mod_add_mod, Nat.add_assoc, List.append_assoc,
    Ring.window_mod, Ring.window_add]

theorem gave_gave (first second : List Byte) :
    (state.gave first).gave second = state.gave (first ++ second) := by
  unfold gave
  simp only [Nat.mod_add_mod, List.length_append, Nat.add_assoc,
    List.append_assoc, Ring.store_mod, Ring.store_append,
    ← List.range'_append_1, List.map_append, List.length_map,
    List.length_range']

theorem took_zero (inRange : state.pipe.InRange) : state.took 0 = state := by
  have same : state.pipe.tail % pageSize = state.pipe.tail :=
    Nat.mod_eq_of_lt inRange.tail
  unfold took release fetch
  simp only [Nat.add_zero, same, Ring.window_zero, List.append_nil]

theorem gave_nil (inRange : state.pipe.InRange) : state.gave [] = state := by
  have same : state.pipe.head % pageSize = state.pipe.head :=
    Nat.mod_eq_of_lt inRange.head
  unfold gave
  simp only [List.length_nil, Nat.add_zero, same, List.append_nil]
  rfl

theorem inRange_took
    (inRange : state.pipe.InRange)
    (chars : Nat) :
    (state.took chars).pipe.InRange :=
  ⟨inRange.head, Nat.mod_lt _ (by decide)⟩

theorem inRange_gave
    (inRange : state.pipe.InRange)
    (bytes : List Byte) :
    (state.gave bytes).pipe.InRange :=
  ⟨Nat.mod_lt _ (by decide), inRange.tail⟩

theorem size_took
    {chars : Nat}
    (inRange : state.pipe.InRange)
    (stored : chars ≤ state.pipe.size) :
    (state.took chars).pipe.size = state.pipe.size - chars := by
  obtain ⟨head, tail⟩ := inRange
  unfold pageSize at head tail
  change (((state.pipe.head : Int) -
    ((state.pipe.tail + chars) % pageSize : Nat)) % pageSize).toNat = _
  unfold Pipe.size pageSize at stored ⊢
  omega

theorem size_gave
    {bytes : List Byte}
    (inRange : state.pipe.InRange)
    (room : state.pipe.size + bytes.length < pageSize) :
    (state.gave bytes).pipe.size = state.pipe.size + bytes.length := by
  obtain ⟨head, tail⟩ := inRange
  unfold pageSize at head tail
  change ((((state.pipe.head + bytes.length) % pageSize : Nat) -
    (state.pipe.tail : Int)) % pageSize).toNat = _
  unfold Pipe.size pageSize at room ⊢
  omega

/-- The room that is left when bytes have been given. -/
theorem room_gave
    {bytes : List Byte}
    (inRange : state.pipe.InRange)
    (fits : bytes.length ≤ state.pipe.room) :
    (state.gave bytes).pipe.room = state.pipe.room - bytes.length := by
  have small := state.pipe.size_lt
  have size :
      (state.gave bytes).pipe.size = state.pipe.size + bytes.length :=
    size_gave inRange (by
      unfold Pipe.room at fits
      omega)
  unfold Pipe.room
  rw [size, Nat.sub_sub _ state.pipe.size]

/-- Bytes that are stored behind the old head are given. -/
theorem claim_store
    {chars : Nat} {bytes : List Byte}
    (around : state.pipe.head + bytes.length ≤ pageSize)
    (upTo : bytes.length ≤ chars) :
    (state.claim chars).store bytes state.pipe.head state.history.claimed =
      (state.gave bytes).claim (chars - bytes.length) := by
  have page :
      Ring.fill bytes state.pipe.head state.pipe.page =
        Ring.store pageSize bytes state.pipe.head state.pipe.page :=
    Ring.fill_eq_store around
  have serial :
      Ring.fill ((List.range' state.history.claimed bytes.length).map some)
          state.pipe.head state.history.serial =
        Ring.store pageSize
          ((List.range' state.history.claimed bytes.length).map some)
          state.pipe.head state.history.serial :=
    Ring.fill_eq_store (by rwa [List.length_map, List.length_range'])
  unfold store claim gave
  simp only [page, serial, Nat.mod_add_mod, Nat.add_assoc, Nat.add_sub_cancel' upTo]

theorem gave_claim_zero
    {bytes : List Byte} :
    (state.gave bytes).claim 0 = state.gave bytes := by
  unfold claim gave
  simp only [Nat.add_zero, Nat.mod_mod]

end State

/-! ## Reading -/

section Reading

variable [DecidableEq ι] {initTask current : ι} {state : State ι}
variable {fault : Option Nat} {count done : Nat} {buf : List Byte}

/-- How `read_pipe` ends or goes to sleep when it can take no more bytes. -/
def readEnds
    (initTask current : ι)
    (count done : Nat)
    (buf : List Byte) : Routine (State ι) Unit :=
  if count = 0 then readDone current done buf
  else readEmpty initTask current count done buf

/-- The copy loop where all the bytes of the buffer are there. -/
theorem putBytes_copied
    {chars size : Nat}
    (present : ∀ bytes, fault = some bytes → chars ≤ bytes) :
    putBytes current fault chars size count done buf state =
      .ret
        (some (fault.map fun bytes => bytes - chars,
          buf ++ Ring.load state.pipe.page size chars))
        (state.fetch (Ring.load state.pipe.page size chars)) := by
  have all : min (fault.getD chars) chars = chars := by
    cases fault with
    | none => exact Nat.min_self _
    | some bytes => exact Nat.min_eq_right (present bytes rfl)
  unfold putBytes
  simp only [bind, andThen, Routine.read, update, all, Nat.lt_irrefl, if_false]
  rfl

/-- The copy loop where a byte of the buffer is missing. -/
theorem putBytes_missing
    {chars size present : Nat}
    (missing : present < chars) :
    putBytes current (some present) chars size count done buf state =
      .ret none
        ((state.fetch (Ring.load state.pipe.page size present)).goto current
          (.putting (state.pipe.page (size + present)) (chars - present - 1)
            (size + present + 1) count done
            (buf ++ Ring.load state.pipe.page size present))) := by
  have isSome : min ((some present).getD chars) chars = present :=
    Nat.min_eq_left (Nat.le_of_lt missing)
  unfold putBytes
  simp only [bind, andThen, Routine.read, update, isSome, missing, if_true]
  rfl

/-- The copy loop of a pass, which does not go around the ring. -/
theorem putBytes_all
    {chars : Nat}
    (around : state.pipe.tail + chars ≤ pageSize)
    (present : ∀ bytes, fault = some bytes → chars ≤ bytes) :
    putBytes current fault chars state.pipe.tail count done buf
        (state.release chars) =
      .ret
        (some (fault.map fun bytes => bytes - chars,
          buf ++ Ring.window pageSize state.pipe.page state.pipe.tail chars))
        (state.took chars) := by
  rw [putBytes_copied present, State.took, ← Ring.load_eq_window around]
  rfl

/-- The bytes of the next pass. -/
def chunk (index total : Nat) : Nat :=
  min (pageSize - index) total

theorem chunk_bounds
    {index total : Nat}
    (inRange : index < pageSize)
    (more : total ≠ 0) :
    0 < chunk index total ∧ chunk index total ≤ total ∧
      index + chunk index total ≤ pageSize := by
  unfold chunk
  omega

/-- One pass of the loop of `read_pipe`. -/
theorem readLoop_pass
    (fuel : Nat)
    (more : min count state.pipe.size ≠ 0) :
    readLoop initTask current (fuel + 1) fault count done buf state =
      (do
        let chars := chunk state.pipe.tail (min count state.pipe.size)
        match ← putBytes current fault chars state.pipe.tail (count - chars)
            (done + chars) buf with
        | none =>
          pure ()
        | some (fault, buf) =>
          readLoop initTask current fuel fault (count - chars)
            (done + chars) buf)
        (state.release
          (chunk state.pipe.tail (min count state.pipe.size))) := by
  have chars :
      (if state.pipe.size <
          (if count < pageSize - state.pipe.tail then count
            else pageSize - state.pipe.tail) then state.pipe.size
        else if count < pageSize - state.pipe.tail then count
          else pageSize - state.pipe.tail) =
        chunk state.pipe.tail (min count state.pipe.size) := by
    unfold chunk
    split <;> split at * <;> omega
  rw [readLoop]
  change
    (if count = 0 then _ else if state.pipe.size = 0 then _ else _ :
      Routine (State ι) Unit) state = _
  rw [if_neg (by omega), if_neg (by omega), chars]
  rfl

/-- The last pass of the loop of `read_pipe`. -/
theorem readLoop_ends
    (fuel : Nat)
    (nothing : min count state.pipe.size = 0) :
    readLoop initTask current (fuel + 1) fault count done buf state =
      readEnds initTask current count done buf state := by
  rw [readLoop]
  change
    (if count = 0 then _ else if state.pipe.size = 0 then _ else _ :
      Routine (State ι) Unit) state = _
  unfold readEnds
  by_cases zero : count = 0
  · rw [if_pos zero, if_pos zero]
  · rw [if_neg zero, if_neg zero, if_pos (by omega)]

/-- A turn that no page fault stops takes all the bytes that it can get. -/
theorem readLoop_resident
    {fuel : Nat}
    (inRange : state.pipe.InRange)
    (enough : count < fuel)
    (present :
      ∀ bytes, fault = some bytes → min count state.pipe.size ≤ bytes) :
    readLoop initTask current fuel fault count done buf state =
      readEnds initTask current (count - min count state.pipe.size)
        (done + min count state.pipe.size)
        (buf ++ Ring.window pageSize state.pipe.page state.pipe.tail
          (min count state.pipe.size))
        (state.took (min count state.pipe.size)) := by
  induction fuel generalizing state fault count done buf with
  | zero =>
    exact absurd enough (Nat.not_lt_zero _)
  | succ fuel inductionHypothesis =>
    by_cases nothing : min count state.pipe.size = 0
    · rw [readLoop_ends fuel nothing, nothing, State.took_zero inRange,
        Ring.window_zero, List.append_nil, Nat.sub_zero, Nat.add_zero]
    · obtain ⟨positive, upTo, around⟩ :=
        chunk_bounds inRange.tail nothing
      rw [readLoop_pass fuel nothing]
      generalize chunk state.pipe.tail (min count state.pipe.size) = chars
        at positive upTo around
      have copied :
          putBytes current fault chars state.pipe.tail (count - chars)
              (done + chars) buf (state.release chars) = _ :=
        putBytes_all around
          fun bytes known => Nat.le_trans upTo (present bytes known)
      have size := State.size_took inRange
        (Nat.le_trans upTo (Nat.min_le_right _ _))
      have left :
          min (count - chars) (state.took chars).pipe.size =
            min count state.pipe.size - chars := by
        rw [size]
        omega
      rw [bind_of_ret copied]
      simp only
      rw [inductionHypothesis (State.inRange_took inRange chars) (by omega),
        left, State.took_took]
      · have whole :
            chars + (min count state.pipe.size - chars) = min count state.pipe.size :=
          Nat.add_sub_cancel' upTo
        have counted :
            count - chars - (min count state.pipe.size - chars) =
              count - min count state.pipe.size := by
          omega
        have window :
            Ring.window pageSize state.pipe.page state.pipe.tail
                (min count state.pipe.size) =
              Ring.window pageSize state.pipe.page state.pipe.tail chars ++
                Ring.window pageSize (state.took chars).pipe.page
                  (state.took chars).pipe.tail
                  (min count state.pipe.size - chars) := by
          rw [← whole, Ring.window_add, whole]
          exact congrArg _ Ring.window_mod.symm
        rw [whole, counted, window, List.append_assoc, Nat.add_assoc, whole]
      · rw [left]
        intro bytes known
        obtain ⟨before, shape, rfl⟩ := Option.map_eq_some_iff.mp known
        exact Nat.sub_le_sub_right (present before shape) chars

/-- The bytes that a pass claims in which a page is missing at a byte. -/
def chunkEnd (index total present : Nat) : Nat :=
  if present < pageSize - index then chunk index total else total

/-- A turn of a reader that a page fault stops after some bytes. -/
def State.putStopped
    (current : ι)
    (present chars count done : Nat)
    (buf : List Byte)
    (state : State ι) : State ι :=
  ((state.release chars).fetch
    (Ring.window pageSize state.pipe.page state.pipe.tail present)).goto
      current
      (.putting (state.pipe.page ((state.pipe.tail + present) % pageSize))
        (chars - present - 1) ((state.pipe.tail + present) % pageSize + 1)
        (count - chars) (done + chars)
        (buf ++ Ring.window pageSize state.pipe.page state.pipe.tail present))

theorem putStopped_took
    {present : Nat}
    (before chars : Nat) :
    (state.took before).putStopped current present chars (count - before)
        (done + before)
        (buf ++ Ring.window pageSize state.pipe.page state.pipe.tail before) =
      state.putStopped current (before + present) (before + chars) count done
        buf := by
  unfold State.putStopped State.took State.release State.fetch State.goto
  simp only [Nat.mod_add_mod, Nat.add_assoc, List.append_assoc,
    Ring.window_mod, Ring.window_add, Nat.sub_sub, Nat.add_sub_add_left]

theorem putBytes_stops
    {chars present : Nat}
    (count done : Nat)
    (buf : List Byte)
    (around : state.pipe.tail + chars ≤ pageSize)
    (missing : present < chars) :
    putBytes current (some present) chars state.pipe.tail (count - chars)
        (done + chars) buf (state.release chars) =
      .ret none (state.putStopped current present chars count done buf) := by
  have loaded :
      Ring.load state.pipe.page state.pipe.tail present =
        Ring.window pageSize state.pipe.page state.pipe.tail present :=
    Ring.load_eq_window (by omega)
  have place : (state.pipe.tail + present) % pageSize =
      state.pipe.tail + present :=
    Nat.mod_eq_of_lt (by omega)
  rw [putBytes_missing missing, State.putStopped, place, ← loaded]
  rfl

/-- A turn of a reader that is stopped has moved `PIPE_TAIL` to the end of a pass. -/
theorem readLoop_stopped
    {fuel present : Nat}
    (inRange : state.pipe.InRange)
    (enough : count < fuel)
    (missing : present < min count state.pipe.size) :
    readLoop initTask current fuel (some present) count done buf state =
      .ret ()
        (state.putStopped current present
          (chunkEnd state.pipe.tail (min count state.pipe.size) present)
          count done buf) := by
  induction fuel generalizing state count done buf present with
  | zero =>
    exact absurd enough (Nat.not_lt_zero _)
  | succ fuel inductionHypothesis =>
    have more : min count state.pipe.size ≠ 0 := Nat.ne_zero_of_lt missing
    obtain ⟨positive, upTo, around⟩ := chunk_bounds inRange.tail more
    rw [readLoop_pass fuel more]
    by_cases now :
        present < chunk state.pipe.tail (min count state.pipe.size)
    · have first : present < pageSize - state.pipe.tail := by
        unfold chunk at now
        omega
      rw [bind_of_ret (putBytes_stops count done buf around now)]
      unfold chunkEnd
      rw [if_pos first]
      rfl
    · have later : ¬ present < pageSize - state.pipe.tail := by
        unfold chunk at now
        omega
      have whole :
          state.pipe.tail +
              chunk state.pipe.tail (min count state.pipe.size) =
            pageSize := by
        unfold chunk at now ⊢
        omega
      generalize chunk state.pipe.tail (min count state.pipe.size) = chars
        at positive upTo around now whole
      have copied :
          putBytes current (some present) chars state.pipe.tail
              (count - chars) (done + chars) buf (state.release chars) = _ :=
        putBytes_all around fun bytes known => by
          cases known
          exact Nat.not_lt.mp now
      have size := State.size_took inRange
        (Nat.le_trans upTo (Nat.min_le_right _ _))
      have left :
          min (count - chars) (state.took chars).pipe.size =
            min count state.pipe.size - chars := by
        rw [size]
        omega
      have start : (state.took chars).pipe.tail = 0 := by
        change (state.pipe.tail + chars) % pageSize = 0
        rw [whole, Nat.mod_self]
      have last :
          chars +
              chunkEnd 0 (min count state.pipe.size - chars)
                (present - chars) =
            chunkEnd state.pipe.tail (min count state.pipe.size)
              present := by
        have small := state.pipe.size_lt
        unfold chunkEnd chunk
        rw [if_neg later, if_pos (by omega)]
        omega
      rw [bind_of_ret copied]
      simp only [Option.map_some]
      rw [inductionHypothesis (State.inRange_took inRange chars) (by omega)
          (by rw [left]; omega),
        left, start, putStopped_took, last,
        Nat.add_sub_cancel' (Nat.not_lt.mp now)]

end Reading

/-! ## Writing -/

section Writing

variable [DecidableEq ι] {initTask current : ι} {state : State ι}
variable {fault : Option Nat} {count written : Nat}
variable {buf : Nat → Byte}

/-- How `write_pipe` ends or goes to sleep when it can give no more bytes. -/
def writeEnds
    (initTask current : ι)
    (buf : Nat → Byte)
    (count written : Nat) : Routine (State ι) Unit :=
  if count = 0 then writeDone current buf written
  else writeFull initTask current buf count written

/-- The copy loop where all the bytes of the buffer are there. -/
theorem getBytes_copied
    {chars size number : Nat}
    (present : ∀ bytes, fault = some bytes → chars ≤ bytes) :
    getBytes current fault buf chars size count written number state =
      .ret (some (fault.map fun bytes => bytes - chars))
        (state.store (Ring.load buf (written - chars) chars) size number) := by
  have all : min (fault.getD chars) chars = chars := by
    cases fault with
    | none => exact Nat.min_self _
    | some bytes => exact Nat.min_eq_right (present bytes rfl)
  unfold getBytes
  simp only [bind, andThen, update, all, Nat.lt_irrefl, if_false]
  rfl

/-- The copy loop where a byte of the buffer is missing. -/
theorem getBytes_missing
    {chars size number present : Nat}
    (missing : present < chars) :
    getBytes current (some present) buf chars size count written number
        state =
      .ret none
        ((state.store (Ring.load buf (written - chars) present) size
          number).goto current
            (.getting buf (chars - present) (size + present) count written
              (number + present))) := by
  have isSome : min ((some present).getD chars) chars = present :=
    Nat.min_eq_left (Nat.le_of_lt missing)
  unfold getBytes
  simp only [bind, andThen, update, isSome, missing, if_true]
  rfl

/-- The copy loop of a pass, which does not go around the ring. -/
theorem getBytes_all
    {chars : Nat}
    (around : state.pipe.head + chars ≤ pageSize)
    (present : ∀ bytes, fault = some bytes → chars ≤ bytes) :
    getBytes current fault buf chars state.pipe.head count (written + chars)
        state.history.claimed (state.claim chars) =
      .ret (some (fault.map fun bytes => bytes - chars))
        (state.gave (Ring.load buf written chars)) := by
  rw [getBytes_copied present, Nat.add_sub_cancel,
    State.claim_store (by rwa [Ring.length_load])
      (Nat.le_of_eq Ring.length_load),
    Ring.length_load, Nat.sub_self, State.gave_claim_zero]

/-- One pass of the loop of `write_pipe`. -/
theorem writeLoop_pass
    (fuel : Nat)
    (more : min count state.pipe.room ≠ 0) :
    writeLoop initTask current buf (fuel + 1) fault count written state =
      (do
        let chars := chunk state.pipe.head (min count state.pipe.room)
        match ← getBytes current fault buf chars state.pipe.head
            (count - chars) (written + chars) state.history.claimed with
        | none =>
          pure ()
        | some fault =>
          writeLoop initTask current buf fuel fault (count - chars)
            (written + chars))
        (state.claim
          (chunk state.pipe.head (min count state.pipe.room))) := by
  have chars :
      (if state.pipe.room <
          (if count < pageSize - state.pipe.head then count
            else pageSize - state.pipe.head) then state.pipe.room
        else if count < pageSize - state.pipe.head then count
          else pageSize - state.pipe.head) =
        chunk state.pipe.head (min count state.pipe.room) := by
    unfold chunk
    split <;> split at * <;> omega
  rw [writeLoop]
  change
    (if count = 0 then _ else if state.pipe.room = 0 then _ else _ :
      Routine (State ι) Unit) state = _
  rw [if_neg (by omega), if_neg (by omega)]
  unfold Pipe.room at chars
  rw [chars]
  rfl

/-- The last pass of the loop of `write_pipe`. -/
theorem writeLoop_ends
    (fuel : Nat)
    (nothing : min count state.pipe.room = 0) :
    writeLoop initTask current buf (fuel + 1) fault count written state =
      writeEnds initTask current buf count written state := by
  rw [writeLoop]
  change
    (if count = 0 then _ else if state.pipe.room = 0 then _ else _ :
      Routine (State ι) Unit) state = _
  unfold writeEnds
  by_cases zero : count = 0
  · rw [if_pos zero, if_pos zero]
  · rw [if_neg zero, if_neg zero, if_pos (by omega)]

/-- A turn that no page fault stops gives all the bytes there is room for. -/
theorem writeLoop_resident
    {fuel : Nat}
    (inRange : state.pipe.InRange)
    (enough : count < fuel)
    (present :
      ∀ bytes, fault = some bytes → min count state.pipe.room ≤ bytes) :
    writeLoop initTask current buf fuel fault count written state =
      writeEnds initTask current buf (count - min count state.pipe.room)
        (written + min count state.pipe.room)
        (state.gave
          (Ring.load buf written (min count state.pipe.room))) := by
  induction fuel generalizing state fault count written with
  | zero =>
    exact absurd enough (Nat.not_lt_zero _)
  | succ fuel inductionHypothesis =>
    by_cases nothing : min count state.pipe.room = 0
    · rw [writeLoop_ends fuel nothing, nothing, Ring.load_zero,
        State.gave_nil inRange, Nat.sub_zero, Nat.add_zero]
    · obtain ⟨positive, upTo, around⟩ :=
        chunk_bounds inRange.head nothing
      rw [writeLoop_pass fuel nothing]
      generalize chunk state.pipe.head (min count state.pipe.room) = chars
        at positive upTo around
      have copied :
          getBytes current fault buf chars state.pipe.head (count - chars)
              (written + chars) state.history.claimed
              (state.claim chars) = _ :=
        getBytes_all around
          fun bytes known => Nat.le_trans upTo (present bytes known)
      have left :
          min (count - chars)
              (state.gave (Ring.load buf written chars)).pipe.room =
            min count state.pipe.room - chars := by
        rw [State.room_gave inRange, Ring.length_load]
        · omega
        · rw [Ring.length_load]
          omega
      rw [bind_of_ret copied]
      simp only
      rw [inductionHypothesis (State.inRange_gave inRange _) (by omega),
        left, State.gave_gave, ← Ring.load_add]
      · have whole :
            chars + (min count state.pipe.room - chars) = min count state.pipe.room :=
          Nat.add_sub_cancel' upTo
        have counted :
            count - chars - (min count state.pipe.room - chars) =
              count - min count state.pipe.room := by
          omega
        rw [whole, counted, Nat.add_assoc, whole]
      · rw [left]
        intro bytes known
        obtain ⟨before, shape, rfl⟩ := Option.map_eq_some_iff.mp known
        exact Nat.sub_le_sub_right (present before shape) chars

/-- A turn of a writer that a page fault stops after some bytes. -/
def State.getStopped
    (current : ι)
    (buf : Nat → Byte)
    (present chars count written : Nat)
    (state : State ι) : State ι :=
  ((state.gave (Ring.load buf written present)).claim
    (chars - present)).goto current
      (.getting buf (chars - present) ((state.pipe.head + present) % pageSize)
        (count - chars) (written + chars) (state.history.claimed + present))

theorem getStopped_gave
    {present : Nat}
    (before chars : Nat) :
    (state.gave (Ring.load buf written before)).getStopped current buf present
        chars (count - before) (written + before) =
      state.getStopped current buf (before + present) (before + chars) count
        written := by
  unfold State.getStopped
  rw [State.gave_gave, ← Ring.load_add, Nat.sub_sub, Nat.add_assoc,
    Nat.add_sub_add_left]
  unfold State.gave State.claim State.goto
  simp only [Ring.length_load, Nat.mod_add_mod, Nat.add_assoc]

theorem getBytes_stops
    {chars present : Nat}
    (count written : Nat)
    (buf : Nat → Byte)
    (around : state.pipe.head + chars ≤ pageSize)
    (missing : present < chars) :
    getBytes current (some present) buf chars state.pipe.head (count - chars)
        (written + chars) state.history.claimed (state.claim chars) =
      .ret none
        (state.getStopped current buf present chars count written) := by
  have place : (state.pipe.head + present) % pageSize =
      state.pipe.head + present :=
    Nat.mod_eq_of_lt (by omega)
  rw [getBytes_missing missing, Nat.add_sub_cancel, State.getStopped, place,
    State.claim_store (by rw [Ring.length_load]; omega)
      (by rw [Ring.length_load]; omega),
    Ring.length_load]

/-- A turn of a writer that is stopped has moved `PIPE_HEAD` to the end of a pass. -/
theorem writeLoop_stopped
    {fuel present : Nat}
    (inRange : state.pipe.InRange)
    (enough : count < fuel)
    (missing : present < min count state.pipe.room) :
    writeLoop initTask current buf fuel (some present) count written state =
      .ret ()
        (state.getStopped current buf present
          (chunkEnd state.pipe.head (min count state.pipe.room) present)
          count written) := by
  induction fuel generalizing state count written present with
  | zero =>
    exact absurd enough (Nat.not_lt_zero _)
  | succ fuel inductionHypothesis =>
    have more : min count state.pipe.room ≠ 0 := Nat.ne_zero_of_lt missing
    obtain ⟨positive, upTo, around⟩ := chunk_bounds inRange.head more
    rw [writeLoop_pass fuel more]
    by_cases now :
        present < chunk state.pipe.head (min count state.pipe.room)
    · have first : present < pageSize - state.pipe.head := by
        unfold chunk at now
        omega
      rw [bind_of_ret (getBytes_stops count written buf around now)]
      unfold chunkEnd
      rw [if_pos first]
      rfl
    · have later : ¬ present < pageSize - state.pipe.head := by
        unfold chunk at now
        omega
      have whole :
          state.pipe.head +
              chunk state.pipe.head (min count state.pipe.room) =
            pageSize := by
        unfold chunk at now ⊢
        omega
      generalize chunk state.pipe.head (min count state.pipe.room) = chars
        at positive upTo around now whole
      have copied :
          getBytes current (some present) buf chars state.pipe.head
              (count - chars) (written + chars) state.history.claimed
              (state.claim chars) = _ :=
        getBytes_all around fun bytes known => by
          cases known
          exact Nat.not_lt.mp now
      have left :
          min (count - chars)
              (state.gave (Ring.load buf written chars)).pipe.room =
            min count state.pipe.room - chars := by
        rw [State.room_gave inRange, Ring.length_load]
        · omega
        · rw [Ring.length_load]
          omega
      have start :
          (state.gave (Ring.load buf written chars)).pipe.head = 0 := by
        change (state.pipe.head + (Ring.load buf written chars).length) % pageSize = 0
        rw [Ring.length_load, whole, Nat.mod_self]
      have last :
          chars +
              chunkEnd 0 (min count state.pipe.room - chars)
                (present - chars) =
            chunkEnd state.pipe.head (min count state.pipe.room)
              present := by
        unfold chunkEnd chunk Pipe.room pageSize at *
        rw [if_neg later, if_pos (by omega)]
        omega
      rw [bind_of_ret copied]
      simp only [Option.map_some]
      rw [inductionHypothesis (State.inRange_gave inRange _) (by omega)
          (by rw [left]; omega),
        left, start, getStopped_gave, last,
        Nat.add_sub_cancel' (Nat.not_lt.mp now)]

end Writing

end Pipes

end HitOs
