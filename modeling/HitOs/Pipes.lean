import HitOs.Rings
import HitOs.WaitQueue

namespace HitOs

/-!
# Pipes

`read_pipe` and `write_pipe` on the page of one pipe, and the `iput` that closes an
end.  A call runs until it returns, sleeps in `sleep_on`, or takes a page fault in
`put_fs_byte` or `get_fs_byte`; how many bytes of the user's buffer are there before
a page is missing is an argument of each turn.
-/

namespace Pipes

open Routine
open WaitQueue (sleepOn sleepOnResumed wakeUp)

abbrev Byte := BitVec 8

/-- `PAGE_SIZE` -/
def pageSize : Nat := 4096

/-- `SIGPIPE` -/
def sigPipe : Nat := 13

/-- The inode of a pipe; `count` is `i_count`, and `page` is at `i_size`. -/
structure Pipe where
  /-- `PIPE_HEAD` -/
  head : Nat
  /-- `PIPE_TAIL` -/
  tail : Nat
  count : Nat
  page : Nat → Byte

/-- `PIPE_SIZE` -/
def Pipe.size (pipe : Pipe) : Nat :=
  (((pipe.head : Int) - pipe.tail) % pageSize).toNat

/-- Where a task is when it does not run. -/
inductive Point where
  /-- In user mode, with the result of its last call. -/
  | user (eax : Int)
  /-- In the `sleep_on` of `read_pipe`; `buf` has the bytes that are put. -/
  | reading (count done : Nat) (buf : List Byte)
  /--
  In `put_fs_byte`, with the byte in a register and `chars` more to copy from
  index `size` on.
  -/
  | putting (val : Byte) (chars size count done : Nat) (buf : List Byte)
  /-- In the `sleep_on` of `write_pipe`. -/
  | writing (buf : Nat → Byte) (count written : Nat)
  /--
  In `get_fs_byte`, with `chars` bytes to copy to index `size` on; the first of
  them has the given number.
  -/
  | getting (buf : Nat → Byte) (chars size count written number : Nat)

namespace Point

def isUser : Point → Bool
  | .user _ => true
  | _ => false

def isReader : Point → Bool
  | .reading _ _ _ | .putting _ _ _ _ _ _ => true
  | _ => false

def isWriter : Point → Bool
  | .writing _ _ _ | .getting _ _ _ _ _ _ => true
  | _ => false

/-- Whether the task is in `sleep_on`. -/
def isAsleep : Point → Bool
  | .reading _ _ _ | .writing _ _ _ => true
  | _ => false

/-- Whether the task waits for a page. -/
def isStopped : Point → Bool
  | .putting _ _ _ _ _ _ | .getting _ _ _ _ _ _ => true
  | _ => false

end Point

/--
What has gone through the pipe; none of this is in the source.  The bytes of the
stream are numbered, and `serial` is the number of the byte that was last stored at
an index.
-/
structure History where
  /-- How far `PIPE_HEAD` and `PIPE_TAIL` have been moved. -/
  claimed : Nat
  released : Nat
  serial : Nat → Option Nat
  /-- The bytes that have been copied in and out. -/
  stored : List Byte
  fetched : List Byte
  /-- The calls that have returned: their results, and their buffers. -/
  reads : List (Int × List Byte)
  writes : List (Int × (Nat → Byte))

/-- `readEnd` and `writeEnd` tell whether the files of the pipe have descriptors. -/
structure State (ι : Type) where
  pipe : Pipe
  queue : WaitQueue.State ι
  point : ι → Point
  signal : ι → BitVec 32
  readEnd : Bool
  writeEnd : Bool
  history : History

variable {ι : Type} [DecidableEq ι]

namespace State

def goto (current : ι) (point : Point) (state : State ι) : State ι :=
  { state with point := Function.update state.point current point }

/-- Move `PIPE_TAIL`. -/
def release (chars : Nat) (state : State ι) : State ι :=
  { state with
    pipe :=
      { state.pipe with tail := (state.pipe.tail + chars) % pageSize }
    history :=
      { state.history with released := state.history.released + chars } }

/-- Move `PIPE_HEAD`. -/
def claim (chars : Nat) (state : State ι) : State ι :=
  { state with
    pipe :=
      { state.pipe with head := (state.pipe.head + chars) % pageSize }
    history :=
      { state.history with claimed := state.history.claimed + chars } }

/-- Bytes have been put into a user's buffer. -/
def fetch (bytes : List Byte) (state : State ι) : State ι :=
  { state with
    history :=
      { state.history with fetched := state.history.fetched ++ bytes } }

/-- Store bytes with successive numbers at an index of the page. -/
def store
    (bytes : List Byte)
    (size number : Nat)
    (state : State ι) : State ι :=
  { state with
    pipe := { state.pipe with page := Ring.fill bytes size state.pipe.page }
    history :=
      { state.history with
        serial :=
          Ring.fill ((List.range' number bytes.length).map some) size
            state.history.serial
        stored := state.history.stored ++ bytes } }

/-- Return from `read_pipe`. -/
def readReturns
    (current : ι)
    (done : Nat)
    (buf : List Byte)
    (state : State ι) : State ι :=
  { state with
    point := Function.update state.point current (.user done)
    history :=
      { state.history with
        reads := state.history.reads ++ [((done : Int), buf)] } }

/-- Return from `write_pipe`. -/
def writeReturns
    (current : ι)
    (buf : Nat → Byte)
    (written : Int)
    (state : State ι) : State ι :=
  { state with
    point := Function.update state.point current (.user written)
    history :=
      { state.history with
        writes := state.history.writes ++ [(written, buf)] } }

/-- `current->signal |= (1<<(SIGPIPE-1))` -/
def breakPipe (current : ι) (state : State ι) : State ι :=
  { state with
    signal :=
      Function.update state.signal current
        (state.signal current ||| 1#32 <<< (sigPipe - 1)) }

end State

/-- A routine on `i_wait`. -/
def onQueue
    (routine : Routine (WaitQueue.State ι) Unit) : Routine (State ι) Unit :=
  zoom State.queue (fun queue state => { state with queue := queue }) routine

/-! ## Reading -/

/--
The copy loop of `read_pipe`.  With `fault` it is known how many bytes of the user's
buffer are there, and the loop comes back without a result where one is missing.
-/
def putBytes
    (current : ι)
    (fault : Option Nat)
    (chars size count done : Nat)
    (buf : List Byte) :
    Routine (State ι) (Option (Option Nat × List Byte)) := do
  let state ← Routine.read
  let present := min (fault.getD chars) chars
  let bytes := Ring.load state.pipe.page size present
  update (State.fetch bytes)
  if present < chars then do
    update (State.goto current
      (.putting (state.pipe.page (size + present)) (chars - present - 1)
        (size + present + 1) count done (buf ++ bytes)))
    pure none
  else
    pure (some (fault.map fun bytes => bytes - chars, buf ++ bytes))

/-- `read_pipe` where the pipe is empty. -/
def readEmpty
    (initTask current : ι)
    (count done : Nat)
    (buf : List Byte) : Routine (State ι) Unit := do
  onQueue wakeUp
  let state ← Routine.read
  if state.pipe.count ≠ 2 then
    update (State.readReturns current done buf)
  else do
    onQueue (sleepOn initTask current)
    update (State.goto current (.reading count done buf))

/-- The end of `read_pipe`. -/
def readDone
    (current : ι)
    (done : Nat)
    (buf : List Byte) : Routine (State ι) Unit := do
  onQueue wakeUp
  update (State.readReturns current done buf)

/-- The loop of `read_pipe`, which ends after `count` passes at most. -/
def readLoop
    (initTask current : ι) :
    Nat → Option Nat → Nat → Nat → List Byte → Routine (State ι) Unit
  | 0, _, _, _, _ => abandon
  | fuel + 1, fault, count, done, buf => do
      let state ← Routine.read
      let size := state.pipe.size
      if count = 0 then
        readDone current done buf
      else if size = 0 then
        readEmpty initTask current count done buf
      else do
        let chars := pageSize - state.pipe.tail
        let chars := if count < chars then count else chars
        let chars := if size < chars then size else chars
        update (State.release chars)
        match ← putBytes current fault chars state.pipe.tail (count - chars)
            (done + chars) buf with
        | none => pure ()
        | some (fault, buf) =>
          readLoop initTask current fuel fault (count - chars)
            (done + chars) buf

/-! ## Writing -/

/-- The copy loop of `write_pipe`. -/
def getBytes
    (current : ι)
    (fault : Option Nat)
    (buf : Nat → Byte)
    (chars size count written number : Nat) :
    Routine (State ι) (Option (Option Nat)) := do
  let present := min (fault.getD chars) chars
  let bytes := Ring.load buf (written - chars) present
  update (State.store bytes size number)
  if present < chars then do
    update (State.goto current
      (.getting buf (chars - present) (size + present) count written
        (number + present)))
    pure none
  else
    pure (some (fault.map fun bytes => bytes - chars))

/-- `write_pipe` where the pipe is full. -/
def writeFull
    (initTask current : ι)
    (buf : Nat → Byte)
    (count written : Nat) : Routine (State ι) Unit := do
  onQueue wakeUp
  let state ← Routine.read
  if state.pipe.count ≠ 2 then do
    update (State.breakPipe current)
    update (State.writeReturns current buf
      (if written ≠ 0 then written else -1))
  else do
    onQueue (sleepOn initTask current)
    update (State.goto current (.writing buf count written))

/-- The end of `write_pipe`. -/
def writeDone
    (current : ι)
    (buf : Nat → Byte)
    (written : Nat) : Routine (State ι) Unit := do
  onQueue wakeUp
  update (State.writeReturns current buf written)

/-- The loop of `write_pipe`, which ends after `count` passes at most. -/
def writeLoop
    (initTask current : ι)
    (buf : Nat → Byte) :
    Nat → Option Nat → Nat → Nat → Routine (State ι) Unit
  | 0, _, _, _ => abandon
  | fuel + 1, fault, count, written => do
      let state ← Routine.read
      let size := pageSize - 1 - state.pipe.size
      if count = 0 then
        writeDone current buf written
      else if size = 0 then
        writeFull initTask current buf count written
      else do
        let chars := pageSize - state.pipe.head
        let chars := if count < chars then count else chars
        let chars := if size < chars then size else chars
        update (State.claim chars)
        match ← getBytes current fault buf chars state.pipe.head
            (count - chars) (written + chars) state.history.claimed with
        | none => pure ()
        | some fault =>
          writeLoop initTask current buf fuel fault (count - chars)
            (written + chars)

/-! ## The tasks -/

/-- `iput` of a pipe; the page of a pipe with no end is not used again. -/
def iput : Routine (State ι) Unit := do
  onQueue wakeUp
  update fun state =>
    { state with pipe := { state.pipe with count := state.pipe.count - 1 } }

/-- What a task does until it gives up the processor. -/
inductive Action (ι : Type) where
  | read (current : ι) (count : Int) (fault : Option Nat)
  | write (current : ι) (buf : Nat → Byte) (count : Int)
      (fault : Option Nat)
  | resume (current : ι) (fault : Option Nat)
  | closeRead
  | closeWrite

/-- Go on from where the task is. -/
def resumeAt
    (initTask current : ι)
    (fault : Option Nat) : Point → Routine (State ι) Unit
  | .user _ => pure ()
  | .reading count done buf => do
      onQueue (sleepOnResumed current)
      readLoop initTask current (count + 1) fault count done buf
  | .putting val chars size count done buf => do
      update (State.fetch [val])
      match ← putBytes current fault chars size count done (buf ++ [val]) with
      | none => pure ()
      | some (fault, buf) => readLoop initTask current (count + 1) fault count done buf
  | .writing buf count written => do
      onQueue (sleepOnResumed current)
      writeLoop initTask current buf (count + 1) fault count written
  | .getting buf chars size count written number => do
      match ← getBytes current fault buf chars size count written number with
      | none => pure ()
      | some fault => writeLoop initTask current buf (count + 1) fault count written

namespace Action

def perform (initTask : ι) : Action ι → Routine (State ι) Unit
  | .read current count fault =>
    readLoop initTask current (count.toNat + 1) fault count.toNat 0 []
  | .write current buf count fault =>
    writeLoop initTask current buf (count.toNat + 1) fault count.toNat 0
  | .resume current fault => do
      let state ← Routine.read
      resumeAt initTask current fault (state.point current)
  | .closeRead => do
      iput
      update fun state => { state with readEnd := false }
  | .closeWrite => do
      iput
      update fun state => { state with writeEnd := false }

/--
Whoever is in a call has a descriptor of the end, so an end is not closed under it.  A
task that waits for a page sleeps on another queue, and may go on at any time.
-/
def Enabled (state : State ι) : Action ι → Prop
  | .read current _ _ =>
    state.readEnd = true ∧ (state.point current).isUser = true ∧
      state.queue.Runnable current
  | .write current _ _ _ =>
    state.writeEnd = true ∧ (state.point current).isUser = true ∧
      state.queue.Runnable current
  | .resume current _ =>
    match state.point current with
    | .user _ => False
    | .reading _ _ _ | .writing _ _ _ => state.queue.Runnable current
    | .putting _ _ _ _ _ _ | .getting _ _ _ _ _ _ => True
  | .closeRead =>
    state.readEnd = true ∧ ∀ task, (state.point task).isReader = false
  | .closeWrite =>
    state.writeEnd = true ∧ ∀ task, (state.point task).isWriter = false

end Action

/-- A pipe as `get_pipe_inode` makes it, and its tasks. -/
def pipeMachine (initTask : ι) : Machine (State ι) (Action ι) where
  initial state :=
    (state.pipe.head = 0 ∧ state.pipe.tail = 0 ∧ state.pipe.count = 2) ∧
      (state.queue.waiting = none ∧
        ∀ task, state.queue.Runnable task ∧ ¬ state.queue.Inside task) ∧
      (∀ task, (state.point task).isUser = true) ∧
      (state.readEnd = true ∧ state.writeEnd = true) ∧
      state.history =
        { claimed := 0
          released := 0
          serial := fun _ => none
          stored := []
          fetched := []
          reads := []
          writes := [] }
  enabled action state := action.Enabled state
  perform action := action.perform initTask

end Pipes

end HitOs
