import HitOs.WaitQueue
import Mathlib.Algebra.GroupWithZero.Nat
import Mathlib.Data.List.FinRange

namespace HitOs

/-!
# The task table

`task_struct` as far as signals, the scheduler and the process tree use it, the
task that is there from the beginning, and the one that a fork makes.
-/

namespace Tasks

open WaitQueue (TaskState)

/-- `NR_TASKS` -/
abbrev nrTasks : Nat := 64

/-- An index of `task[]`. -/
abbrev Slot :=
  Fin nrTasks

scoped instance : NeZero nrTasks :=
  ⟨by decide⟩

/-- A signed number of 32 bits, such as a `long` is. -/
def long (value : Int) : Int :=
  value.bmod (2 ^ 32)

structure Sigaction where
  handler : BitVec 32
  mask : BitVec 32
  flags : BitVec 32
  restorer : BitVec 32
  deriving Repr, DecidableEq

/-- The entry of `sigaction` for signal `n` is number `n - 1`, as is its bit. -/
structure Task where
  state : TaskState
  counter : Int
  priority : Int
  signal : BitVec 32
  sigaction : Fin 32 → Sigaction
  blocked : BitVec 32
  exitCode : Int
  pid : Int
  father : Int
  pgrp : Int
  session : Int
  leader : Bool
  alarm : Int
  utime : Int
  stime : Int
  cutime : Int
  cstime : Int

/-- `INIT_TASK` -/
def initTask : Task where
  state := .running
  counter := 15
  priority := 15
  signal := 0#32
  sigaction _ := { handler := 0, mask := 0, flags := 0, restorer := 0 }
  blocked := 0#32
  exitCode := 0
  pid := 0
  father := -1
  pgrp := 0
  session := 0
  leader := false
  alarm := 0
  utime := 0
  stime := 0
  cutime := 0
  cstime := 0

/-- The array `task`. -/
abbrev Table :=
  Slot → Option Task

/-- What `sched_init` leaves. -/
def booted : Table :=
  fun slot => if slot = 0 then some initTask else none

/-- What `copy_process` makes of the copy of its parent. -/
def Task.child (parent : Task) (pid : Int) : Task :=
  { parent with
    state := .running
    pid := pid
    father := parent.pid
    counter := parent.priority
    signal := 0#32
    alarm := 0
    leader := false
    utime := 0
    stime := 0
    cutime := 0
    cstime := 0 }

/-! ## Signals -/

scoped instance signalsNeZero : NeZero 32 :=
  ⟨by decide⟩

def sigHup : Fin 32 := 0
def sigKill : Fin 32 := 8
def sigAlrm : Fin 32 := 13
def sigChld : Fin 32 := 16
def sigStop : Fin 32 := 18

/-- `1<<(signr-1)` -/
def bit (signr : Fin 32) : BitVec 32 :=
  1#32 <<< signr.val

@[simp] theorem getLsbD_bit
    {signr other : Fin 32} :
    (bit signr).getLsbD other.val = decide (other = signr) := by
  revert signr other
  decide

/-- `_BLOCKABLE` -/
def blockable : BitVec 32 :=
  ~~~(bit sigKill ||| bit sigStop)

/-- The signals for which `schedule` wakes a task. -/
def Task.waking (task : Task) : BitVec 32 :=
  task.signal &&& ~~~(blockable &&& task.blocked)

/-- The loop of `schedule` over alarms and signals, at one task. -/
def Task.checkSignals (jiffies : Int) (task : Task) : Task :=
  let task :=
    if task.alarm ≠ 0 ∧ task.alarm < jiffies then
      { task with signal := task.signal ||| bit sigAlrm, alarm := 0 }
    else
      task
  if task.waking ≠ 0#32 ∧ task.state = .interruptible then
    { task with state := .running }
  else
    task

end Tasks

end HitOs
