import HitOs.Pids
import HitOs.ProcessTree
import HitOs.Signals

namespace HitOs

/-!
# Processes

`copy_process`, `do_exit` and `sys_waitpid`, cut where a task can sleep: in `do_exit`
while it closes its files, in `sys_waitpid` when it waits for a child and, when it
has released one, before it stores the exit code.
-/

namespace Tasks

open WaitQueue (TaskState)
open ProcessTree (Exit)

/-- `EINTR` -/
def eintr : Int := 4

/-- `ECHILD` -/
def echild : Int := 10

/-- `EAGAIN` -/
def eagain : Int := 11

/-- `EPERM` -/
def eperm : Int := 1

/-- `WNOHANG` -/
def wnohang : BitVec 32 := 1#32

/-- `WUNTRACED` -/
def wuntraced : BitVec 32 := 2#32

/-- Where a task is when it does not run. -/
inductive Point where
  -- task 0 before its fork, and after it
  | booting
  | idle
  -- in user mode, or in another function of the kernel
  | user
  -- in `do_exit`, after the loop over the children
  | closing (code : Int)
  -- in `do_exit`, after the call of `schedule`
  | dead
  -- in `sys_waitpid`, at the call of `schedule`
  | waiting (pid : Int) (options : BitVec 32)
  -- in `sys_waitpid`, at the call of `schedule` in `release`
  | reporting (exit : Exit)
  deriving DecidableEq

/-- A task with its page; `serial` numbers the processes and is not in the source. -/
structure Process extends Task where
  page : Nat
  serial : Nat
  point : Point
  eax : Int

namespace Process

def post (signr : Fin 32) (process : Process) : Process :=
  { process with signal := process.signal ||| bit signr }

/-- Return to user mode. -/
def returns (eax : Int) (process : Process) : Process :=
  { process with point := .user, eax := eax }

/-- What `copy_process` makes. -/
def child (pid : Int) (page serial : Nat) (parent : Process) : Process where
  toTask := parent.toTask.child pid
  page := page
  serial := serial
  point := .user
  eax := 0

/-- The children that `sys_waitpid` looks at. -/
def Awaits (pid : Int) (current child : Process) : Prop :=
  child.father = current.pid ∧
    if 0 < pid then
      child.pid = pid
    else if pid = 0 then
      child.pgrp = current.pgrp
    else if pid ≠ -1 then
      child.pgrp = long (-pid)
    else
      True

instance (pid : Int) (current child : Process) :
    Decidable (current.Awaits pid child) := by
  unfold Awaits
  infer_instance

end Process

abbrev Processes :=
  Slot → Option Process

/--
The tasks, `last_pid`, the clock, and the pages that hold tasks.  The counter of
forks, the exits and what `sys_waitpid` has reported are not in the source.
-/
structure State where
  process : Processes
  lastPid : Int
  jiffies : Int
  pages : Nat → Bool
  forks : Nat
  exits : List Exit
  reports : List Exit

namespace State

/-- The array `task`. -/
def table (state : State) : Table :=
  fun slot => (state.process slot).map Process.toTask

def put (slot : Slot) (process : Process) (state : State) : State :=
  { state with process := Function.update state.process slot (some process) }

/-- Change one task, if there is one. -/
def change (slot : Slot) (change : Process → Process) (state : State) : State :=
  { state with
    process :=
      Function.update state.process slot ((state.process slot).map change) }

/-! ## `fork` -/

/-- A fork that fails; `last_pid` has changed. -/
def forkFails
    (slot : Slot)
    (parent : Process)
    (lastPid : Int)
    (state : State) : State :=
  { state.put slot { parent with eax := -eagain } with lastPid := lastPid }

/-- A fork that makes the task `nr`. -/
def forkMakes
    (slot : Slot)
    (parent : Process)
    (nr : Slot)
    (page : Nat)
    (lastPid : Int)
    (state : State) : State :=
  { (state.put slot { parent with eax := lastPid }).put nr
      (parent.child lastPid page state.forks) with
    lastPid := lastPid
    pages := Function.update state.pages page true
    forks := state.forks + 1 }

/--
`sys_fork`, for a page that is not in use or none, and the outcome of `copy_mem`,
after which the page is given back if it has failed.
-/
def sysFork
    (slot : Slot)
    (parent : Process)
    (page : Option Nat)
    (copied : Bool)
    (state : State) : Option State :=
  match findEmptyProcess state.table 65 state.lastPid with
  | none => none
  | some (none, lastPid) => some (state.forkFails slot parent lastPid)
  | some (some nr, lastPid) =>
    match page with
    | none => some (state.forkFails slot parent lastPid)
    | some page =>
      if state.pages page = true then
        none
      else if copied then
        some (state.forkMakes slot parent nr page lastPid)
      else
        some (state.forkFails slot parent lastPid)

/-! ## `do_exit` -/

/-- The end of `release`: the slot and the page. -/
def release (slot : Slot) (process : Process) (state : State) : State :=
  { state with
    process := Function.update state.process slot none
    pages := Function.update state.pages process.page false }

/-- One turn of the loop over the children; task 1 should be init. -/
def disownOne (pid : Int) (process : Processes) (slot : Slot) : Processes :=
  match process slot with
  | none => process
  | some child =>
    if child.father = pid then
      let process :=
        Function.update process slot (some { child with father := 1 })
      if child.state = .zombie then
        Function.update process 1
          ((process 1).map (Process.post sigChld))
      else
        process
    else
      process

/-- The loop of `do_exit` over the children. -/
def disown (pid : Int) (state : State) : State :=
  { state with
    process := (List.finRange nrTasks).foldl (disownOne pid) state.process }

/-- `do_exit` up to the first place where it can sleep. -/
def doExit
    (slot : Slot)
    (process : Process)
    (code : Int)
    (state : State) : State :=
  { (state.disown process.pid).change slot
      fun process => { process with point := .closing code } with
    exits :=
      { serial := process.serial, pid := process.pid, code := code } :: state.exits }

/-- `kill_session` -/
def killSession (session : Int) (state : State) : State :=
  { state with
    process := fun slot =>
      (state.process slot).map fun process =>
        if slot ≠ 0 ∧ process.session = session then
          process.post sigHup
        else
          process }

/-- The loop of `tell_father`. -/
def findFather (pid : Int) (state : State) : Option Slot :=
  if pid ≠ 0 then
    (List.finRange nrTasks).find? fun slot =>
      (state.process slot).any fun process => process.pid == pid
  else
    none

/-- Without a father the task releases itself. -/
def tellFather
    (slot : Slot)
    (process : Process)
    (state : State) : State :=
  match state.findFather process.father with
  | some father => state.change father (Process.post sigChld)
  | none => state.release slot process

/-- The rest of `do_exit`. -/
def exitClosed
    (slot : Slot)
    (process : Process)
    (code : Int)
    (state : State) : State :=
  let state :=
    if process.leader then state.killSession process.session else state
  (state.change slot fun process =>
    { process with
      state := .zombie
      exitCode := code
      point := .dead }).tellFather slot process

/-! ## `waitpid` -/

/-- How the loop of `sys_waitpid` over the tasks ends. -/
inductive Scan where
  | stopped (child : Process)
  | zombie (slot : Slot) (child : Process)
  | finished (flag : Bool)

def scan
    (process : Processes)
    (slot : Slot)
    (current : Process)
    (pid : Int)
    (options : BitVec 32) : List Slot → Bool → Scan
  | [], flag => .finished flag
  | other :: slots, flag =>
    match process other with
    | none => scan process slot current pid options slots flag
    | some child =>
      if other ≠ slot ∧ current.Awaits pid child then
        match child.state with
        | .stopped =>
          if options &&& wuntraced = 0#32 then
            scan process slot current pid options slots flag
          else
            .stopped child
        | .zombie => .zombie other child
        | _ => scan process slot current pid options slots true
      else
        scan process slot current pid options slots flag

/-- `sys_waitpid` from `repeat` to a return or to a call of `schedule`. -/
def sysWaitpid
    (slot : Slot)
    (current : Process)
    (pid : Int)
    (options : BitVec 32)
    (state : State) : State :=
  match scan state.process slot current pid options laterSlots false with
  | .stopped child => state.put slot (current.returns child.pid)
  | .zombie other child =>
    (state.release other child).put slot
      { current with
        cutime := long (current.cutime + child.utime)
        cstime := long (current.cstime + child.stime)
        point := .reporting
          { serial := child.serial
            pid := child.pid
            code := child.exitCode } }
  | .finished true =>
    if options &&& wnohang = 0#32 then
      state.put slot
        { current with
          state := .interruptible
          point := .waiting pid options }
    else
      state.put slot (current.returns 0)
  | .finished false => state.put slot (current.returns (-echild))

/-- `sys_waitpid` after `schedule` has returned. -/
def waitpidResumed
    (slot : Slot)
    (current : Process)
    (pid : Int)
    (options : BitVec 32)
    (state : State) : State :=
  let current :=
    { current with signal := current.signal &&& ~~~(bit sigChld) }
  if current.signal = 0#32 then
    state.sysWaitpid slot current pid options
  else
    state.put slot (current.returns (-eintr))

end State

/-! ## Runs -/

/-- What a task does up to the next place where it can sleep, and what others do. -/
inductive ProcessAction where
  | fork (slot : Slot) (page : Option Nat) (copied : Bool)
  | exit (slot : Slot) (code : Int)
  | closed (slot : Slot)
  | waitpid (slot : Slot) (pid : Int) (options : BitVec 32)
  | resume (slot : Slot)
  | report (slot : Slot)
  | ssetmask (slot : Slot) (newmask : BitVec 32)
  | setsid (slot : Slot) (suser : Bool)
  | alarm (slot : Slot) (time : Int)
  | deliver (slot : Slot) (registers : Registers)
  | sleep (slot : Slot) (interruptible : Bool)
  | wake (slot : Slot)
  | post (slot : Slot) (signr : Fin 32)
  | tick (slot : Slot) (cpl : Bool)
  | schedule

namespace Point

/-- Where a task can sleep without `schedule` being called by this module. -/
def sleeps (point : Point) : Bool :=
  match point with
  | .booting => false
  | .waiting _ _ => false
  | .dead => false
  | _ => true

/-- Where a task can come to `do_exit`: user memory is accessed there. -/
def mayExit (point : Point) : Bool :=
  match point with
  | .user => true
  | .reporting _ => true
  | _ => false

end Point

namespace State

/-- The task in a slot, if it can run. -/
def running (slot : Slot) (state : State) : Option Process :=
  (state.process slot).filter fun process => decide (process.state = .running)

/-- The same, if it is in user mode. -/
def inUser (slot : Slot) (state : State) : Option Process :=
  (state.running slot).filter fun process => decide (process.point = .user)

/-- The first loop of `schedule`. -/
def checkSignals (state : State) : State :=
  { state with
    process := fun slot =>
      (state.process slot).map fun process =>
        if slot = 0 then
          process
        else
          { process with toTask := process.toTask.checkSignals state.jiffies } }

/-- `sys_setsid` -/
def setsid (slot : Slot) (current : Process) (suser : Bool) (state : State) : State :=
  if current.leader ∧ suser = false then
    state.put slot { current with eax := -eperm }
  else
    state.put slot
      { current with
        leader := true
        session := current.pid
        pgrp := current.pid
        eax := current.pid }

end State

namespace ProcessAction

def step (action : ProcessAction) (state : State) : Option State :=
  match action with
  | .fork slot page copied =>
    (state.running slot).bind fun parent =>
      match parent.point with
      | .booting => state.sysFork slot { parent with point := .idle } page copied
      | .user => state.sysFork slot parent page copied
      | _ => none
  | .exit slot code =>
    (state.running slot).bind fun process =>
      if process.point.mayExit then
        some (state.doExit slot process code)
      else
        none
  | .closed slot =>
    (state.running slot).bind fun process =>
      match process.point with
      | .closing code => some (state.exitClosed slot process code)
      | _ => none
  | .waitpid slot pid options =>
    (state.inUser slot).map fun current =>
      state.sysWaitpid slot current pid options
  | .resume slot =>
    (state.running slot).bind fun current =>
      match current.point with
      | .waiting pid options => some (state.waitpidResumed slot current pid options)
      | _ => none
  | .report slot =>
    (state.running slot).bind fun current =>
      match current.point with
      | .reporting seen =>
        some
          { state.put slot (current.returns seen.pid) with
            reports := seen :: state.reports }
      | _ => none
  | .ssetmask slot newmask =>
    (state.inUser slot).map fun current =>
      state.put slot
        { current with toTask := (sysSsetmask newmask current.toTask).2 }
  | .setsid slot suser =>
    (state.inUser slot).map fun current =>
      state.setsid slot current suser
  | .alarm slot time =>
    (state.inUser slot).map fun current =>
      state.put slot { current with alarm := time }
  | .deliver slot registers =>
    (state.inUser slot).bind fun current =>
      match retFromSysCall registers current.toTask with
      | (some (.exited _), _) => none
      | (_, task) => some (state.put slot { current with toTask := task })
  | .sleep slot interruptible =>
    (state.running slot).bind fun current =>
      if current.point.sleeps then
        some
          (state.put slot
            { current with
              state :=
                if interruptible then .interruptible else .uninterruptible })
      else
        none
  | .wake slot =>
    (state.process slot).bind fun sleeper =>
      if sleeper.point.sleeps then
        some (state.put slot { sleeper with state := .running })
      else
        none
  | .post slot signr => some (state.change slot (Process.post signr))
  | .tick slot cpl =>
    (state.running slot).map fun current =>
      { state.put slot
          { current with toTask := (doTimer cpl current.toTask).1 } with
        jiffies := long (state.jiffies + 1) }
  | .schedule => some state.checkSignals

def Step (action : ProcessAction) (before after : State) : Prop :=
  action.step before = some after

end ProcessAction

/-- The first task, and nothing else; its page is not one of `get_free_page`. -/
def bootedState : State where
  process slot :=
    if slot = 0 then
      some
        { toTask := initTask
          page := 0
          serial := 0
          point := .booting
          eax := 0 }
    else
      none
  lastPid := 0
  jiffies := 0
  pages page := page == 0
  forks := 1
  exits := []
  reports := []

end Tasks

end HitOs
