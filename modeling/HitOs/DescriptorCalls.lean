import HitOs.Machine
import HitOs.OpenOrigins

namespace HitOs

/-!
# Descriptors of tasks that take turns

`sys_open`, `sys_pipe`, `sys_close`, `sys_dup2` and `do_exit`, cut where they can
sleep: in `open_namei`, in `check_disk_change`, in `get_pipe_inode` and in `iput`.
What `open_namei` and `get_pipe_inode` come back with are arguments of the steps.  Where
nobody else runs, the cut calls are those of `OpenFiles` (`sysOpen_eq`, `sysClose_eq`).
-/

namespace Files

open Routine

/-- Where a task is when it does not run. -/
inductive Point where
  /-- In user mode, with the result of its last call. -/
  | user (eax : Int)
  /-- In `open_namei`. -/
  | naming (fd index : Nat) (flag : BitVec 32)
  /-- In the `iput` of a terminal that a process without one may not open. -/
  | refusing (fd index : Nat)
  /-- In `check_disk_change`. -/
  | changing (fd index : Nat) (flag : BitVec 32) (number : Nat) (mode : BitVec 16)
  /-- In `get_pipe_inode`. -/
  | piping (fds indices : Nat × Nat)
  /-- In the `iput` of `sys_close`. -/
  | closing
  /-- In the `sys_close` of `sys_dup2`. -/
  | copying (oldfd newfd : Nat)
  /-- In the loop of `do_exit` over the descriptors. -/
  | exiting (next : Nat)
  | dead
  deriving DecidableEq

namespace Point

def isUser : Point → Bool
  | .user _ => true
  | _ => false

/-- Whether `sys_open` sleeps after `open_namei`. -/
def isOpening : Point → Bool
  | .refusing _ _ | .changing _ _ _ _ _ => true
  | _ => false

/-- The descriptors and the entries that a call has taken and may give back. -/
def held : Point → List (Nat × Nat)
  | .naming fd index _ | .refusing fd index | .changing fd index _ _ _ => [(fd, index)]
  | .piping fds indices => [(fds.1, indices.1), (fds.2, indices.2)]
  | _ => []

/-- The descriptors below this one have been closed by `do_exit`. -/
def closed : Point → Nat
  | .exiting next => next
  | .dead => nrOpen
  | _ => 0

end Point

/-! ## Opening -/

/-- `sys_open` before its call of `open_namei`. -/
def takeFile (current : Nat) : Routine System (Except Int (Nat × Nat)) := do
  let system ← read
  match freeDescriptor system current 0 with
  | none => pure (.error (-einval))
  | some fd => do
      update (System.keepOnExec current fd)
      match freeFile system with
      | none => pure (.error (-einval))
      | some index => do
          update fun system =>
            (system.setFilp current fd (some index)).changeFile index
              fun file => { file with count := file.count + 1#16 }
          pure (.ok (fd, index))

/-- The entry of a file that `sys_open` has opened. -/
def openFile
    (index : Nat)
    (flag : BitVec 32)
    (number : Nat)
    (mode : BitVec 16) : Routine System Unit :=
  update (System.changeFile index fun _ =>
    { mode := mode
      flags := flag.setWidth 16
      count := 1#16
      inode := number
      pos := 0 })

/-- `sys_open` from the return of `open_namei` to where it can sleep again. -/
def afterNaming
    (current : Nat)
    (task : Task)
    (fd index : Nat)
    (flag : BitVec 32) :
    Except Int (Nat × Inode) → Routine System Point
  | .error code => do
      undoOpen current fd index
      pure (.user code)
  | .ok (number, inode) => do
      if ← openTerminal current task inode then
        if inode.isBlock then
          pure (.changing fd index flag number inode.mode)
        else do
          openFile index flag number inode.mode
          pure (.user fd)
      else
        pure (.refusing fd index)

/-- `sys_open` after the sleep in `iput` or in `check_disk_change`. -/
def resumeOpen (current : Nat) : Point → Routine System Int
  | .refusing fd index => do
      undoOpen current fd index
      pure (-eperm)
  | .changing fd index flag number mode => do
      openFile index flag number mode
      pure fd
  | .user eax => pure eax
  | _ => abandon

theorem afterNaming_resumeOpen
    {current fd index number : Nat} {task : Task} {flag : BitVec 32}
    {inode : Inode} :
    afterNaming current task fd index flag (.ok (number, inode)) >>=
        resumeOpen current =
      (do
        if ← openTerminal current task inode then do
          openFile index flag number inode.mode
          pure (fd : Int)
        else do
          undoOpen current fd index
          pure (-eperm)) := by
  funext system
  change
    andThen
        (andThen (openTerminal current task inode) fun allowed =>
          if allowed = true then _ else _) _ system =
      andThen (openTerminal current task inode) (fun allowed =>
        if allowed = true then _ else _) system
  unfold andThen
  cases openTerminal current task inode system with
  | ret allowed after =>
    cases allowed <;> cases inode.isBlock <;> rfl
  | abandon after =>
    rfl
  | panic message =>
    rfl

/-- Where nobody else runs while it sleeps, this is all of `sys_open`. -/
theorem sysOpen_eq
    {system : System} {task : Task} {current : Nat}
    (lives : system.task current = some task)
    (lookup : Lookup)
    (flag mode : BitVec 32) :
    sysOpen current lookup flag mode system = (do
      match ← takeFile current with
      | .error code =>
        pure code
      | .ok (fd, index) => do
          let named ←
            openNamei task lookup flag (mode &&& 0o777#32 &&& ~~~task.umask)
          let opened ← read
          match named with
          | .error code => do
              let point ← afterNaming current task fd index flag (.error code)
              resumeOpen current point
          | .ok number =>
            match opened.inode number with
            | none =>
              abandon
            | some inode => do
                let point ←
                  afterNaming current task fd index flag (.ok (number, inode))
                resumeOpen current point) system := by
  unfold sysOpen takeFile
  simp only [bind, andThen, Routine.read, lives]
  cases freeDescriptor system current 0 with
  | none =>
    rfl
  | some fd =>
    simp only
    cases freeFile system with
    | none =>
      rfl
    | some index =>
      simp only [pure, andThen, update, Routine.ret]
      cases openNamei task lookup flag
        (mode &&& 0o777#32 &&& ~~~task.umask) _ with
      | ret named after =>
        cases named with
        | error code =>
          rfl
        | ok number =>
          simp only [Routine.read, andThen]
          cases after.inode number with
          | none =>
            rfl
          | some inode =>
            exact congrFun afterNaming_resumeOpen.symm after
      | abandon after =>
        rfl
      | panic message =>
        rfl

/-! ## Pipes -/

/-- Set `f_count` to zero. -/
def clearCount (index : Nat) (system : System) : System :=
  system.changeFile index fun file => { file with count := 0#16 }

/-- Count one more reference. -/
def countUp (index : Nat) (system : System) : System :=
  system.changeFile index fun file => { file with count := file.count + 1#16 }

/-- The first two entries of `file_table` with `f_count` zero. -/
def freeFiles (system : System) : List Nat :=
  ((List.range nrFile).filter fun index =>
    (system.file index).count == 0#16).take 2

/-- The first two descriptors that are not in use. -/
def freeDescriptors (system : System) (current : Nat) : List Nat :=
  ((List.range nrOpen).filter fun fd =>
    (system.filp current fd).isNone).take 2

/-- `sys_pipe` with two entries taken, before its call of `get_pipe_inode`. -/
def takeDescriptors
    (current first second : Nat) :
    Routine System (Except Int ((Nat × Nat) × (Nat × Nat))) := do
  let system ← read
  match freeDescriptors system current with
  | fd0 :: fd1 :: _ => do
      update (System.setFilp current fd0 (some first))
      update (System.setFilp current fd1 (some second))
      pure (.ok ((fd0, fd1), (first, second)))
  | [fd] => do
      update (System.setFilp current fd (some first))
      update (System.setFilp current fd none)
      update (clearCount first)
      update (clearCount second)
      pure (.error (-1))
  | [] => do
      update (clearCount first)
      update (clearCount second)
      pure (.error (-1))

/-- `sys_pipe` before its call of `get_pipe_inode`. -/
def takePipe
    (current : Nat) :
    Routine System (Except Int ((Nat × Nat) × (Nat × Nat))) := do
  let system ← read
  match freeFiles system with
  | first :: second :: _ => do
      update (countUp first)
      update (countUp second)
      takeDescriptors current first second
  | [first] => do
      update (countUp first)
      update (clearCount first)
      pure (.error (-1))
  | [] => pure (.error (-1))

/-- `sys_pipe` from the return of `get_pipe_inode` on. -/
def afterPipe
    (current : Nat)
    (fds indices : Nat × Nat) : Option Nat → Routine System Int
  | none => do
      update (System.setFilp current fds.1 none)
      update (System.setFilp current fds.2 none)
      update (clearCount indices.1)
      update (clearCount indices.2)
      pure (-1)
  | some number => do
      update (System.changeFile indices.1 fun file =>
        { file with inode := number, pos := 0, mode := 1#16 })
      update (System.changeFile indices.2 fun file =>
        { file with inode := number, pos := 0, mode := 2#16 })
      pure 0

/-! ## Closing -/

/--
`sys_close` up to its call of `iput`: what it returns, and the entry and the inode
that it puts.
-/
def closeFile
    (current fd : Nat) : Routine System (Int × Option (Nat × Nat)) := do
  if nrOpen ≤ fd then
    pure (-einval, none)
  else do
    update (System.keepOnExec current fd)
    let system ← read
    match system.filp current fd with
    | none => pure (-einval, none)
    | some index => do
        update (System.setFilp current fd none)
        let file := system.file index
        if file.count = 0#16 then
          Routine.panic "Close: file count is 0"
        else do
          update (System.changeFile index fun file =>
            { file with count := file.count - 1#16 })
          if file.count - 1#16 ≠ 0#16 then
            pure (0, none)
          else
            pure (0, some (index, file.inode))

/-- Where `iput` does not sleep, this is all of `sys_close`. -/
theorem sysClose_eq
    (current fd : Nat) :
    sysClose current fd = (do
      let closed ← closeFile current fd
      pure closed.1) := by
  funext system
  unfold sysClose closeFile
  by_cases beyond : nrOpen ≤ fd
  · rw [if_pos beyond, if_pos beyond]
    rfl
  · rw [if_neg beyond, if_neg beyond]
    simp only [bind, andThen, update, Routine.read]
    cases (system.keepOnExec current fd).filp current fd with
    | none =>
      rfl
    | some index =>
      by_cases zero :
          ((system.keepOnExec current fd).file index).count = 0#16
      · simp only [if_pos zero]
        rfl
      · by_cases last :
            ((system.keepOnExec current fd).file index).count - 1#16 = 0#16
        · simp only [if_neg zero, last, ne_eq, not_true_eq_false, if_false]
          rfl
        · simp only [if_neg zero, ne_eq, last, not_false_eq_true, if_true]
          rfl

/-! ## The system and where its tasks are -/

/-- `put` has the calls of `iput` by `sys_close`: the entry and its inode, last first. -/
structure Kernel where
  system : System
  point : Nat → Point
  put : List (Nat × Nat)

namespace Kernel

variable {α : Type}

def within (routine : Routine System α) : Routine Kernel α :=
  zoom Kernel.system (fun system kernel => { kernel with system := system })
    routine

def goto (current : Nat) (point : Point) : Routine Kernel Unit :=
  update fun kernel =>
    { kernel with point := Function.update kernel.point current point }

def log (entry : Option (Nat × Nat)) : Routine Kernel Unit :=
  update fun kernel => { kernel with put := entry.toList ++ kernel.put }

end Kernel

/-- What tasks do between two points. -/
inductive Action where
  /-- `sys_open`, and `sys_creat` with the flags `O_CREAT | O_TRUNC`. -/
  | open (current : Nat) (flag : BitVec 32)
  | named (current fd index : Nat) (flag : BitVec 32)
      (result : Except Int (Nat × Inode))
  | resumed (current : Nat) (point : Point)
  | pipe (current : Nat)
  | gotPipe (current : Nat) (fds indices : Nat × Nat) (number : Option Nat)
  | close (current fd : Nat)
  | closed (current : Nat)
  | dup (current fildes : Nat)
  /-- `F_DUPFD` of `sys_fcntl`. -/
  | fcntl (current fd arg : Nat)
  | dup2 (current oldfd newfd : Nat)
  | copied (current oldfd newfd : Nat)
  | fork (current : Nat) (enough : Bool)
  | exit (current : Nat)
  | exiting (current next : Nat)
  /-- `release`, by the father of a dead task. -/
  | release (slot : Nat)

namespace Action

open Kernel

def perform : Action → Routine Kernel Unit
  | .open current flag => do
      match ← within (takeFile current) with
      | .error code => goto current (.user code)
      | .ok (fd, index) => goto current (.naming fd index flag)
  | .named current fd index flag result => do
      let kernel ← read
      match kernel.system.task current with
      | none => abandon
      | some task => do
          let point ← within (afterNaming current task fd index flag result)
          goto current point
  | .resumed current point => do
      let eax ← within (resumeOpen current point)
      goto current (.user eax)
  | .pipe current => do
      match ← within (takePipe current) with
      | .error code => goto current (.user code)
      | .ok (fds, indices) => goto current (.piping fds indices)
  | .gotPipe current fds indices number => do
      let eax ← within (afterPipe current fds indices number)
      goto current (.user eax)
  | .close current fd => do
      let closed ← within (closeFile current fd)
      log closed.2
      goto current (if closed.2.isSome then .closing else .user closed.1)
  | .closed current => goto current (.user 0)
  | .dup current fildes => do
      let eax ← within (sysDup current fildes)
      goto current (.user eax)
  | .fcntl current fd arg => do
      let eax ← within (dupfd current fd arg)
      goto current (.user eax)
  | .dup2 current oldfd newfd => do
      let closed ← within (closeFile current newfd)
      log closed.2
      goto current (.copying oldfd newfd)
  | .copied current oldfd newfd => do
      let eax ← within (dupfd current oldfd newfd)
      goto current (.user eax)
  | .fork current enough => do
      let eax ← within (Files.fork current enough)
      if 0 ≤ eax then
        goto eax.toNat (.user 0)
      goto current (.user eax)
  | .exit current => goto current (.exiting 0)
  | .exiting current next => do
      let kernel ← read
      if nrOpen ≤ next then
        goto current .dead
      else if (kernel.system.filp current next).isSome then do
        let closed ← within (closeFile current next)
        log closed.2
        goto current (.exiting (next + 1))
      else
        goto current (.exiting (next + 1))
  | .release slot =>
    update fun kernel =>
      { kernel with
        system :=
          { kernel.system with
            task := Function.update kernel.system.task slot none } }

/-- The task that acts, or that is released. -/
def current : Action → Nat
  | .open current _ | .named current _ _ _ _ | .resumed current _
  | .pipe current | .gotPipe current _ _ _ | .close current _
  | .closed current | .dup current _ | .fcntl current _ _
  | .dup2 current _ _ | .copied current _ _ | .fork current _
  | .exit current | .exiting current _ | .release current => current

/-- Whether the task is where the action starts. -/
def startsAt (point : Point) : Action → Bool
  | .open _ _ | .pipe _ | .close _ _ | .dup _ _ | .fcntl _ _ _ | .dup2 _ _ _
  | .fork _ _ | .exit _ => point.isUser
  | .named _ fd index flag _ => point == .naming fd index flag
  | .resumed _ asleep => point == asleep && asleep.isOpening
  | .gotPipe _ fds indices _ => point == .piping fds indices
  | .closed _ => point == .closing
  | .copied _ oldfd newfd => point == .copying oldfd newfd
  | .exiting _ next => point == .exiting next
  | .release _ => point == .dead

/-- A task that is there acts from where it is. -/
def enabled (action : Action) (kernel : Kernel) : Bool :=
  (kernel.system.task action.current).isSome &&
    action.startsAt (kernel.point action.current)

end Action

/-- Tasks that open, copy and close files, from a system without open files. -/
def descriptorMachine : Machine Kernel Action where
  initial kernel :=
    (∀ slot, kernel.system.entry slot = none) ∧
      (∀ slot, nrTasks ≤ slot → kernel.system.task slot = none) ∧
      (∀ index, kernel.system.count index = 0#16) ∧
      (∀ slot, kernel.point slot = .user 0) ∧
      kernel.put = []
  enabled action kernel :=
    action.enabled kernel = true
  perform := Action.perform

end Files

end HitOs
