import HitOs.OtherTasks
import HitOs.UserStores

namespace HitOs

/-!
# System calls that store into user memory

`sys_whoami` of `kernel/who.c`, `sys_pipe` of `fs/pipe.c`, `sys_time` and
`sys_uname` of `kernel/sys.c`, `sys_waitpid` of `kernel/exit.c`, and `cp_stat` of
`fs/stat.c`.  Console output and accounting times are left out.  `noPage` is the
page-fault handler that a store to an absent page runs.  Only `sys_waitpid`
sleeps; an unused inode is taken to be at hand for `sys_pipe`.
-/

namespace Memory

open Routine

/-! ## `sys_whoami` -/

/-- `msg`, as `sys_iam` leaves it: a string that fits its 24 bytes. -/
structure Message where
  text : List Byte
  fits :
    text.length < 24
  noNul :
    0#8 ∉ text

/-- `msg[i]` -/
def Message.at (message : Message) (i : Nat) : Byte :=
  message.text.getD i 0#8

/-- The loop of `sys_whoami`, with `remaining` iterations left. -/
def whoamiLoop
    (noPage : Nat → Routine Memory Unit)
    (task : Nat)
    (message : Message)
    (name : Nat) :
    Nat → Nat → Routine Memory Int
  | 0, i => pure i
  | remaining + 1, i => do
      putFsByte noPage task (name + i) (message.at i)
      if message.at i = 0#8 then
        pure i
      else
        whoamiLoop noPage task message name remaining (i + 1)

/-- `sys_whoami`; `-22` is `-EINVAL`. -/
def sysWhoami
    (noPage : Nat → Routine Memory Unit)
    (task : Nat)
    (message : Message)
    (name size : Nat) : Routine Memory Int :=
  if size < message.text.length then
    pure (-22)
  else
    whoamiLoop noPage task message name size 0

/-! ## `sys_pipe` -/

/-- A `struct file`. -/
structure FileSlot where
  fMode : Nat
  fCount : Nat
  fInode : Option Nat
  fPos : Nat

/-- `file_table` and the `filp` table of the current task. -/
structure FileTables where
  fileTable : Nat → FileSlot
  filp : Nat → Option Nat

/-- The first two indices below `count` that pass a test. -/
def firstTwo (count : Nat) (free : Nat → Bool) : Option (Nat × Nat) :=
  match (List.range count).filter free with
  | first :: second :: _ => some (first, second)
  | _ => none

/-- The two file-table entries and the two descriptors of a new pipe. -/
def pipeSlots (files : FileTables) : Option ((Nat × Nat) × (Nat × Nat)) := do
  let slots ← firstTwo 64 fun i => (files.fileTable i).fCount == 0
  let fds ← firstTwo 20 fun i => files.filp i == none
  pure (slots, fds)

/-- The tables with the two ends of the pipe in place. -/
def openPipe
    (files : FileTables)
    (slots fds : Nat × Nat)
    (inode : Nat) : FileTables where
  fileTable :=
    Function.update
      (Function.update files.fileTable slots.1 ⟨1, 1, some inode, 0⟩)
      slots.2 ⟨2, 1, some inode, 0⟩
  filp :=
    Function.update (Function.update files.filp fds.1 (some slots.1))
      fds.2 (some slots.2)

/--
`sys_pipe`, for the unused inode that `get_pipe_inode` takes.  Its result is
paired with the file tables; a call that fails puts them back.
-/
def sysPipe
    (noPage : Nat → Routine Memory Unit)
    (task : Nat)
    (files : FileTables)
    (inode fildes : Nat) : Routine Memory (Int × FileTables) :=
  match pipeSlots files with
  | none => pure (-1, files)
  | some (slots, fds) => do
      let page ← getFreePage
      if page = 0 then
        pure (-1, files)
      else
        putFsLong noPage task fildes (BitVec.ofNat 32 fds.1)
        putFsLong noPage task (fildes + 4) (BitVec.ofNat 32 fds.2)
        pure (0, openPipe files slots fds inode)

/-! ## `sys_time` and `sys_uname` -/

/-- `sys_time`, when the clock shows `now`. -/
def sysTime
    (noPage : Nat → Routine Memory Unit)
    (task : Nat)
    (now : Word)
    (tloc : Nat) : Routine Memory Word :=
  if tloc ≠ 0 then do
    verifyArea (task * slotSize) tloc 4
    putFsLong noPage task tloc now
    pure now
  else
    pure now

/-- A field of `struct utsname`: nine characters, padded with NUL. -/
def utsField (text : String) : List Byte :=
  (List.range 9).map fun i =>
    ((text.toList.map fun character =>
      BitVec.ofNat 8 character.toNat).getD i 0#8)

/-- `thisname` -/
def thisname : List Byte :=
  utsField "linux .0" ++ utsField "nodename" ++ utsField "release " ++
    utsField "version " ++ utsField "machine "

/-- `sys_uname`; `-99` is `-ERROR`. -/
def sysUname
    (noPage : Nat → Routine Memory Unit)
    (task : Nat)
    (name : Nat) : Routine Memory Int :=
  if name = 0 then
    pure (-99)
  else do
    verifyArea (task * slotSize) name thisname.length
    putFsBytes noPage task name thisname
    pure 0

/-! ## `cp_stat` -/

/-- The fields of a `struct m_inode` that `cp_stat` copies. -/
structure InodeStat where
  iDev : BitVec 16
  iNum : BitVec 16
  iMode : BitVec 16
  iNlinks : BitVec 8
  iUid : BitVec 16
  iGid : BitVec 8
  iZone0 : BitVec 16
  iSize : Word
  iAtime : Word
  iMtime : Word
  iCtime : Word

/-- The bytes of an `unsigned short`. -/
def shortBytes (half : BitVec 16) : List Byte :=
  [half.extractLsb' 0 8, half.extractLsb' 8 8]

/-- The bytes of `tmp`; `padding` is what lies on the stack between its fields. -/
def statBytes (inode : InodeStat) (padding : Fin 4 → Byte) : List Byte :=
  shortBytes inode.iDev ++ shortBytes inode.iNum ++
    shortBytes inode.iMode ++ [inode.iNlinks, padding 0] ++
    shortBytes inode.iUid ++ [inode.iGid, padding 1] ++
    shortBytes inode.iZone0 ++ [padding 2, padding 3] ++
    longBytes inode.iSize ++ longBytes inode.iAtime ++
    longBytes inode.iMtime ++ longBytes inode.iCtime

/-- `sizeof (struct stat)` -/
def statSize : Nat :=
  32

/-- `cp_stat` -/
def cpStat
    (noPage : Nat → Routine Memory Unit)
    (task : Nat)
    (inode : InodeStat)
    (padding : Fin 4 → Byte)
    (statbuf : Nat) : Routine Memory Unit := do
  verifyArea (task * slotSize) statbuf statSize
  putFsBytes noPage task statbuf (statBytes inode padding)

theorem statBytes_length
    (inode : InodeStat)
    (padding : Fin 4 → Byte) :
    (statBytes inode padding).length = statSize :=
  rfl

/-! ## `sys_waitpid` -/

/-- The states of a task. -/
inductive TaskState where
  | running
  | interruptible
  | uninterruptible
  | zombie
  | stopped
  deriving Repr, DecidableEq

/-- The fields of a `struct task_struct` that `sys_waitpid` reads. -/
structure TaskStruct where
  pid : Int
  father : Int
  pgrp : Int
  state : TaskState
  exitCode : Word
  /-- The page that holds the structure. -/
  page : Nat

/-- What the loop over the task table finds. -/
inductive Found where
  | stopped (child : TaskStruct)
  | zombie (nr : Nat) (child : TaskStruct)
  /-- The value of `flag` after the loop. -/
  | nothing (flag : Bool)

/-- Whether `sys_waitpid` waits for a task. -/
def waitsFor (current : TaskStruct) (pid : Int) (child : TaskStruct) :
    Bool :=
  if child.father ≠ current.pid then
    false
  else if 0 < pid then
    child.pid == pid
  else if pid = 0 then
    child.pgrp == current.pgrp
  else if pid ≠ -1 then
    child.pgrp == -pid
  else
    true

/--
The loop of `sys_waitpid`, down from task `count`, for the current task number
`nr`; `untraced` is the option `WUNTRACED`.
-/
def waitpidScan
    (tasks : Nat → Option TaskStruct)
    (nr : Nat)
    (current : TaskStruct)
    (pid : Int)
    (untraced : Bool) :
    Nat → Bool → Found
  | 0, flag => .nothing flag
  | count + 1, flag =>
    match tasks (count + 1) with
    | none => waitpidScan tasks nr current pid untraced count flag
    | some child =>
      if count + 1 = nr ∨ ¬ waitsFor current pid child then
        waitpidScan tasks nr current pid untraced count flag
      else
        match child.state with
        | .stopped =>
          if untraced then
            .stopped child
          else
            waitpidScan tasks nr current pid untraced count flag
        | .zombie => .zombie (count + 1) child
        | _ => waitpidScan tasks nr current pid untraced count true

/-- The arguments of `sys_waitpid`, with its options taken apart. -/
structure WaitArguments where
  pid : Int
  statAddr : Nat
  noHang : Bool
  untraced : Bool

/-- The task table beside the memory manager. -/
structure Waiting where
  kernel : Kernel
  tasks : Nat → Option TaskStruct

/--
The states in which the calling task stands at the label `repeat`: the first
time, and each time `schedule` has come back to it without another signal than
`SIGCHLD`.  In between the other tasks run, and the task table is theirs.
-/
inductive WaitsAgain
    (extMemK nr : Nat)
    (current : TaskStruct)
    (arguments : WaitArguments)
    (first : Waiting) : Waiting → Prop where
  | first :
      WaitsAgain extMemK nr current arguments first first
  | slept
      {waiting after : Waiting} {calls : List PageCall}
      (before : WaitsAgain extMemK nr current arguments first waiting)
      (scanned :
        waitpidScan waiting.tasks nr current arguments.pid
          arguments.untraced 63 false = .nothing true)
      (hangs : arguments.noHang = false)
      (others :
        Traces (OthersStep extMemK nr) calls waiting.kernel
          after.kernel) :
      WaitsAgain extMemK nr current arguments first after

/-! ## The calls of one task -/

/-- A system call with its arguments and the kernel data that it reads. -/
inductive SystemCall where
  | whoami (message : Message) (name size : Nat)
  | pipe (files : FileTables) (inode fildes : Nat)
  | time (now : Word) (tloc : Nat)
  | uname (name : Nat)
  | cpStat (inode : InodeStat) (padding : Fin 4 → Byte) (statbuf : Nat)
  | waitpid
      (current : TaskStruct)
      (tasks : Nat → Option TaskStruct)
      (arguments : WaitArguments)

/--
The steps that a call takes itself, from `before` to `after`, when it is made in
`start`.  Every call is one step, but `sys_waitpid`: it verifies its argument,
sleeps, and stores when it finds a child; a zombie is released first, which
sleeps once more.
-/
inductive OwnStep
    (extMemK : Nat)
    (noPage : Nat → Routine Memory Unit)
    (task : Nat)
    (start : Kernel) : SystemCall → Memory → Memory → Prop where
  | whoami
      {message : Message} {name size : Nat} {after : Memory}
      (ends :
        (sysWhoami noPage task message name size
          start.memory).EndsIn after) :
      OwnStep extMemK noPage task start (.whoami message name size)
        start.memory after
  | pipe
      {files : FileTables} {inode fildes : Nat} {after : Memory}
      (ends :
        (sysPipe noPage task files inode fildes
          start.memory).EndsIn after) :
      OwnStep extMemK noPage task start (.pipe files inode fildes)
        start.memory after
  | time
      {now : Word} {tloc : Nat} {after : Memory}
      (ends :
        (sysTime noPage task now tloc start.memory).EndsIn after) :
      OwnStep extMemK noPage task start (.time now tloc) start.memory
        after
  | uname
      {name : Nat} {after : Memory}
      (ends : (sysUname noPage task name start.memory).EndsIn after) :
      OwnStep extMemK noPage task start (.uname name) start.memory after
  | cpStat
      {inode : InodeStat} {padding : Fin 4 → Byte} {statbuf : Nat}
      {after : Memory}
      (ends :
        (cpStat noPage task inode padding statbuf
          start.memory).EndsIn after) :
      OwnStep extMemK noPage task start (.cpStat inode padding statbuf)
        start.memory after
  | waitpidVerify
      {current : TaskStruct} {tasks : Nat → Option TaskStruct}
      {arguments : WaitArguments} {after : Memory}
      (ends :
        (verifyArea (task * slotSize) arguments.statAddr 4
          start.memory).EndsIn after) :
      OwnStep extMemK noPage task start
        (.waitpid current tasks arguments) start.memory after
  | waitpidStopped
      {current child : TaskStruct} {tasks : Nat → Option TaskStruct}
      {arguments : WaitArguments} {verified after : Memory}
      {waiting : Waiting}
      (verifies :
        verifyArea (task * slotSize) arguments.statAddr 4 start.memory =
          .ret () verified)
      (waits :
        WaitsAgain extMemK task current arguments
          ⟨⟨verified, start.held⟩, tasks⟩ waiting)
      (scanned :
        waitpidScan waiting.tasks task current arguments.pid
          arguments.untraced 63 false = .stopped child)
      (ends :
        (putFsLong noPage task arguments.statAddr 0x7f#32
          waiting.kernel.memory).EndsIn after) :
      OwnStep extMemK noPage task start
        (.waitpid current tasks arguments) waiting.kernel.memory after
  | waitpidRelease
      {current child : TaskStruct} {tasks : Nat → Option TaskStruct}
      {arguments : WaitArguments} {verified after : Memory}
      {waiting : Waiting} {nr : Nat}
      (verifies :
        verifyArea (task * slotSize) arguments.statAddr 4 start.memory =
          .ret () verified)
      (waits :
        WaitsAgain extMemK task current arguments
          ⟨⟨verified, start.held⟩, tasks⟩ waiting)
      (scanned :
        waitpidScan waiting.tasks task current arguments.pid
          arguments.untraced 63 false = .zombie nr child)
      (isHeld : 0 < waiting.kernel.held child.page)
      (ends : (freePage child.page waiting.kernel.memory).EndsIn after) :
      OwnStep extMemK noPage task start
        (.waitpid current tasks arguments) waiting.kernel.memory after
  | waitpidZombie
      {current child : TaskStruct} {tasks : Nat → Option TaskStruct}
      {arguments : WaitArguments} {verified freed after : Memory}
      {waiting : Waiting} {waking : Kernel} {nr : Nat}
      {calls : List PageCall}
      (verifies :
        verifyArea (task * slotSize) arguments.statAddr 4 start.memory =
          .ret () verified)
      (waits :
        WaitsAgain extMemK task current arguments
          ⟨⟨verified, start.held⟩, tasks⟩ waiting)
      (scanned :
        waitpidScan waiting.tasks task current arguments.pid
          arguments.untraced 63 false = .zombie nr child)
      (isHeld : 0 < waiting.kernel.held child.page)
      (released :
        freePage child.page waiting.kernel.memory = .ret () freed)
      (others :
        Traces (OthersStep extMemK task) calls
          ⟨freed, Function.update waiting.kernel.held child.page 0⟩
          waking)
      (ends :
        (putFsLong noPage task arguments.statAddr child.exitCode
          waking.memory).EndsIn after) :
      OwnStep extMemK noPage task start
        (.waitpid current tasks arguments) waking.memory after

end Memory

end HitOs
