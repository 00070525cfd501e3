import HitOs.Occurrences
import HitOs.Routine

namespace HitOs

/-!
# Open files

Descriptors, the file table, and the system calls that obtain, copy, position,
write through and close them.  What the path of `open_namei` leads to, where
free zones are and what a device does are arguments of the calls, so that a
result about all arguments holds whatever they are.
-/

namespace Files

open Routine

/-! ## Constants of the headers -/

def nrOpen : Nat := 20
def nrFile : Nat := 64
def nrTasks : Nat := 64
def blockSize : Nat := 1024

/-- `O_ACCMODE` and the other open flags of `fcntl.h`. -/
def oAccMode : BitVec 32 := 0o3#32
def oWronly : BitVec 32 := 0o1#32
def oCreat : BitVec 32 := 0o100#32
def oExcl : BitVec 32 := 0o200#32
def oTrunc : BitVec 32 := 0o1000#32
def oAppend : BitVec 32 := 0o2000#32
def oNonblock : BitVec 32 := 0o4000#32

def mayWrite : BitVec 32 := 2#32
def eperm : Int := 1
def enoent : Int := 2
def eio : Int := 5
def ebadf : Int := 9
def eagain : Int := 11
def eacces : Int := 13
def eexist : Int := 17
def eisdir : Int := 21
def einval : Int := 22
def emfile : Int := 24
def enospc : Int := 28
def espipe : Int := 29

def major (device : Nat) : Nat := device / 256
def minor (device : Nat) : Nat := device % 256

/-- `IS_SEEKABLE` of a major number: memory, floppy and hard disk. -/
def isSeekable (number : Nat) : Bool :=
  decide (1 ≤ number ∧ number ≤ 3)

/-! ## Inodes, files and tasks -/

/-- An inode with the bytes of its file; the times are left out. -/
structure Inode where
  mode : BitVec 16
  uid : Nat
  gid : Nat
  nlinks : Nat
  dev : Nat
  /-- `i_zone[0]`, the device number of a special file. -/
  zone0 : Nat
  pipe : Bool
  size : Nat
  byte : Nat → BitVec 8

namespace Inode

/-- `i_mode & S_IFMT` -/
def format (inode : Inode) : BitVec 16 :=
  inode.mode &&& 0o170000#16

def isRegular (inode : Inode) : Bool :=
  inode.format == 0o100000#16

def isBlock (inode : Inode) : Bool :=
  inode.format == 0o060000#16

def isDirectory (inode : Inode) : Bool :=
  inode.format == 0o040000#16

def isCharacter (inode : Inode) : Bool :=
  inode.format == 0o020000#16

/-- `truncate`: only regular files and directories have zones. -/
def truncate (inode : Inode) : Inode :=
  if inode.isRegular || inode.isDirectory then
    { inode with size := 0, byte := fun _ => 0#8 }
  else
    inode

/-- Bytes stored at a position, with `i_size` where the file grows. -/
def store
    (inode : Inode)
    (pos : Nat)
    (bytes : List (BitVec 8)) : Inode :=
  { inode with
    size := max inode.size (pos + bytes.length)
    byte := fun position =>
      if pos ≤ position then bytes.getD (position - pos) (inode.byte position)
      else inode.byte position }

end Inode

/-- An entry of `file_table`. -/
structure File where
  mode : BitVec 16
  flags : BitVec 16
  count : BitVec 16
  inode : Nat
  pos : Nat

/-- The fields of a task that the calls read. -/
structure Task where
  euid : Nat
  egid : Nat
  umask : BitVec 32
  leader : Bool
  tty : Int
  closeOnExec : BitVec 32
  filp : Nat → Option Nat

/-- `task`, `file_table` and the inodes in use. -/
structure System where
  task : Nat → Option Task
  file : Nat → File
  inode : Nat → Option Inode

namespace System

/-- `filp[fd]` of a task. -/
def filp (system : System) (current fd : Nat) : Option Nat :=
  (system.task current).bind fun task => task.filp fd

def changeTask
    (current : Nat)
    (change : Task → Task)
    (system : System) : System :=
  { system with
    task :=
      Function.update system.task current
        ((system.task current).map change) }

def setFilp
    (current fd : Nat)
    (value : Option Nat)
    (system : System) : System :=
  system.changeTask current fun task =>
    { task with filp := Function.update task.filp fd value }

/-- `close_on_exec &= ~(1<<fd)` -/
def keepOnExec
    (current fd : Nat)
    (system : System) : System :=
  system.changeTask current fun task =>
    { task with closeOnExec := task.closeOnExec &&& ~~~(1#32 <<< fd) }

def changeFile
    (index : Nat)
    (change : File → File)
    (system : System) : System :=
  { system with
    file := Function.update system.file index (change (system.file index)) }

def setInode
    (number : Nat)
    (value : Option Inode)
    (system : System) : System :=
  { system with inode := Function.update system.inode number value }

end System

/-! ## Permission -/

/-- `ACC_MODE`: the last entry of the table is `'\377'`, a signed character. -/
def accMode (flag : BitVec 32) : BitVec 32 :=
  match (flag &&& oAccMode).toNat with
  | 0 => 4#32
  | 1 => 2#32
  | 2 => 6#32
  | _ => 0xffffffff#32

def suser (task : Task) : Bool :=
  task.euid == 0

def permission
    (task : Task)
    (inode : Inode)
    (mask : BitVec 32) : Bool :=
  -- not even root can read or write a deleted file
  if inode.dev ≠ 0 ∧ inode.nlinks = 0 then
    false
  else
    let mode :=
      if task.euid = inode.uid then inode.mode >>> 6
      else if task.egid = inode.gid then inode.mode >>> 3
      else inode.mode
    (mode.setWidth 32 &&& mask &&& 7#32) == mask || suser task

/-! ## Opening -/

/-- What the path given to `open_namei` leads to. -/
inductive Lookup where
  /-- `dir_namei` fails. -/
  | noDirectory
  /-- A path that ends in a slash. -/
  | directory (number : Nat)
  /--
  No entry in a directory: the inode that `new_inode` hands out, and whether
  `add_entry` has room.
  -/
  | missing (directory : Nat) (fresh : Option Nat) (added : Bool)
  /-- An entry with an inode number. -/
  | found (number : Nat)

/-- `O_TRUNC` asks for write access even without an access mode. -/
def openFlag (flag : BitVec 32) : BitVec 32 :=
  if flag &&& oTrunc ≠ 0#32 ∧ flag &&& oAccMode = 0#32 then
    flag ||| oWronly
  else
    flag

/-- The inode that `new_inode` and `open_namei` fill in. -/
def newInode (task : Task) (directory : Inode) (mode : BitVec 32) : Inode where
  mode := (mode &&& 0o777#32 &&& ~~~task.umask ||| 0o100000#32).setWidth 16
  uid := task.euid
  gid := task.egid % 256
  nlinks := 1
  dev := directory.dev
  zone0 := 0
  pipe := false
  size := 0
  byte _ := 0#8

def openNamei
    (task : Task)
    (lookup : Lookup)
    (flags mode : BitVec 32) : Routine System (Except Int Nat) :=
  let flag := openFlag flags
  match lookup with
  | .noDirectory => pure (.error (-enoent))
  | .directory number =>
    if flag &&& (oAccMode ||| oCreat ||| oTrunc) = 0#32 then
      pure (.ok number)
    else
      pure (.error (-eisdir))
  | .missing directory fresh added => do
      let system ← read
      if flag &&& oCreat = 0#32 then
        pure (.error (-enoent))
      else
        match system.inode directory with
        | none => pure (.error (-enoent))
        | some parent =>
          if !permission task parent mayWrite then
            pure (.error (-eacces))
          else
            match fresh with
            | none => pure (.error (-enospc))
            | some number => do
                update (System.setInode number
                  (some (newInode task parent mode)))
                if added then
                  pure (.ok number)
                else do
                  -- `iput` of an inode without links frees it
                  update (System.setInode number none)
                  pure (.error (-enospc))
  | .found number => do
      let system ← read
      if flag &&& oExcl ≠ 0#32 then
        pure (.error (-eexist))
      else
        match system.inode number with
        | none => pure (.error (-eacces))
        | some inode =>
          if (inode.isDirectory && decide (flag &&& oAccMode ≠ 0#32)) ||
              !permission task inode (accMode flag) then
            pure (.error (-eperm))
          else do
            if flag &&& oTrunc ≠ 0#32 then
              update (System.setInode number (some inode.truncate))
            pure (.ok number)

/-- The lowest descriptor from `first` on that is not in use. -/
def freeDescriptor
    (system : System)
    (current first : Nat) : Option Nat :=
  (List.range' first (nrOpen - first)).find? fun fd =>
    (system.filp current fd).isNone

/-- The first entry of `file_table` with `f_count` zero. -/
def freeFile (system : System) : Option Nat :=
  (List.range nrFile).find? fun index =>
    (system.file index).count == 0#16

/-- Give up the descriptor and the file that an open had taken. -/
def undoOpen (current fd index : Nat) : Routine System Unit :=
  update fun system =>
    (system.setFilp current fd none).changeFile index fun file =>
      { file with count := 0#16 }

/--
What `sys_open` does for a terminal: a session leader without one gets it, and
`/dev/tty` needs one.
-/
def openTerminal
    (current : Nat)
    (task : Task)
    (inode : Inode) : Routine System Bool :=
  if inode.isCharacter then
    if major inode.zone0 = 4 then do
      if task.leader && decide (task.tty < 0) then
        update (System.changeTask current fun task =>
          { task with tty := minor inode.zone0 })
      pure true
    else
      pure (decide (major inode.zone0 ≠ 5 ∨ 0 ≤ task.tty))
  else
    pure true

def sysOpen
    (current : Nat)
    (lookup : Lookup)
    (flag mode : BitVec 32) : Routine System Int := do
  let system ← read
  match system.task current with
  | none => abandon
  | some task =>
    let mode := mode &&& 0o777#32 &&& ~~~task.umask
    match freeDescriptor system current 0 with
    | none => pure (-einval)
    | some fd => do
        update (System.keepOnExec current fd)
        match freeFile system with
        | none => pure (-einval)
        | some index => do
            update fun system =>
              (system.setFilp current fd (some index)).changeFile index
                fun file => { file with count := file.count + 1#16 }
            match ← openNamei task lookup flag mode with
            | .error code => do
                undoOpen current fd index
                pure code
            | .ok number => do
                let opened ← read
                match opened.inode number with
                | none => abandon
                | some inode =>
                  if ← openTerminal current task inode then do
                    update (System.changeFile index fun _ =>
                      { mode := inode.mode
                        flags := flag.setWidth 16
                        count := 1#16
                        inode := number
                        pos := 0 })
                    pure fd
                  else do
                    undoOpen current fd index
                    pure (-eperm)

def sysCreat
    (current : Nat)
    (lookup : Lookup)
    (mode : BitVec 32) : Routine System Int :=
  sysOpen current lookup (oCreat ||| oTrunc) mode

/-! ## Closing and copying descriptors -/

def sysClose (current fd : Nat) : Routine System Int := do
  if nrOpen ≤ fd then
    pure (-einval)
  else do
    update (System.keepOnExec current fd)
    let system ← read
    match system.filp current fd with
    | none => pure (-einval)
    | some index => do
        update (System.setFilp current fd none)
        if (system.file index).count = 0#16 then
          Routine.panic "Close: file count is 0"
        else do
          update (System.changeFile index fun file =>
            { file with count := file.count - 1#16 })
          pure 0

def dupfd (current fd arg : Nat) : Routine System Int := do
  let system ← read
  match if fd < nrOpen then system.filp current fd else none with
  | none => pure (-ebadf)
  | some index =>
    if nrOpen ≤ arg then
      pure (-einval)
    else
      match freeDescriptor system current arg with
      | none => pure (-emfile)
      | some free => do
          update fun system =>
            ((system.keepOnExec current free).setFilp current free
              (some index)).changeFile index fun file =>
                { file with count := file.count + 1#16 }
          pure free

def sysDup (current fildes : Nat) : Routine System Int :=
  dupfd current fildes 0

def sysDup2 (current oldfd newfd : Nat) : Routine System Int := do
  let _ ← sysClose current newfd
  dupfd current oldfd newfd

/-- `F_SETFL` of `sys_fcntl`. -/
def setFlags (current fd : Nat) (arg : BitVec 32) : Routine System Int := do
  let system ← read
  match if fd < nrOpen then system.filp current fd else none with
  | none => pure (-ebadf)
  | some index => do
      let changing : BitVec 16 := (oAppend ||| oNonblock).setWidth 16
      update (System.changeFile index fun file =>
        { file with
          flags := file.flags &&& ~~~changing ||| arg.setWidth 16 &&& changing })
      pure 0

/-- The slot that `find_empty_process` finds. -/
def findEmptyProcess (system : System) : Option Nat :=
  (List.range' 1 (nrTasks - 1)).find? fun slot =>
    (system.task slot).isNone

/--
`sys_fork`, as far as descriptors are concerned; `enough` says whether there was
memory for the copy.  The slot stands for the process number that is returned.
-/
def fork (current : Nat) (enough : Bool) : Routine System Int := do
  let system ← read
  match system.task current, findEmptyProcess system with
  | some task, some slot =>
    if enough then do
      update fun system =>
        { system with
          task :=
            Function.update system.task slot
              (some { task with leader := false }) }
      forUp
        (fun fd =>
          match task.filp fd with
          | none => pure ()
          | some index =>
            update (System.changeFile index fun file =>
              { file with count := file.count + 1#16 }))
        nrOpen 0
      pure slot
    else
      pure (-eagain)
  | _, _ => pure (-eagain)

/-! ## Positions -/

/-- A signed 32-bit value. -/
def signed (value : Int) : Int :=
  value.bmod (2 ^ 32)

def setPos (index : Nat) (pos : Int) : Routine System Int :=
  if pos < 0 then
    pure (-einval)
  else do
    update (System.changeFile index fun file =>
      { file with pos := pos.toNat })
    pure pos

def sysLseek
    (current fd : Nat)
    (offset : BitVec 32)
    (origin : Nat) : Routine System Int := do
  let system ← read
  match if fd < nrOpen then system.filp current fd else none with
  | none => pure (-ebadf)
  | some index =>
    match system.inode (system.file index).inode with
    | none => pure (-ebadf)
    | some inode =>
      if !isSeekable (major inode.dev) then
        pure (-ebadf)
      else if inode.pipe then
        pure (-espipe)
      else
        match origin with
        | 0 => setPos index offset.toInt
        | 1 =>
          setPos index
            (signed ((system.file index).pos + offset.toInt))
        | 2 => setPos index (signed (inode.size + offset.toInt))
        | _ => pure (-einval)

/-! ## Writing -/

/-- The blocks that `_bmap` can number. -/
def mapped : Nat := 7 + 512 + 512 * 512

/--
The loop of `file_write` from `pos` on, while there are bytes and as long as
`create_block` and `bread` succeed, `room` times at most.
-/
def writeBlocks
    (inode : Inode)
    (pos : Nat) :
    Nat → List (BitVec 8) → Routine System (Inode × Nat)
  | 0, _ => pure (inode, pos)
  | _, [] => pure (inode, pos)
  | room + 1, bytes =>
    if mapped ≤ pos / blockSize then
      Routine.panic "_bmap: block>big"
    else
      let chars := min (blockSize - pos % blockSize) bytes.length
      writeBlocks (inode.store pos (bytes.take chars)) (pos + chars) room
        (bytes.drop chars)

def fileWrite
    (index number : Nat)
    (bytes : List (BitVec 8))
    (room : Nat) : Routine System Int := do
  let system ← read
  match system.inode number with
  | none => abandon
  | some inode => do
      let file := system.file index
      let appends := decide (file.flags &&& oAppend.setWidth 16 ≠ 0#16)
      let pos := if appends then inode.size else file.pos
      let (written, last) ← writeBlocks inode pos room bytes
      update (System.setInode number (some written))
      if !appends then
        update (System.changeFile index fun file => { file with pos := last })
      pure (if last = pos then -1 else ((last - pos : Nat) : Int))

/-- What a write to a pipe, a terminal or a device does. -/
structure DeviceWrite where
  result : Int
  pos : Nat
  /-- What becomes of the files on a block device that is written directly. -/
  contents : Nat → Nat × (Nat → BitVec 8) → Nat × (Nat → BitVec 8)

/-- The bytes of the files after a direct write to the device under them. -/
def rawWrite
    (device : DeviceWrite)
    (system : System) : System :=
  { system with
    inode := fun number =>
      (system.inode number).map fun inode =>
        let contents := device.contents number (inode.size, inode.byte)
        { inode with size := contents.1, byte := contents.2 } }

def sysWrite
    (current fd : Nat)
    (buf : Nat → BitVec 8)
    (count : Int)
    (room : Nat)
    (device : DeviceWrite) : Routine System Int := do
  let system ← read
  match if fd < nrOpen ∧ 0 ≤ count then system.filp current fd else none with
  | none => pure (-einval)
  | some index =>
    if count = 0 then
      pure 0
    else
      let file := system.file index
      let number := file.inode
      match system.inode number with
      | none => abandon
      | some inode =>
        if inode.pipe then
          -- `f_mode` is the mode of the inode here
          pure (if file.mode &&& 2#16 ≠ 0#16 then device.result else -eio)
        else if inode.isCharacter then do
          update (System.changeFile index fun file =>
            { file with pos := device.pos })
          pure device.result
        else if inode.isBlock then do
          update (rawWrite device)
          update (System.changeFile index fun file =>
            { file with pos := device.pos })
          pure device.result
        else if inode.isRegular then
          fileWrite index number
            ((List.range count.toNat).map buf) room
        else
          pure (-einval)

end Files

end HitOs
