import HitOs.Directories
import HitOs.InodeTable
import HitOs.PathStrings

namespace HitOs

/-!
# From a path name to an inode

`iget`, `iput` and what they call, `find_entry`, `get_dir`, `dir_namei`, `namei` and
`sys_chdir`, for calls that no other task interrupts and devices without errors.  The buffers are
left out: an inode in memory is written to `disk` and read from there.
-/

namespace Paths

open Routine
open Zones (nameLen entrySize matchEntry entryInode isReg isDir)
open Inodes (Index nrInode rootIno)

/-- `NR_SUPER` -/
abbrev nrSuper : Nat := 8

/-- The places of `super_block`. -/
abbrev Slot :=
  Fin nrSuper

/-- `S_ISBLK` -/
def isBlk (mode : Nat) : Bool :=
  mode &&& 0o170000 == 0o060000

/-- The fields of `d_inode` that these functions use; `zone` is `i_zone[0]`. -/
structure DInode where
  mode : Nat
  uid : Nat
  size : Nat
  gid : Nat
  nlinks : Nat
  zone : Nat
  deriving Repr, DecidableEq

/-- An inode in memory. -/
structure MInode extends DInode where
  dev : Nat
  num : Nat
  count : Nat
  dirt : Bool
  pipe : Bool
  mount : Bool
  deriving Repr, DecidableEq

/-- What `memset` leaves. -/
def MInode.zero : MInode where
  mode := 0
  uid := 0
  size := 0
  gid := 0
  nlinks := 0
  zone := 0
  dev := 0
  num := 0
  count := 0
  dirt := false
  pipe := false
  mount := false

/-- The device and the number of an inode. -/
abbrev Key :=
  Nat × Nat

def MInode.key (inode : MInode) : Key :=
  (inode.dev, inode.num)

structure SuperBlock where
  dev : Nat
  ninodes : Nat
  imapBlocks : Nat
  imount : Option Index

structure Kernel where
  inode : Index → MInode
  /-- `last_inode` of `get_empty_inode` -/
  last : Index
  super : Slot → SuperBlock
  /-- `current->root` -/
  root : Index
  /-- `current->pwd` -/
  pwd : Index
  euid : Nat
  egid : Nat
  /-- The inodes on the devices. -/
  disk : Key → DInode
  /-- What the entries of a directory are made of, one behind the other. -/
  data : Key → Block

namespace Kernel

def set (index : Index) (value : MInode) (kernel : Kernel) : Kernel :=
  { kernel with inode := Function.update kernel.inode index value }

/-- `inode->i_count = count` -/
def setCount (index : Index) (count : Nat) (kernel : Kernel) : Kernel :=
  kernel.set index { kernel.inode index with count := count }

/-- `inode->i_count++`; there are far fewer references than 2 ^ 16. -/
def raise (index : Index) (kernel : Kernel) : Kernel :=
  kernel.setCount index ((kernel.inode index).count + 1)

/-- `inode->i_count--` -/
def lower (index : Index) (kernel : Kernel) : Kernel :=
  kernel.setCount index ((kernel.inode index).count - 1)

/-- `inode->i_dirt = dirt` -/
def setDirt (index : Index) (dirt : Bool) (kernel : Kernel) : Kernel :=
  kernel.set index { kernel.inode index with dirt := dirt }

/-- `current->pwd = inode` -/
def setPwd (index : Index) (kernel : Kernel) : Kernel :=
  { kernel with pwd := index }

/-- `get_super` -/
def getSuper (dev : Nat) (kernel : Kernel) : Option Slot :=
  if dev = 0 then none
  else (List.finRange nrSuper).find? fun slot => (kernel.super slot).dev == dev

/-- The search for a mount point in `super_block`. -/
def mountedOn (index : Index) (kernel : Kernel) : Option Slot :=
  (List.finRange nrSuper).find? fun slot =>
    (kernel.super slot).imount == some index

/-- The search for an inode in `inode_table`. -/
def find (key : Key) (kernel : Kernel) : Option Index :=
  (List.finRange nrInode).find? fun index => (kernel.inode index).key == key

/-- What `get_empty_inode` looks at. -/
def table (kernel : Kernel) : Inodes.Table where
  inode := fun index =>
    { dev := (kernel.inode index).dev
      num := (kernel.inode index).num
      count := (kernel.inode index).count
      nlinks := (kernel.inode index).nlinks
      blk := isBlk (kernel.inode index).mode
      lock := false
      dirt := (kernel.inode index).dirt
      pipe := (kernel.inode index).pipe
      mount := (kernel.inode index).mount }
  last := kernel.last

end Kernel

/-! ## `iput` and `iget` -/

/-- `write_inode` -/
def writeInode (index : Index) : Routine Kernel Unit := do
  let kernel ← read
  let inode := kernel.inode index
  if !inode.dirt || inode.dev == 0 then
    pure ()
  else
    match kernel.getSuper inode.dev with
    | none => Routine.panic "trying to write inode without device"
    | some _ =>
      update fun kernel =>
        { kernel.setDirt index false with
          disk := Function.update kernel.disk inode.key inode.toDInode }

/-- The loop of `sync_inodes` over some places. -/
def syncEach : List Index → Routine Kernel Unit
  | [] => pure ()
  | index :: rest => do
      let kernel ← read
      if (kernel.inode index).dirt && !(kernel.inode index).pipe then
        writeInode index
      syncEach rest

/-- `sync_dev`; the inodes are all that is written here. -/
def syncDev : Routine Kernel Unit :=
  syncEach (List.finRange nrInode)

/-- `truncate`, of which the zones are left out -/
def truncate (index : Index) : Routine Kernel Unit := do
  let kernel ← read
  if isReg (kernel.inode index).mode || isDir (kernel.inode index).mode then
    update (Kernel.set index
      { kernel.inode index with zone := 0, size := 0, dirt := true })

/-- `free_inode`, of which the bit is left out -/
def freeInode (index : Index) : Routine Kernel Unit := do
  let kernel ← read
  let inode := kernel.inode index
  if inode.dev = 0 then
    update (Kernel.set index .zero)
  else if 1 < inode.count then
    Routine.panic "free_inode"
  else if inode.nlinks ≠ 0 then
    Routine.panic "trying to free inode with links"
  else
    match kernel.getSuper inode.dev with
    | none => Routine.panic "trying to free inode on nonexistent device"
    | some slot =>
      if inode.num < 1 ∨ (kernel.super slot).ninodes < inode.num then
        Routine.panic "trying to free inode 0 or nonexistant inode"
      else if min (kernel.super slot).imapBlocks 8 ≤ inode.num / 8192 then
        Routine.panic "nonexistent imap in superblock"
      else
        update (Kernel.set index .zero)

/-- `iput` from `repeat` on -/
def repeatPut (index : Index) : Routine Kernel Unit := do
  let kernel ← read
  let inode := kernel.inode index
  if 1 < inode.count then
    update (Kernel.lower index)
  else if inode.nlinks = 0 then
    truncate index
    freeInode index
  else
    -- Once the inode is written it is clean, and the next turn is the last one.
    writeInode index
    update (Kernel.lower index)

/-- `iput` -/
def iput (index : Index) : Routine Kernel Unit := do
  let kernel ← read
  let inode := kernel.inode index
  if inode.count = 0 then
    Routine.panic "iput: trying to free free inode"
  else if inode.pipe then
    if inode.count = 1 then
      update (Kernel.set index
        { inode with count := 0, dirt := false, pipe := false })
    else
      update (Kernel.lower index)
  else if inode.dev = 0 then
    update (Kernel.lower index)
  else
    if isBlk inode.mode then
      syncDev
    repeatPut index

/-- `get_empty_inode` -/
def getEmptyInode : Routine Kernel Index := do
  let kernel ← read
  match Inodes.search kernel.table nrInode kernel.last none with
  | (none, _) => Routine.panic "No free inodes in mem"
  | (some index, last) =>
    update fun kernel => { kernel with last := last }
    if (kernel.inode index).dirt && (kernel.inode index).dev == 0 then
      -- `write_inode` leaves it dirty, again and again.
      abandon
    else
      writeInode index
      update (Kernel.set index { MInode.zero with count := 1 })
      pure index

/-- `read_inode` -/
def readInode (index : Index) : Routine Kernel Unit := do
  let kernel ← read
  let inode := kernel.inode index
  match kernel.getSuper inode.dev with
  | none => Routine.panic "trying to read inode without dev"
  | some _ =>
    update fun kernel =>
      kernel.set index
        { inode with toDInode := kernel.disk inode.key }

/--
The loop of `iget`, where `turns` is one more than the mount points that it may come
through: a way through more of them than there are super blocks never ends.
-/
def igetLoop : Nat → Key → Index → Routine Kernel Index
  | 0, _, _ => abandon
  | turns + 1, key, empty => do
      let kernel ← read
      match kernel.find key with
      | some index =>
        update (Kernel.raise index)
        if (kernel.inode index).mount then
          match kernel.mountedOn index with
          | none =>
            -- Mounted inode hasn't got sb
            iput empty
            pure index
          | some slot =>
            iput index
            igetLoop turns ((kernel.super slot).dev, rootIno) empty
        else
          iput empty
          pure index
      | none =>
        update (Kernel.set empty
          { kernel.inode empty with dev := key.1, num := key.2 })
        readInode empty
        pure empty

/-- `iget` -/
def iget (key : Key) : Routine Kernel Index := do
  if key.1 = 0 then
    Routine.panic "iget with dev==0"
  else
    let empty ← getEmptyInode
    igetLoop (nrSuper + 1) key empty

/-! ## Directories -/

/-- `permission` -/
def permission (inode : MInode) (mask : Nat) (kernel : Kernel) : Bool :=
  if inode.dev ≠ 0 ∧ inode.nlinks = 0 then
    false
  else
    let mode :=
      if kernel.euid = inode.uid then inode.mode >>> 6
      else if kernel.egid = inode.gid then inode.mode >>> 3
      else inode.mode
    mode &&& mask &&& 0o7 == mask || kernel.euid == 0

/-- `MAY_EXEC` -/
def mayExec : Nat := 1

def dot : List UInt8 :=
  [46]

def dotDot : List UInt8 :=
  [46, 46]

/-- The first of some entries of a directory that matches a name. -/
def lookUp (data : Block) (entries : Nat) (name : List UInt8) : Option Nat :=
  (List.range entries).find? fun de => matchEntry name data de

/-- What `find_entry` does for `..`: the directory and the name to look for. -/
def goUp (dir : Index) (name : List UInt8) : Routine Kernel (Index × List UInt8) := do
  let kernel ← read
  if dir = kernel.root then
    pure (dir, dot)
  else if (kernel.inode dir).num = rootIno then
    match kernel.getSuper (kernel.inode dir).dev with
    | none =>
      -- `sb` is `NULL`.
      abandon
    | some slot =>
      match (kernel.super slot).imount with
      | none => pure (dir, name)
      | some mounted =>
        iput dir
        update (Kernel.raise mounted)
        pure (mounted, name)
  else
    pure (dir, name)

/--
`find_entry`: the directory, which may have been exchanged, and the place of the
entry in it.
-/
def findEntry
    (dir : Index)
    (name : List UInt8) :
    Routine Kernel (Index × Option Nat) := do
  let name := name.take nameLen
  let kernel ← read
  let entries := (kernel.inode dir).size / entrySize
  if name = [] then
    pure (dir, none)
  else
    let (dir, name) ←
      if name = dotDot then goUp dir name else pure (dir, name)
    let kernel ← read
    if (kernel.inode dir).zone = 0 then
      pure (dir, none)
    else
      pure (dir, lookUp (kernel.data (kernel.inode dir).key) entries name)

/-- `de->inode` -/
def entryOf (dir : Index) (de : Nat) (kernel : Kernel) : Nat :=
  entryInode (kernel.data (kernel.inode dir).key) de

/-! ## Path names -/

theorem length_scanName
    (path : List UInt8) :
    (scanName path).2.2.length ≤ path.length := by
  induction path with
  | nil =>
    exact Nat.le_refl 0
  | cons c path inductionHypothesis =>
    rw [scanName]
    by_cases ends : c = 0 ∨ c = slash
    · rw [if_pos ends]
      exact Nat.le_succ _
    · rw [if_neg ends]
      exact Nat.le_succ_of_le inductionHypothesis

theorem length_scanName_lt
    {path : List UInt8}
    (goesOn : (scanName path).2.1 ≠ 0) :
    (scanName path).2.2.length < path.length := by
  cases path with
  | nil =>
    exact absurd rfl goesOn
  | cons c path =>
    rw [scanName] at goesOn ⊢
    by_cases ends : c = 0 ∨ c = slash
    · rw [if_pos ends]
      exact Nat.lt_succ_self _
    · rw [if_neg ends]
      exact Nat.lt_succ_of_le (length_scanName path)

/-- The loop of `get_dir`. -/
def getDirLoop
    (inode : Index)
    (pathname : List UInt8) :
    Routine Kernel (Option Index) := do
  let thisname := pathname
  let kernel ← read
  if !isDir (kernel.inode inode).mode ||
      !permission (kernel.inode inode) mayExec kernel then
    iput inode
    pure none
  else if _ : (scanName pathname).2.1 = 0 then
    pure (some inode)
  else
    let namelen := (scanName pathname).1
    match ← findEntry inode (thisname.take namelen) with
    | (dir, none) =>
      iput dir
      pure none
    | (dir, some de) =>
      let kernel ← read
      let inr := entryOf dir de kernel
      let idev := (kernel.inode dir).dev
      iput dir
      let inode ← iget (idev, inr)
      getDirLoop inode (scanName pathname).2.2
termination_by pathname.length
decreasing_by
  exact length_scanName_lt ‹_›

/-- `get_dir` -/
def getDir (pathname : List UInt8) : Routine Kernel (Option Index) := do
  let kernel ← read
  if (kernel.inode kernel.root).count = 0 then
    Routine.panic "No root inode"
  else if (kernel.inode kernel.pwd).count = 0 then
    Routine.panic "No cwd inode"
  else if pathname.headD 0 = slash then
    update (Kernel.raise kernel.root)
    getDirLoop kernel.root pathname.tail
  else if pathname.headD 0 ≠ 0 then
    update (Kernel.raise kernel.pwd)
    getDirLoop kernel.pwd pathname
  else
    pure none

/-- `dir_namei`: the directory, and the name within that directory -/
def dirNamei
    (pathname : List UInt8) :
    Routine Kernel (Option (Index × List UInt8)) := do
  match ← getDir pathname with
  | none => pure none
  | some dir =>
    let (basename, namelen) := scanBase pathname 0 pathname
    pure (some (dir, basename.take namelen))

/-- `namei` -/
def namei (pathname : List UInt8) : Routine Kernel (Option Index) := do
  match ← dirNamei pathname with
  | none => pure none
  | some (dir, name) =>
    if name = [] then
      pure (some dir)
    else
      match ← findEntry dir name with
      | (dir, none) =>
        iput dir
        pure none
      | (dir, some de) =>
        let kernel ← read
        let inr := entryOf dir de kernel
        let dev := (kernel.inode dir).dev
        iput dir
        let inode ← iget (dev, inr)
        update (Kernel.setDirt inode true)
        pure (some inode)

/-- `sys_chdir`: 0, `-ENOENT` or `-ENOTDIR` -/
def sysChdir (filename : List UInt8) : Routine Kernel Int := do
  match ← namei filename with
  | none => pure (-2)
  | some inode =>
    let kernel ← read
    if !isDir (kernel.inode inode).mode then
      iput inode
      pure (-20)
    else
      iput kernel.pwd
      update (Kernel.setPwd inode)
      pure 0

end Paths

end HitOs
