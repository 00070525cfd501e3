import HitOs.Interleavings
import Mathlib.Algebra.GroupWithZero.Nat
import Mathlib.Data.Fintype.Basic
import Mathlib.Data.List.FinRange

namespace HitOs

/-!
# The table of inodes in memory

`iget` and `iput` with `get_empty_inode`, `read_inode`, `write_inode` and
`free_inode`, as programs of tasks that sleep in `wait_on_inode`, `lock_inode`,
`bread`, `sync_dev` and `truncate`.  A wait for a lock is a point from which the
task goes on once `i_lock` is clear.
-/

namespace Inodes

/-- `NR_INODE` -/
abbrev nrInode : Nat := 32

/-- The places of `inode_table`. -/
abbrev Index :=
  Fin nrInode

scoped instance : NeZero nrInode :=
  ⟨by decide⟩

/-- `ROOT_INO` -/
def rootIno : Nat := 1

/-- A mounted device; `s_dev` of a super block in use is not 0. -/
abbrev Device :=
  { dev : Nat // dev ≠ 0 }

/-- The fields of `m_inode` that these functions use; `blk` is `S_ISBLK`. -/
structure Inode where
  dev : Nat
  num : Nat
  count : Nat
  nlinks : Nat
  blk : Bool
  lock : Bool
  dirt : Bool
  pipe : Bool
  mount : Bool
  deriving Repr, DecidableEq

/-- What `memset` leaves. -/
def Inode.zero : Inode where
  dev := 0
  num := 0
  count := 0
  nlinks := 0
  blk := false
  lock := false
  dirt := false
  pipe := false
  mount := false

/-- What `sync_inodes` asks of an inode, once it is not locked. -/
def Inode.needsWrite (inode : Inode) : Bool :=
  !inode.lock && inode.dirt && !inode.pipe

/-- `inode_table`, and `last_inode` of `get_empty_inode`. -/
structure Table where
  inode : Index → Inode
  last : Index

namespace Table

def set (index : Index) (value : Inode) (table : Table) : Table :=
  { table with inode := Function.update table.inode index value }

/-- `inode->i_count++`, in 16 bits -/
def raise (index : Index) (table : Table) : Table :=
  table.set index
    { table.inode index with
      count := ((table.inode index).count + 1) % 65536 }

/-- `inode->i_count--`, of a count that is not 0 -/
def lower (index : Index) (table : Table) : Table :=
  table.set index
    { table.inode index with count := (table.inode index).count - 1 }

def setLock (index : Index) (value : Bool) (table : Table) : Table :=
  table.set index { table.inode index with lock := value }

end Table

/-- `++last_inode`, from the end to the beginning -/
def following (index : Index) : Index :=
  ⟨(index.val + 1) % nrInode, Nat.mod_lt _ (by decide)⟩

/--
The loop of `get_empty_inode` over the table: the place it chooses, if there is
one, and `last_inode`.
-/
def search
    (table : Table) :
    Nat → Index → Option Index → Option Index × Index
  | 0, last, found => (found, last)
  | turns + 1, last, found =>
    let last := following last
    if (table.inode last).count = 0 then
      if !(table.inode last).dirt && !(table.inode last).lock then
        (some last, last)
      else
        search table turns last (some last)
    else
      search table turns last found

/--
Who called `iput`: the task, `iget` at a mount point, which goes on on another
device, or `iget`, which then returns an inode.
-/
inductive Caller where
  | task
  | hop (dev nr : Nat) (empty : Index)
  | found (index : Index)
  deriving Repr, DecidableEq

/--
Who called `write_inode`: `sync_inodes` of the task, `get_empty_inode`, which goes
on with the same place, `iput` of a dirty inode, or `sync_dev` inside `iput`.
-/
inductive Writer where
  | task
  | empty (dev nr : Nat)
  | put (index : Index) (caller : Caller)
  | sync (index : Index) (caller : Caller)
  deriving Repr, DecidableEq

/--
Where a task sleeps: in `wait_on_inode` of `get_empty_inode` (`emptying`), of `iget`
at an inode that matches (`matching`), of `iput` at its beginning (`putting`) and
before `repeat` (`repeating`); in `lock_inode` and in `bread` of `read_inode` and
`write_inode`; and in `sync_dev` and `truncate` of `iput`.
-/
inductive Point where
  | idle
  | emptying (dev nr : Nat) (index : Index)
  | matching (dev nr : Nat) (empty index : Index)
  | readLocking (index : Index)
  | reading (index : Index)
  | writeLocking (index : Index) (writer : Writer)
  | writing (index : Index) (writer : Writer)
  | putting (index : Index) (caller : Caller)
  | syncing (index : Index) (caller : Caller)
  | repeating (index : Index) (caller : Caller)
  | truncating (index : Index) (caller : Caller)
  deriving Repr, DecidableEq

/-- A task: where it is, and the inodes that `iget` has returned to it. -/
structure Task where
  point : Point
  held : List Index
  deriving Repr, DecidableEq

/--
What the environment decides: what an idle task calls or changes in an inode that it
holds, which inode `sync_inodes` gets to, and what the disk has for an inode.
-/
inductive Choice where
  | go
  | get (dev nr : Nat)
  | put (index : Index)
  | sync (index : Index)
  | touch (index : Index) (nlinks : Nat) (blk : Bool)
  | load (nlinks : Nat) (blk : Bool)
  deriving Repr, DecidableEq

/-- `get_empty_inode` up to `wait_on_inode` -/
def startEmpty
    (table : Table)
    (dev nr : Nat)
    (held : List Index) : Option (Table × Task) :=
  match search table nrInode table.last none with
  | (none, _) => none
  | (some index, last) =>
    some ({ table with last := last },
      { point := .emptying dev nr index, held := held })

/-- The loop of `iget` over the table, from its beginning. -/
def scan
    (table : Table)
    (dev nr : Nat)
    (empty : Index)
    (held : List Index) : Table × Task :=
  match (List.finRange nrInode).find? fun index =>
      (table.inode index).dev == dev && (table.inode index).num == nr with
  | some index => (table, { point := .matching dev nr empty index, held := held })
  | none =>
    (table.set empty { table.inode empty with dev := dev, num := nr },
      { point := .readLocking empty, held := held })

/-- What happens when `iput` has returned. -/
def afterPut
    (table : Table)
    (caller : Caller)
    (held : List Index) : Table × Task :=
  match caller with
  | .task => (table, { point := .idle, held := held })
  | .hop dev nr empty => scan table dev nr empty held
  | .found index => (table, { point := .idle, held := index :: held })

/-- `iput` from `repeat` on, up to the next sleep. -/
def repeatPut
    (table : Table)
    (index : Index)
    (caller : Caller)
    (held : List Index) : Table × Task :=
  let inode := table.inode index
  if 1 < inode.count then
    afterPut (table.lower index) caller held
  else if inode.nlinks = 0 then
    (table, { point := .truncating index caller, held := held })
  else if inode.dirt then
    (table, { point := .writeLocking index (.put index caller), held := held })
  else
    afterPut (table.lower index) caller held

/-- Where a task is when `write_inode` has returned. -/
def afterWrite (index : Index) : Writer → Point
  | .task => .idle
  | .empty dev nr => .emptying dev nr index
  | .put index caller => .repeating index caller
  | .sync index caller => .syncing index caller

/--
What a task does between two sleep points; none when it has to wait, when the
choice is not for it, and for a panic.  `mounts` finds the device that is mounted
on an inode, as the search in `super_block` does.
-/
def act
    (mounts : Index → Option Device)
    (choice : Choice)
    (table : Table)
    (task : Task) : Option (Table × Task) :=
  match task.point with
  | .idle =>
    match choice with
    | .get dev nr => if dev = 0 then none else startEmpty table dev nr task.held
    | .put index =>
      if index ∈ task.held then
        some (table,
          { point := .putting index .task
            held := task.held.erase index })
      else
        none
    | .sync index =>
      if (table.inode index).needsWrite then
        some (table, { task with point := .writeLocking index .task })
      else
        none
    | .touch index nlinks blk =>
      if index ∈ task.held then
        some (table.set index
          { table.inode index with
            nlinks := nlinks, blk := blk, dirt := true }, task)
      else
        none
    | _ => none
  | .emptying dev nr index =>
    if (table.inode index).lock then
      none
    else if (table.inode index).dirt then
      some (table, { task with point := .writeLocking index (.empty dev nr) })
    else if (table.inode index).count ≠ 0 then
      startEmpty table dev nr task.held
    else
      some (scan (table.set index { Inode.zero with count := 1 }) dev nr
        index task.held)
  | .matching dev nr empty index =>
    if (table.inode index).lock then
      none
    else if (table.inode index).dev ≠ dev ∨
        (table.inode index).num ≠ nr then
      some (scan table dev nr empty task.held)
    else if (table.inode index).mount then
      match mounts index with
      | none =>
        some (table.raise index, { task with point := .putting empty (.found index) })
      | some other =>
        some (table.raise index,
          { task with
            point := .putting index (.hop other.val rootIno empty) })
    else
      some (table.raise index, { task with point := .putting empty (.found index) })
  | .readLocking index =>
    if (table.inode index).lock then
      none
    else
      some (table.setLock index true, { task with point := .reading index })
  | .reading index =>
    match choice with
    | .load nlinks blk =>
      some (table.set index
        { table.inode index with
          nlinks := nlinks, blk := blk, lock := false },
        { point := .idle, held := index :: task.held })
    | _ => none
  | .writeLocking index writer =>
    if (table.inode index).lock then
      none
    else if !(table.inode index).dirt || (table.inode index).dev == 0 then
      some (table, { task with point := afterWrite index writer })
    else
      some (table.setLock index true, { task with point := .writing index writer })
  | .writing index writer =>
    some (table.set index
      { table.inode index with dirt := false, lock := false },
      { task with point := afterWrite index writer })
  | .putting index caller =>
    if (table.inode index).lock || (table.inode index).count == 0 then
      none
    else if (table.inode index).pipe then
      if (table.inode index).count = 1 then
        some (afterPut (table.set index
          { table.inode index with
            count := 0, dirt := false, pipe := false }) caller task.held)
      else
        some (afterPut (table.lower index) caller task.held)
    else if (table.inode index).dev = 0 then
      some (afterPut (table.lower index) caller task.held)
    else if (table.inode index).blk then
      some (table, { task with point := .syncing index caller })
    else
      some (repeatPut table index caller task.held)
  | .syncing index caller =>
    match choice with
    | .sync other =>
      if (table.inode other).needsWrite then
        some (table,
          { task with
            point := .writeLocking other (.sync index caller) })
      else
        none
    | _ => some (table, { task with point := .repeating index caller })
  | .repeating index caller =>
    if (table.inode index).lock then
      none
    else
      some (repeatPut table index caller task.held)
  | .truncating index caller =>
    if (table.inode index).dev ≠ 0 ∧
        (1 < (table.inode index).count ∨ (table.inode index).nlinks ≠ 0) then
      none
    else
      some (afterPut (table.set index .zero) caller task.held)

/-- Tasks that call `iget` and `iput`. -/
def calling
    {ι : Type}
    (mounts : Index → Option Device) :
    Program ι Table Task Choice :=
  fun _ choice table task => act mounts choice table task

end Inodes

end HitOs
