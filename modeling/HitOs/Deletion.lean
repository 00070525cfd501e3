import HitOs.Interleavings
import Mathlib.Data.Fintype.Defs

namespace HitOs

/-!
# Looking a file up while it is deleted

One task runs `namei` or `open_namei` on a name and another `sys_unlink` on the same
name.  The table of inodes is seen from the inode of the file: it is at no place or at
one place, and `iget`, `iput`, `get_empty_inode` and `free_inode` are what they do
to it.
-/

namespace Deletion

/-- The place of the inode in the table. -/
structure Slot where
  count : Nat
  nlinks : Nat
  lock : Bool
  dirt : Bool
  deriving Repr, DecidableEq

/--
What the tasks share: whether the entry of the name has the number of the inode, the
place of the inode, its bit in the bitmap, its `i_nlinks` on the disk, `S_ISBLK`
of its mode, and the references that other tasks have to it.
-/
structure Fs where
  entry : Bool
  slot : Option Slot
  allocated : Bool
  disk : Nat
  blk : Bool
  others : Nat
  deriving Repr, DecidableEq

/--
Where a task is in `iget` and `iput`: in `get_empty_inode` (`emptying`, and
`emptyWriting` while that writes this inode), in `wait_on_inode` of `iget`
(`matching`), in `read_inode`, in `iput(empty)` (`spare`), at the end of `iget`
(`got`), in `wait_on_inode` of `iput` (`putting`, `repeating`), in `write_inode`, in
`truncate`; `flushing` is `write_inode` of another task.
-/
inductive Point where
  | rest
  | emptying
  | emptyWriting
  | matching
  | reading
  | spare
  | got
  | putting
  | writing
  | repeating
  | truncating
  | flushing
  deriving Repr, DecidableEq

/-- What `open_namei` and `sys_unlink` are about. -/
inductive Stage where
  | find
  | close
  | get
  | leave
  | returned
  | gone
  deriving Repr, DecidableEq

structure Place where
  stage : Stage
  point : Point
  deriving Repr, DecidableEq

/--
What is not decided here: `same`, that `get_empty_inode` chooses the place of this
inode; `refuse`, that a check fails; `touch`, that the task sets `i_dirt`.
-/
inductive Choice where
  | go
  | same
  | refuse
  | touch
  deriving Repr, DecidableEq

inductive Party where
  | opener
  | unlinker
  | others
  deriving Repr, DecidableEq

instance : Fintype Party where
  elems := {.opener, .unlinker, .others}
  complete party := by
    cases party <;> decide

namespace Fs

def withSlot (slot : Slot) (fs : Fs) : Fs :=
  { fs with slot := some slot }

/-- `i_count` of the inode, 0 if it is not in the table -/
def count (fs : Fs) : Nat :=
  match fs.slot with
  | none => 0
  | some slot => slot.count

end Fs

/-- The loop of `iget` over the table, from its beginning. -/
def scan (fs : Fs) : Fs × Point :=
  match fs.slot with
  | some _ => (fs, .matching)
  | none =>
    (fs.withSlot { count := 1, nlinks := 0, lock := true, dirt := false }, .reading)

/-- The end of `write_inode`; the place may have been cleared meanwhile. -/
def written (fs : Fs) (next : Point) : Option (Fs × Point) :=
  match fs.slot with
  | none => some (fs, next)
  | some slot =>
    some ({ fs with
      slot := some { slot with lock := false, dirt := false }
      disk := slot.nlinks }, next)

/-- `iput` from `repeat` on, up to the next sleep. -/
def repeatPut (fs : Fs) (slot : Slot) : Fs × Point :=
  if 1 < slot.count then
    (fs.withSlot { slot with count := slot.count - 1 }, .rest)
  else if slot.nlinks = 0 then
    (fs, .truncating)
  else if slot.dirt then
    (fs.withSlot { slot with lock := true }, .writing)
  else
    (fs.withSlot { slot with count := slot.count - 1 }, .rest)

/-- `iget` and `iput` between two sleep points; none while they wait, and for a panic. -/
def act (choice : Choice) (fs : Fs) (point : Point) : Option (Fs × Point) :=
  match point with
  | .rest | .got => none
  | .emptying =>
    match choice with
    | .same =>
      match fs.slot with
      | none => none
      | some slot =>
        if slot.count ≠ 0 ∨ slot.lock then
          none
        else if slot.dirt then
          some (fs.withSlot { slot with lock := true }, .emptyWriting)
        else
          some (scan { fs with slot := none })
    | _ => some (scan fs)
  | .emptyWriting => written fs .emptying
  | .matching =>
    match fs.slot with
    | none => some (scan fs)
    | some slot =>
      if slot.lock then
        none
      else
        some (fs.withSlot
          { slot with count := (slot.count + 1) % 65536 }, .spare)
  | .reading =>
    match fs.slot with
    | none => none
    | some slot =>
      some (fs.withSlot { slot with nlinks := fs.disk, lock := false }, .got)
  | .spare => some (fs, .got)
  | .putting =>
    match fs.slot with
    | none => none
    | some slot =>
      if slot.lock ∨ slot.count = 0 then
        none
      else if fs.blk then
        some (fs, .repeating)
      else
        some (repeatPut fs slot)
  | .writing => written fs .repeating
  | .repeating =>
    match fs.slot with
    | none => none
    | some slot => if slot.lock then none else some (repeatPut fs slot)
  | .truncating =>
    match fs.slot with
    | none => none
    | some slot =>
      if 1 < slot.count ∨ slot.nlinks ≠ 0 then
        none
      else
        some ({ fs with slot := none, allocated := false }, .rest)
  | .flushing => written fs .rest

/-- A step of `iget` or `iput` that stays in its stage. -/
def within
    (stage : Stage)
    (acted : Option (Fs × Point)) : Option (Fs × Place) :=
  acted.map fun next => (next.1, { stage := stage, point := next.2 })

/-- `namei` and `open_namei`, from `find_entry` on. -/
def opening (choice : Choice) (fs : Fs) (place : Place) : Option (Fs × Place) :=
  match place.stage, place.point with
  | .find, .rest =>
    if fs.entry then
      some (fs, { stage := .close, point := .rest })
    else
      some (fs, { stage := .gone, point := .rest })
  | .close, .rest =>
    match choice with
    | .refuse => some (fs, { stage := .gone, point := .rest })
    | _ => some (fs, { stage := .get, point := .emptying })
  | .get, .got =>
    match choice, fs.slot with
    | .refuse, _ => some (fs, { stage := .leave, point := .putting })
    | .touch, some slot => some (fs.withSlot { slot with dirt := true }, place)
    | _, _ => some (fs, { stage := .returned, point := .got })
  | .get, point => within .get (act choice fs point)
  | .leave, point => within .leave (act choice fs point)
  | _, _ => none

/-- `de->inode = 0`, and what `sys_unlink` does to the inode. -/
def removed (fs : Fs) (slot : Slot) : Fs :=
  { fs with
    entry := false
    slot := some
      { slot with
        nlinks := (if slot.nlinks = 0 then 1 else slot.nlinks) - 1
        dirt := true } }

/-- `sys_unlink`, from `find_entry` on. -/
def unlinking (choice : Choice) (fs : Fs) (place : Place) : Option (Fs × Place) :=
  match place.stage, place.point with
  | .find, .rest =>
    if fs.entry then
      some (fs, { stage := .get, point := .emptying })
    else
      some (fs, { stage := .gone, point := .rest })
  | .get, .got =>
    match choice, fs.slot with
    | .refuse, _ => some (fs, { stage := .leave, point := .putting })
    | _, some slot => some (removed fs slot, { stage := .leave, point := .putting })
    | _, none => none
  | .get, point => within .get (act choice fs point)
  | .leave, point => within .leave (act choice fs point)
  | _, _ => none

/-- Other tasks: `sync_inodes`, and `get_empty_inode`. -/
def flushing (choice : Choice) (fs : Fs) (place : Place) : Option (Fs × Place) :=
  match place.point, choice, fs.slot with
  | .flushing, _, _ => within .find (act choice fs .flushing)
  | .rest, .touch, some slot =>
    if slot.dirt && !slot.lock then
      some (fs.withSlot { slot with lock := true },
        { stage := .find, point := .flushing })
    else
      none
  | .rest, .same, some slot =>
    if slot.count = 0 ∧ slot.dirt = false ∧ slot.lock = false then
      some ({ fs with slot := none }, place)
    else
      none
  | _, _, _ => none

def program : Program Party Fs Place Choice
  | .opener => opening
  | .unlinker => unlinking
  | .others => flushing

end Deletion

end HitOs
