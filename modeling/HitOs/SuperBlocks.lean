import HitOs.StructLayouts
import Mathlib.Algebra.GroupWithZero.Nat
import Mathlib.Data.List.FinRange

namespace HitOs

/-!
# Reading the super block of a device

`read_super`, with `check_disk_change` and `put_super`.  A pointer to a buffer is the
block that the buffer is for.  Waits for locks end, so the locks are only set and cleared.
-/

namespace SuperBlocks

open StructLayouts

/-- `NR_SUPER` -/
def nrSuper : Nat := 8

/-- `I_MAP_SLOTS` and `Z_MAP_SLOTS` -/
def mapSlots : Nat := 8

instance : NeZero mapSlots :=
  ⟨by decide⟩

/-- `SUPER_MAGIC` -/
def superMagic : Nat := 0x137f

abbrev Slot := Fin nrSuper

/-- The members of `d_super_block`. -/
inductive DField where
  | ninodes
  | nzones
  | imapBlocks
  | zmapBlocks
  | firstdatazone
  | logZoneSize
  | maxSize
  | magic
  deriving Repr, DecidableEq

def DField.offset : DField → Nat
  | .ninodes => 0
  | .nzones => 2
  | .imapBlocks => 4
  | .zmapBlocks => 6
  | .firstdatazone => 8
  | .logZoneSize => 10
  | .maxSize => 12
  | .magic => 16

def DField.bytes : DField → Nat
  | .maxSize => 4
  | _ => 2

/-- A device and a block of it. -/
abbrev Buffer := Nat × Nat

structure SuperBlock where
  disk : DField → Nat
  imap : Fin mapSlots → Option Buffer
  zmap : Fin mapSlots → Option Buffer
  dev : Nat
  isup : Option Nat
  imount : Option Nat
  time : Nat
  lock : Bool
  rdOnly : Bool
  dirt : Bool

structure Kernel where
  /-- `super_block` -/
  super : Slot → SuperBlock
  /-- `b_count` -/
  count : Buffer → Nat
  /-- `b_data` -/
  data : Buffer → Block
  rootDev : Nat

/-- What the hardware answers. -/
structure Drive where
  /-- `floppy_change` -/
  changed : Bool
  /-- The blocks of devices that can be read. -/
  readable : Nat → Nat → Bool

/-- What stops the routine, or lets it go on with other data than its own. -/
inductive Fault where
  /-- An index that is not one of the array. -/
  | outside
  | null
  /-- "Trying to free free buffer" -/
  | freeBuffer
  deriving Repr, DecidableEq

/-! ## Buffers -/

def bread
    (drive : Drive)
    (dev block : Nat)
    (count : Buffer → Nat) : Option Buffer × (Buffer → Nat) :=
  if drive.readable dev block then
    (some (dev, block), Function.update count (dev, block) (count (dev, block) + 1))
  else
    (none, count)

def brelse (buf : Option Buffer) (count : Buffer → Nat) :
    Except Fault (Buffer → Nat) :=
  match buf with
  | none => .ok count
  | some buf =>
    if count buf = 0 then
      .error .freeBuffer
    else
      .ok (Function.update count buf (count buf - 1))

/-- `brelse` of one after another. -/
def brelseAll : List (Option Buffer) → (Buffer → Nat) → Except Fault (Buffer → Nat)
  | [], count => .ok count
  | buf :: rest, count =>
    match brelse buf count with
    | .error fault => .error fault
    | .ok count => brelseAll rest count

/-! ## Super blocks -/

namespace Kernel

def set (slot : Slot) (sb : SuperBlock) (kernel : Kernel) : Kernel :=
  { kernel with super := Function.update kernel.super slot sb }

def getSuper (dev : Nat) (kernel : Kernel) : Option Slot :=
  if dev = 0 then none
  else (List.finRange nrSuper).find? fun slot => (kernel.super slot).dev == dev

/-- `s->s_dev = 0` and `free_super` -/
def drop (slot : Slot) (kernel : Kernel) : Kernel :=
  kernel.set slot { kernel.super slot with dev := 0, lock := false }

/-- The two loops that release the maps. -/
def releaseMaps (slot : Slot) (kernel : Kernel) : Except Fault Kernel :=
  let sb := kernel.super slot
  match brelseAll (List.ofFn sb.imap ++ List.ofFn sb.zmap) kernel.count with
  | .error fault => .error fault
  | .ok count => .ok { kernel with count := count }

def putSuper (dev : Nat) (kernel : Kernel) : Except Fault Kernel :=
  if dev = kernel.rootDev then
    .ok kernel
  else
    match kernel.getSuper dev with
    | none => .ok kernel
    | some slot =>
      if (kernel.super slot).imount.isSome then
        .ok kernel
      else
        match kernel.releaseMaps slot with
        | .error fault => .error fault
        | .ok kernel => .ok (kernel.drop slot)

/--
`check_disk_change`.  The buffers and the inodes that it invalidates are not looked at
here.
-/
def checkDiskChange
    (drive : Drive)
    (dev : Nat)
    (kernel : Kernel) : Except Fault Kernel :=
  if dev / 256 ≠ 2 then
    .ok kernel
  else if !drive.changed then
    .ok kernel
  else
    (List.finRange nrSuper).foldlM
      (fun kernel slot =>
        if (kernel.super slot).dev = dev then
          kernel.putSuper (kernel.super slot).dev
        else
          .ok kernel)
      kernel

end Kernel

/-- `*((struct d_super_block *) s) = *((struct d_super_block *) bh->b_data)` -/
def fields (image : Block) (field : DField) : Nat :=
  number image field.offset field.bytes

/--
The loop that reads the blocks of a map, `remaining` of them from the index `i` on, with
the next block.
-/
def readMap
    (drive : Drive)
    (dev : Nat) :
    Nat → Nat → Nat → (Fin mapSlots → Option Buffer) → (Buffer → Nat) →
      Except Fault (Nat × (Fin mapSlots → Option Buffer) × (Buffer → Nat))
  | 0, _, block, map, count => .ok (block, map, count)
  | remaining + 1, i, block, map, count =>
    let (bh, count) := bread drive dev block count
    if inside : i < mapSlots then
      let map := Function.update map ⟨i, inside⟩ bh
      if bh.isSome then
        readMap drive dev remaining (i + 1) (block + 1) map count
      else
        .ok (block, map, count)
    else
      .error .outside

/-- `b_data[0] |= 1` -/
def Kernel.reserve (buf : Buffer) (kernel : Kernel) : Kernel :=
  { kernel with
    data :=
      Function.update kernel.data buf
        (Function.update (kernel.data buf) 0 (kernel.data buf 0 ||| 1)) }

/-- `read_super` from the test of the number of blocks on. -/
def finish
    (slot : Slot)
    (block : Nat)
    (kernel : Kernel) : Except Fault (Option Slot × Kernel) :=
  let sb := kernel.super slot
  if block ≠ 2 + sb.disk .imapBlocks + sb.disk .zmapBlocks then
    match kernel.releaseMaps slot with
    | .error fault => .error fault
    | .ok kernel => .ok (none, kernel.drop slot)
  else
    match sb.imap 0, sb.zmap 0 with
    | some imap, some zmap =>
      .ok
        (some slot,
          ((kernel.reserve imap).reserve zmap).set slot { sb with lock := false })
    | _, _ => .error .null

/-- `read_super` from the test of the magic number on. -/
def readMaps
    (drive : Drive)
    (dev : Nat)
    (slot : Slot)
    (kernel : Kernel) : Except Fault (Option Slot × Kernel) :=
  let sb := kernel.super slot
  if sb.disk .magic ≠ superMagic then
    .ok (none, kernel.drop slot)
  else
    match readMap drive dev (sb.disk .imapBlocks) 0 2 (fun _ => none)
        kernel.count with
    | .error fault => .error fault
    | .ok (block, imap, count) =>
      match readMap drive dev (sb.disk .zmapBlocks) 0 block (fun _ => none)
          count with
      | .error fault => .error fault
      | .ok (block, zmap, count) =>
        finish slot block
          { kernel.set slot { sb with imap := imap, zmap := zmap } with
            count := count }

/-- `read_super` from `s->s_dev = dev` on. -/
def readSlot
    (drive : Drive)
    (dev : Nat)
    (slot : Slot)
    (kernel : Kernel) : Except Fault (Option Slot × Kernel) :=
  let sb : SuperBlock :=
    { kernel.super slot with
      dev := dev % 2 ^ 16
      isup := none
      imount := none
      time := 0
      lock := true
      rdOnly := false
      dirt := false }
  match bread drive dev 1 kernel.count with
  | (none, _) => .ok (none, (kernel.set slot sb).drop slot)
  | (some bh, count) =>
    match brelse (some bh) count with
    | .error fault => .error fault
    | .ok count =>
      readMaps drive dev slot
        { kernel.set slot { sb with disk := fields (kernel.data bh) } with
          count := count }

def readSuper
    (drive : Drive)
    (dev : Nat)
    (kernel : Kernel) : Except Fault (Option Slot × Kernel) :=
  if dev = 0 then
    .ok (none, kernel)
  else
    match kernel.checkDiskChange drive dev with
    | .error fault => .error fault
    | .ok kernel =>
      match kernel.getSuper dev with
      | some slot => .ok (some slot, kernel)
      | none =>
        match (List.finRange nrSuper).find? fun slot =>
            (kernel.super slot).dev == 0 with
        | none => .ok (none, kernel)
        | some slot => readSlot drive dev slot kernel

end SuperBlocks

end HitOs
