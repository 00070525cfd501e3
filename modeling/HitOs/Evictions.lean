import HitOs.BufferCache
import HitOs.InodeTable
import HitOs.Routine

namespace HitOs

/-!
# Eviction of buffers

`getblk`, `sync_dev`, `sync_inodes`, `write_inode`, `bread` and `ll_rw_block`, for one
task while no other one runs.  What it waits for is then a driver, or never comes: a
lock of a buffer is that of a request, which a driver completes, and nobody else
unlocks an inode.
-/

namespace Evictions

open Routine
open Buffers (Buffer Cache)
open Inodes (Index nrInode)

/-- `NR_BLK_DEV` -/
def nrBlkDev : Nat := 7

/-- The devices. -/
structure Devices where
  /-- Whether `blk_dev[major].request_fn` is there. -/
  requestFn : Nat → Bool
  /-- `get_super`, with the number of the first block of inodes. -/
  super : Nat → Option Nat
  /-- The blocks that the driver does not get. -/
  bad : Nat → Nat → Bool

namespace Devices

variable (devices : Devices)

/-- The test of `ll_rw_block`. -/
def drives (dev : Nat) : Bool :=
  decide (dev / 256 < nrBlkDev) && devices.requestFn (dev / 256)

/-- What `end_request` is called with. -/
def readable (dev block : Nat) : Bool :=
  devices.drives dev && !devices.bad dev block

/-- `end_request` -/
def endRequest (buffer : Buffer) : Buffer :=
  { buffer with
    lock := false, uptodate := devices.readable buffer.dev buffer.blocknr }

end Devices

/-- The fields of `m_inode` that are used here. -/
structure Inode where
  dev : Nat
  num : Nat
  dirt : Bool
  lock : Bool
  pipe : Bool
  deriving Repr, DecidableEq

structure Kernel (n : Nat) where
  cache : Cache n
  inode : Index → Inode
  /-- How often the drivers have had time. -/
  time : Nat

variable {n : Nat}

namespace Kernel

/-- `bh` -/
def buffer (kernel : Kernel n) (bh : Fin n) : Buffer :=
  kernel.cache.buffer bh

def setBuffer (bh : Fin n) (value : Buffer) (kernel : Kernel n) : Kernel n :=
  { kernel with cache := kernel.cache.set bh value }

def setInode (index : Index) (value : Inode) (kernel : Kernel n) : Kernel n :=
  { kernel with inode := Function.update kernel.inode index value }

/-- `bh->b_count = count` -/
def setCount (bh : Fin n) (count : Nat) (kernel : Kernel n) : Kernel n :=
  kernel.setBuffer bh { kernel.buffer bh with count := count }

/-- `bh->b_count++`; there are far fewer references than 2 ^ 8. -/
def raise (bh : Fin n) (kernel : Kernel n) : Kernel n :=
  kernel.setCount bh ((kernel.buffer bh).count + 1)

/-- `bh->b_count--` -/
def lower (bh : Fin n) (kernel : Kernel n) : Kernel n :=
  kernel.setCount bh ((kernel.buffer bh).count - 1)

/-- `bh->b_dirt = dirt` -/
def setDirt (bh : Fin n) (dirt : Bool) (kernel : Kernel n) : Kernel n :=
  kernel.setBuffer bh { kernel.buffer bh with dirt := dirt }

/-- `bh->b_lock = lock` -/
def setLock (bh : Fin n) (lock : Bool) (kernel : Kernel n) : Kernel n :=
  kernel.setBuffer bh { kernel.buffer bh with lock := lock }

/-- `inode->i_lock = lock` -/
def lockInode (index : Index) (lock : Bool) (kernel : Kernel n) : Kernel n :=
  kernel.setInode index { kernel.inode index with lock := lock }

/-- `inode->i_dirt = 0` -/
def cleanInode (index : Index) (kernel : Kernel n) : Kernel n :=
  kernel.setInode index { kernel.inode index with dirt := false }

end Kernel

section Calls

variable (devices : Devices) (done : Nat → Fin n → Bool)

/-! ## Requests -/

/-- The drivers complete some of the requests, as `done` says. -/
def interrupts (kernel : Kernel n) : Kernel n :=
  { kernel with
    time := kernel.time + 1
    cache :=
      { kernel.cache with
        buffer := fun bh =>
          if (kernel.buffer bh).lock && done kernel.time bh then
            devices.endRequest (kernel.buffer bh)
          else
            kernel.buffer bh } }

/-- `wait_on_buffer` -/
def waitOnBuffer (bh : Fin n) : Routine (Kernel n) Unit :=
  update fun kernel =>
    let kernel := interrupts devices done kernel
    if (kernel.buffer bh).lock then
      kernel.setBuffer bh (devices.endRequest (kernel.buffer bh))
    else
      kernel

/-- `READ` and `WRITE` -/
inductive Command where
  | read
  | write
  deriving Repr, DecidableEq

/-- `make_request`, with `lock_buffer` and `add_request` -/
def makeRequest (rw : Command) (bh : Fin n) : Routine (Kernel n) Unit := do
  waitOnBuffer devices done bh
  update (Kernel.setLock bh true)
  let kernel ← read
  if rw = .write && !(kernel.buffer bh).dirt ||
      rw = .read && (kernel.buffer bh).uptodate then
    update (Kernel.setLock bh false)
  else
    -- There is a free `request`, or one becomes free when another is completed.
    update (interrupts devices done)
    update (Kernel.setDirt bh false)

/-- `ll_rw_block` -/
def llRwBlock (rw : Command) (bh : Fin n) : Routine (Kernel n) Unit := do
  let kernel ← read
  if !devices.drives (kernel.buffer bh).dev then
    -- Trying to read nonexistent block-device
    pure ()
  else
    makeRequest devices done rw bh

/-- `brelse` -/
def brelse (bh : Fin n) : Routine (Kernel n) Unit := do
  waitOnBuffer devices done bh
  let kernel ← read
  if (kernel.buffer bh).count = 0 then
    Routine.panic "Trying to free free buffer"
  else
    update (Kernel.lower bh)

/-! ## `sync_dev` -/

variable (getblk : Nat → Nat → Routine (Kernel n) (Fin n))

/-- `bread` -/
def bread (dev block : Nat) : Routine (Kernel n) (Option (Fin n)) := do
  let bh ← getblk dev block
  let kernel ← read
  if (kernel.buffer bh).uptodate then
    pure (some bh)
  else
    llRwBlock devices done .read bh
    waitOnBuffer devices done bh
    let kernel ← read
    if (kernel.buffer bh).uptodate then
      pure (some bh)
    else
      brelse devices done bh
      pure none

/-- `INODES_PER_BLOCK` -/
def inodesPerBlock : Nat := 32

/-- The block of an inode, where `first` is the first one of its device. -/
def Inode.block (inode : Inode) (first : Nat) : Nat :=
  first + (inode.num - 1) / inodesPerBlock

/-- `write_inode` -/
def writeInode (index : Index) : Routine (Kernel n) Unit := do
  let kernel ← read
  let inode := kernel.inode index
  if inode.lock then
    abandon
  else
    update (Kernel.lockInode index true)
    if !inode.dirt || inode.dev == 0 then
      update (Kernel.lockInode index false)
    else
      match devices.super inode.dev with
      | none => Routine.panic "trying to write inode without device"
      | some first =>
        match ← bread devices done getblk inode.dev (inode.block first) with
        | none => Routine.panic "unable to read i-node block"
        | some bh =>
          update (Kernel.setDirt bh true)
          update (Kernel.cleanInode index)
          brelse devices done bh
          update (Kernel.lockInode index false)

/-- The loop of `sync_inodes` over some inodes. -/
def syncInodes : List Index → Routine (Kernel n) Unit
  | [] => pure ()
  | index :: rest => do
      let kernel ← read
      if (kernel.inode index).lock then
        abandon
      else if (kernel.inode index).dirt && !(kernel.inode index).pipe then
        writeInode devices done getblk index
        syncInodes rest
      else
        syncInodes rest

/-- The loop of `sync_dev` over some buffers. -/
def syncBuffers (dev : Nat) : List (Fin n) → Routine (Kernel n) Unit
  | [] => pure ()
  | bh :: rest => do
      let kernel ← read
      if (kernel.buffer bh).dev ≠ dev then
        syncBuffers dev rest
      else
        waitOnBuffer devices done bh
        let kernel ← read
        if (kernel.buffer bh).dev == dev && (kernel.buffer bh).dirt then
          llRwBlock devices done .write bh
          syncBuffers dev rest
        else
          syncBuffers dev rest

/-- `sync_dev` -/
def syncDev (dev : Nat) : Routine (Kernel n) Unit := do
  syncBuffers devices done dev (List.finRange n)
  syncInodes devices done getblk (List.finRange nrInode)
  syncBuffers devices done dev (List.finRange n)

/-! ## `getblk` -/

/-- `get_hash_table` -/
def getHashTable
    (dev block : Nat) :
    Nat → Routine (Kernel n) (Option (Fin n))
  | 0 => abandon
  | turns + 1 => do
      let kernel ← read
      match Buffers.findBuffer dev block kernel.cache with
      | none => pure none
      | some bh =>
        update (Kernel.raise bh)
        waitOnBuffer devices done bh
        let kernel ← read
        if (kernel.buffer bh).holds dev block then
          pure (some bh)
        else
          update (Kernel.lower bh)
          getHashTable dev block turns

/-- One turn of `while (bh->b_dirt)` in `getblk`, before the look at `b_count`. -/
def pass (bh : Fin n) : Routine (Kernel n) Unit := do
  let kernel ← read
  syncDev devices done getblk (kernel.buffer bh).dev
  waitOnBuffer devices done bh

/-- `while (bh->b_dirt)` in `getblk`; false for `goto repeat`. -/
def clean (bh : Fin n) : Nat → Routine (Kernel n) Bool
  | 0 => abandon
  | turns + 1 => do
      let kernel ← read
      if !(kernel.buffer bh).dirt then
        pure true
      else
        pass devices done getblk bh
        let kernel ← read
        if (kernel.buffer bh).count ≠ 0 then
          pure false
        else
          clean bh turns

end Calls

/-- `getblk`, where the first argument bounds how often it repeats and how deep it is. -/
def getblk
    (devices : Devices)
    (done : Nat → Fin n → Bool) :
    Nat → Nat → Nat → Routine (Kernel n) (Fin n)
  | 0, _, _ => abandon
  | fuel + 1, dev, block => do
      match ← getHashTable devices done dev block (fuel + 1) with
      | some bh => pure bh
      | none =>
        let kernel ← read
        match Buffers.choose kernel.cache with
        | none =>
          -- sleep_on(&buffer_wait)
          abandon
        | some bh =>
          waitOnBuffer devices done bh
          let kernel ← read
          if (kernel.buffer bh).count ≠ 0 then
            getblk devices done fuel dev block
          else
            match ← clean devices done (getblk devices done fuel) bh fuel with
            | false => getblk devices done fuel dev block
            | true =>
              let kernel ← read
              if (Buffers.findBuffer dev block kernel.cache).isSome then
                getblk devices done fuel dev block
              else
                match Buffers.claim dev block bh kernel.cache with
                | none => Routine.panic "Free block list corrupted"
                | some claimed =>
                  update fun kernel => { kernel with cache := claimed }
                  pure bh

end Evictions

end HitOs
