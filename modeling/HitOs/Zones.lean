import HitOs.Blocks
import HitOs.Routine
import Mathlib.Logic.Function.Basic

namespace HitOs

/-!
# Zones of a file system

The zone bitmap, the zones of inodes, and the routines that give zones to files
and take them back: `new_block`, `free_block`, `_bmap` and `truncate`.  One call
runs at a time and input and output do not fail, so a block has one contents,
whether it is in a buffer or on the disk.  `count` is the `b_count` of the
buffer of a block.
-/

namespace Zones

open Routine

/-- The fields of `super_block` that say where zones are. -/
structure SuperBlock where
  firstDataZone : Nat
  nzones : Nat
  zmapBlocks : Nat
  positive :
    0 < firstDataZone
  ordered :
    firstDataZone ≤ nzones
  small :
    nzones < 65536
  slots :
    zmapBlocks ≤ 8
  mapped :
    nzones < firstDataZone + 8192 * zmapBlocks

/-- The fields of `m_inode` that say what a file is and where its zones are. -/
structure Inode where
  mode : Nat
  size : Nat
  zone : Nat → Nat

/-- `S_ISREG` -/
def isReg (mode : Nat) : Bool :=
  mode &&& 0o170000 == 0o100000

/-- `S_ISDIR` -/
def isDir (mode : Nat) : Bool :=
  mode &&& 0o170000 == 0o040000

/-- A mounted file system. -/
structure Fs where
  zmap : Nat → Bool
  data : Nat → Block
  count : Nat → Nat
  inode : Nat → Inode

namespace Fs

def setBit (bit : Nat) (value : Bool) (fs : Fs) : Fs :=
  { fs with zmap := Function.update fs.zmap bit value }

def setData (block : Nat) (contents : Block) (fs : Fs) : Fs :=
  { fs with data := Function.update fs.data block contents }

def setCount (block value : Nat) (fs : Fs) : Fs :=
  { fs with count := Function.update fs.count block value }

def setInode (inode : Nat) (value : Inode) (fs : Fs) : Fs :=
  { fs with inode := Function.update fs.inode inode value }

/-- `inode->i_zone[index] = value` -/
def setZone (inode index value : Nat) (fs : Fs) : Fs :=
  let node := fs.inode inode
  fs.setInode inode
    { node with zone := Function.update node.zone index value }

/-- `((unsigned short *) (bh->b_data))[index] = value` -/
def setEntry (block index value : Nat) (fs : Fs) : Fs :=
  fs.setData block ((fs.data block).setWord index value)

def setSize (inode value : Nat) (fs : Fs) : Fs :=
  fs.setInode inode { fs.inode inode with size := value }

end Fs

/-- `bread`, or `getblk` where the contents are set next -/
def bread (block : Nat) : Routine Fs Unit :=
  update fun fs => fs.setCount block (fs.count block + 1)

/-- `brelse` -/
def brelse (block : Nat) : Routine Fs Unit := do
  let fs ← read
  if fs.count block = 0 then
    Routine.panic "Trying to free free buffer"
  else
    update (Fs.setCount block (fs.count block - 1))

/-- `find_first_zero` on one block of the map; none for the result 8192 -/
def findFirstZero (bits : Nat → Bool) : Option Nat :=
  (List.range 8192).find? fun bit => !bits bit

/-- The bit that `new_block` finds in the blocks of the map. -/
def freeBit (sb : SuperBlock) (zmap : Nat → Bool) : Option Nat :=
  (List.range sb.zmapBlocks).findSome? fun map =>
    (findFirstZero fun bit => zmap (8192 * map + bit)).map
      fun bit => 8192 * map + bit

/-- The bit of a zone. -/
def SuperBlock.bit (sb : SuperBlock) (zone : Nat) : Nat :=
  zone - (sb.firstDataZone - 1)

/-- `new_block` -/
def newBlock (sb : SuperBlock) : Routine Fs Nat := do
  let fs ← read
  match freeBit sb fs.zmap with
  | none => pure 0
  | some bit =>
    update (Fs.setBit bit true)
    if fs.zmap bit then
      Routine.panic "new_block: bit already set"
    else
      let block := bit + sb.firstDataZone - 1
      if sb.nzones ≤ block then
        pure 0
      else
        bread block
        let fs ← read
        if fs.count block ≠ 1 then
          Routine.panic "new block: count is != 1"
        else
          update (Fs.setData block .zeros)
          brelse block
          pure block

/-- `free_block` -/
def freeBlock (sb : SuperBlock) (block : Nat) : Routine Fs Unit := do
  if block < sb.firstDataZone ∨ sb.nzones ≤ block then
    Routine.panic "trying to free block not in datazone"
  else
    let fs ← read
    if fs.count block ≠ 0 then
      -- A buffer in use: the reference `get_hash_table` took is kept.
      update (Fs.setCount block (fs.count block + 1))
    else if fs.zmap (sb.bit block) then
      update (Fs.setBit (sb.bit block) false)
    else
      Routine.panic "free_block: bit already cleared"

/-- A zone of the inode, allocated if `create` asks for it. -/
def inodeZone
    (sb : SuperBlock)
    (inode index : Nat)
    (create : Bool) :
    Routine Fs Nat := do
  let fs ← read
  if create && (fs.inode inode).zone index == 0 then
    let zone ← newBlock sb
    update (Fs.setZone inode index zone)
  let fs ← read
  pure ((fs.inode inode).zone index)

/-- An entry of an indirect block, allocated if `create` asks for it. -/
def entryZone
    (sb : SuperBlock)
    (block index : Nat)
    (create : Bool) :
    Routine Fs Nat := do
  if block = 0 then
    pure 0
  else
    bread block
    let fs ← read
    let zone := (fs.data block).word index
    if create && zone == 0 then
      let zone ← newBlock sb
      if zone ≠ 0 then
        update (Fs.setEntry block index zone)
      brelse block
      pure zone
    else
      brelse block
      pure zone

/-- `_bmap` -/
def bmapOrCreate
    (sb : SuperBlock)
    (inode block : Nat)
    (create : Bool) :
    Routine Fs Nat := do
  if 7 + 512 + 512 * 512 ≤ block then
    Routine.panic "_bmap: block>big"
  else if block < 7 then
    inodeZone sb inode block create
  else
    let block := block - 7
    if block < 512 then
      let single ← inodeZone sb inode 7 create
      entryZone sb single block create
    else
      let block := block - 512
      let double ← inodeZone sb inode 8 create
      let single ← entryZone sb double (block / 512) create
      entryZone sb single (block % 512) create

/-- `bmap` -/
def bmap (sb : SuperBlock) (inode block : Nat) : Routine Fs Nat :=
  bmapOrCreate sb inode block false

/-- `create_block` -/
def createBlock (sb : SuperBlock) (inode block : Nat) : Routine Fs Nat :=
  bmapOrCreate sb inode block true

/-- Free what the words of a block refer to, and the block itself. -/
def freeWords
    (sb : SuperBlock)
    (free : Nat → Routine Fs Unit)
    (block : Nat) :
    Routine Fs Unit := do
  if block = 0 then
    pure ()
  else
    bread block
    forUp
      (fun index => do
        let fs ← read
        if (fs.data block).word index ≠ 0 then
          free ((fs.data block).word index))
      512 0
    brelse block
    freeBlock sb block

/-- `free_ind` -/
def freeInd (sb : SuperBlock) (block : Nat) : Routine Fs Unit :=
  freeWords sb (freeBlock sb) block

/-- `free_dind` -/
def freeDind (sb : SuperBlock) (block : Nat) : Routine Fs Unit :=
  freeWords sb (freeInd sb) block

/-- `truncate` -/
def truncate (sb : SuperBlock) (inode : Nat) : Routine Fs Unit := do
  let fs ← read
  if !(isReg (fs.inode inode).mode || isDir (fs.inode inode).mode) then
    pure ()
  else
    forUp
      (fun index => do
        let fs ← read
        if (fs.inode inode).zone index ≠ 0 then
          freeBlock sb ((fs.inode inode).zone index)
          update (Fs.setZone inode index 0))
      7 0
    let fs ← read
    freeInd sb ((fs.inode inode).zone 7)
    let fs ← read
    freeDind sb ((fs.inode inode).zone 8)
    update (Fs.setZone inode 8 0)
    update (Fs.setZone inode 7 0)
    update (Fs.setSize inode 0)

end Zones

end HitOs
