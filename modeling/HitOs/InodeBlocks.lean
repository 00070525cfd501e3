import HitOs.InodeTable
import HitOs.Routine
import HitOs.StructLayouts
import Mathlib.Data.Fintype.Sum
import Mathlib.Data.List.GetD
import Mathlib.Tactic.DeriveFintype

namespace HitOs

/-!
# Inodes on a device

`read_inode` and `write_inode`, which copy a `d_inode` between a block and the beginning
of an `m_inode`.  A block has one contents, whether it is in a buffer or not.
-/

namespace InodeBlocks

open Routine StructLayouts
open Inodes (Index)

/-- The members of `d_inode`. -/
inductive DField where
  | mode
  | uid
  | size
  | time
  | gid
  | nlinks
  | zone (index : Fin 9)
  deriving Repr, DecidableEq, Fintype

/-- The members of `m_inode`. -/
inductive MField where
  | mode
  | uid
  | size
  | mtime
  | gid
  | nlinks
  | zone (index : Fin 9)
  | wait
  | atime
  | ctime
  | dev
  | num
  | count
  | lock
  | dirt
  | pipe
  | mount
  | seek
  | update
  deriving Repr, DecidableEq, Fintype

namespace DField

/-- `sizeof` of a member -/
def bytes : DField → Nat
  | mode | uid | zone _ => 2
  | size | time => 4
  | gid | nlinks => 1

/-- The order in which they are declared. -/
def declared : List DField :=
  [mode, uid, size, time, gid, nlinks] ++ (List.finRange 9).map zone

def offset (field : DField) : Nat :=
  (offsets 0 (declared.map bytes)).getD (declared.idxOf field) 0

/-- The member of `m_inode` that stands for it. -/
def inMemory : DField → MField
  | mode => .mode
  | uid => .uid
  | size => .size
  | time => .mtime
  | gid => .gid
  | nlinks => .nlinks
  | zone index => .zone index

end DField

namespace MField

/-- `sizeof` of a member -/
def bytes : MField → Nat
  | mode | uid | zone _ | dev | num | count => 2
  | size | mtime | wait | atime | ctime => 4
  | gid | nlinks | lock | dirt | pipe | mount | seek | update => 1

/-- The order in which they are declared. -/
def declared : List MField :=
  [mode, uid, size, mtime, gid, nlinks] ++ (List.finRange 9).map zone ++
    [wait, atime, ctime, dev, num, count, lock, dirt, pipe, mount, seek, update]

def offset (field : MField) : Nat :=
  (offsets 0 (declared.map bytes)).getD (declared.idxOf field) 0

end MField

/-- `sizeof (struct d_inode)` -/
def dInodeSize : Nat :=
  sizeOfStruct (DField.declared.map DField.bytes)

/-- `INODES_PER_BLOCK` -/
def inodesPerBlock : Nat :=
  1024 / dInodeSize

structure SuperBlock where
  ninodes : Nat
  imapBlocks : Nat
  zmapBlocks : Nat

/-- The inodes in memory, the super blocks, and the blocks of the devices. -/
structure Store where
  inode : Index → Block
  /-- `get_super` -/
  super : Nat → Option SuperBlock
  block : Nat → Nat → Block
  /-- `b_dirt` -/
  dirty : Nat → Nat → Bool
  /-- Whether `bread` gets the block. -/
  readable : Nat → Nat → Bool

namespace Store

def get (index : Index) (field : MField) (store : Store) : Nat :=
  number (store.inode index) field.offset field.bytes

def set (index : Index) (field : MField) (value : Nat) (store : Store) : Store :=
  { store with
    inode :=
      Function.update store.inode index
        (setNumber field.offset field.bytes value (store.inode index)) }

/-- `((struct d_inode *)bh->b_data)[slot] = *(struct d_inode *)inode` -/
def save (index : Index) (dev block slot : Nat) (store : Store) : Store :=
  { store with
    block :=
      Function.update store.block dev
        (Function.update (store.block dev) block
          (copy (store.inode index) 0 (store.block dev block)
            (dInodeSize * slot) dInodeSize))
    dirty :=
      Function.update store.dirty dev
        (Function.update (store.dirty dev) block true) }

/-- `*(struct d_inode *)inode = ((struct d_inode *)bh->b_data)[slot]` -/
def load (index : Index) (dev block slot : Nat) (store : Store) : Store :=
  { store with
    inode :=
      Function.update store.inode index
        (copy (store.block dev block) (dInodeSize * slot)
          (store.inode index) 0 dInodeSize) }

end Store

/-- The block with an inode. -/
def blockOf (sb : SuperBlock) (num : Nat) : Nat :=
  2 + sb.imapBlocks + sb.zmapBlocks + (num - 1) / inodesPerBlock

/-- Its place there. -/
def slotOf (num : Nat) : Nat :=
  (num - 1) % inodesPerBlock

/-- `read_inode` -/
def readInode (index : Index) : Routine Store Unit := do
  update (Store.set index .lock 1)
  let store ← read
  let dev := store.get index .dev
  let num := store.get index .num
  match store.super dev with
  | none => Routine.panic "trying to read inode without dev"
  | some sb =>
    if store.readable dev (blockOf sb num) then
      update (Store.load index dev (blockOf sb num) (slotOf num))
      update (Store.set index .lock 0)
    else
      Routine.panic "unable to read i-node block"

/-- `write_inode` -/
def writeInode (index : Index) : Routine Store Unit := do
  update (Store.set index .lock 1)
  let store ← read
  let dev := store.get index .dev
  let num := store.get index .num
  if store.get index .dirt = 0 ∨ dev = 0 then
    update (Store.set index .lock 0)
  else
    match store.super dev with
    | none => Routine.panic "trying to write inode without device"
    | some sb =>
      if store.readable dev (blockOf sb num) then
        update (Store.save index dev (blockOf sb num) (slotOf num))
        update (Store.set index .dirt 0)
        update (Store.set index .lock 0)
      else
        Routine.panic "unable to read i-node block"

/-! ## Members -/

theorem dInodeSize_eq : dInodeSize = 32 := by
  decide

theorem inodesPerBlock_eq : inodesPerBlock = 32 := by
  decide

/-- A `d_inode` is the beginning of an `m_inode`. -/
theorem sizes_prefix :
    DField.declared.map DField.bytes <+: MField.declared.map MField.bytes := by
  decide

theorem idxOf_inMemory (field : DField) :
    MField.declared.idxOf field.inMemory = DField.declared.idxOf field ∧
      field.inMemory.bytes = field.bytes := by
  revert field
  decide

theorem offset_inMemory (field : DField) :
    field.inMemory.offset = field.offset := by
  have inside : DField.declared.idxOf field <
      (offsets 0 (DField.declared.map DField.bytes)).length := by
    revert field
    decide
  have begins : offsets 0 (DField.declared.map DField.bytes) <+:
      offsets 0 (MField.declared.map MField.bytes) :=
    offsets_prefix sizes_prefix
  unfold MField.offset DField.offset
  rw [(idxOf_inMemory field).1, List.getD_eq_getElem _ _ inside,
    List.getD_eq_getElem _ _ (Nat.lt_of_lt_of_le inside begins.length_le)]
  exact (begins.getElem inside).symm

theorem offset_lt (field : DField) :
    field.offset + field.bytes ≤ dInodeSize := by
  revert field
  decide

theorem members_apart (field other : MField) (different : field ≠ other) :
    field.offset + field.bytes ≤ other.offset ∨
      other.offset + other.bytes ≤ field.offset := by
  revert field other
  decide +kernel

/-! ## Reading and writing -/

variable {store : Store} {index other : Index} {dev block slot value : Nat}

theorem get_set_of_ne
    {field changed : MField}
    (different : field ≠ changed) :
    (store.set index changed value).get other field =
      store.get other field := by
  unfold Store.get Store.set
  dsimp only
  by_cases here : other = index
  · subst here
    rw [Function.update_self]
    exact number_copy_outside (members_apart field changed different)
  · rw [Function.update_of_ne here]

theorem get_load
    (field : DField) :
    (store.load index dev block slot).get index field.inMemory =
      number (store.block dev block) (dInodeSize * slot + field.offset)
        field.bytes := by
  have within := offset_lt field
  unfold Store.get Store.load
  dsimp only
  rw [Function.update_self, offset_inMemory, (idxOf_inMemory field).2,
    number_copy_inside (Nat.zero_le _) (by omega), Nat.sub_zero]

/-- What a member of the `d_inode` in a block is after it has been saved. -/
theorem number_save
    (field : DField) :
    number ((store.save index dev block slot).block dev block)
        (dInodeSize * slot + field.offset) field.bytes =
      store.get index field.inMemory := by
  have within := offset_lt field
  unfold Store.get Store.save
  dsimp only
  rw [Function.update_self, Function.update_self, offset_inMemory,
    (idxOf_inMemory field).2, number_copy_inside (by omega) (by omega)]
  congr 1
  omega

/-- Another place in the block, or another block, keeps what it has. -/
theorem number_save_of_ne
    {otherBlock otherSlot : Nat}
    (different : otherBlock ≠ block ∨ otherSlot ≠ slot)
    (field : DField) :
    number ((store.save index dev block slot).block dev otherBlock)
        (dInodeSize * otherSlot + field.offset) field.bytes =
      number (store.block dev otherBlock)
        (dInodeSize * otherSlot + field.offset) field.bytes := by
  have within := offset_lt field
  rw [dInodeSize_eq] at within
  unfold Store.save
  dsimp only
  rw [Function.update_self]
  by_cases here : otherBlock = block
  · subst here
    rw [Function.update_self]
    refine number_copy_outside ?_
    rw [dInodeSize_eq]
    omega
  · rw [Function.update_of_ne here]

/-- Different inodes of a device are at different places. -/
theorem places_apart
    {sb : SuperBlock} {num otherNum : Nat}
    (positive : 1 ≤ num)
    (otherPositive : 1 ≤ otherNum)
    (different : otherNum ≠ num) :
    blockOf sb otherNum ≠ blockOf sb num ∨ slotOf otherNum ≠ slotOf num := by
  unfold blockOf slotOf
  rw [inodesPerBlock_eq]
  omega

/-- The block with an inode is in the table of inodes. -/
theorem blockOf_bounds
    {sb : SuperBlock} {num : Nat}
    (positive : 1 ≤ num)
    (within : num ≤ sb.ninodes) :
    2 + sb.imapBlocks + sb.zmapBlocks ≤ blockOf sb num ∧
      blockOf sb num <
        2 + sb.imapBlocks + sb.zmapBlocks + (sb.ninodes + 31) / 32 := by
  unfold blockOf
  rw [inodesPerBlock_eq]
  omega

/-- What `read_inode` makes of a member, if it returns. -/
def loaded
    (index : Index)
    (field : DField)
    (store : Store) : Option Nat :=
  match readInode index store with
  | .ret _ after => some (after.get index field.inMemory)
  | _ => none

theorem lock_ne (field : DField) : field.inMemory ≠ .lock := by
  revert field
  decide

/-- Both calls lock the inode, and go on with what is there then. -/
theorem locked_bind
    {next : Store → Routine Store Unit} :
    (update (Store.set index .lock 1) >>= fun _ => Routine.read >>= next) store =
      next (store.set index .lock 1) (store.set index .lock 1) :=
  rfl

theorem readInode_eq
    {sb : SuperBlock} {num : Nat}
    (device : store.get index .dev = dev)
    (isNum : store.get index .num = num)
    (super : store.super dev = some sb) :
    readInode index store =
      if store.readable dev (blockOf sb num) then
        .ret ()
          (((store.set index .lock 1).load index dev (blockOf sb num)
            (slotOf num)).set index .lock 0)
      else
        .panic "unable to read i-node block" := by
  have sameDev : (store.set index .lock 1).get index .dev = dev :=
    (get_set_of_ne (by decide)).trans device
  have sameNum : (store.set index .lock 1).get index .num = num :=
    (get_set_of_ne (by decide)).trans isNum
  have sameSuper : (store.set index .lock 1).super dev = some sb := super
  have same : (store.set index .lock 1).readable dev (blockOf sb num) =
      store.readable dev (blockOf sb num) := rfl
  unfold readInode
  rw [locked_bind, sameDev, sameNum, sameSuper]
  dsimp only
  rw [same]
  split_ifs
  · rfl
  · rfl

theorem loaded_eq
    {sb : SuperBlock} {num : Nat}
    (device : store.get index .dev = dev)
    (isNum : store.get index .num = num)
    (super : store.super dev = some sb)
    (field : DField) :
    loaded index field store =
      if store.readable dev (blockOf sb num) then
        some
          (number (store.block dev (blockOf sb num))
            (dInodeSize * slotOf num + field.offset) field.bytes)
      else
        none := by
  unfold loaded
  rw [readInode_eq device isNum super]
  split_ifs
  · dsimp only
    rw [get_set_of_ne (lock_ne field), get_load]
    rfl
  · rfl

/-- What `write_inode` does with a dirty inode on a device. -/
theorem writeInode_eq
    {sb : SuperBlock} {num : Nat}
    (device : store.get index .dev = dev)
    (isNum : store.get index .num = num)
    (super : store.super dev = some sb)
    (notZero : dev ≠ 0)
    (dirty : store.get index .dirt ≠ 0) :
    writeInode index store =
      if store.readable dev (blockOf sb num) then
        .ret ()
          ((((store.set index .lock 1).save index dev (blockOf sb num)
            (slotOf num)).set index .dirt 0).set index .lock 0)
      else
        .panic "unable to read i-node block" := by
  have sameDev : (store.set index .lock 1).get index .dev = dev :=
    (get_set_of_ne (by decide)).trans device
  have sameNum : (store.set index .lock 1).get index .num = num :=
    (get_set_of_ne (by decide)).trans isNum
  have sameDirt : (store.set index .lock 1).get index .dirt ≠ 0 := by
    rw [get_set_of_ne (by decide)]
    exact dirty
  have sameSuper : (store.set index .lock 1).super dev = some sb := super
  have same : (store.set index .lock 1).readable dev (blockOf sb num) =
      store.readable dev (blockOf sb num) := rfl
  unfold writeInode
  rw [locked_bind, sameDev, sameNum, if_neg (not_or.mpr ⟨sameDirt, notZero⟩), sameSuper]
  dsimp only
  rw [same]
  split_ifs
  · rfl
  · rfl

/-- The devices have not changed. -/
structure SameDisk (store later : Store) : Prop where
  super :
    later.super = store.super
  block :
    later.block = store.block
  readable :
    later.readable = store.readable

/--
An inode that has been written is read back, into whatever place of the table; all
other inodes of the device are read as before; and nothing but the table of inodes
has changed there.
-/
theorem inode_round_trips
    {written : Store} {sb : SuperBlock} {num : Nat}
    (super : store.super dev = some sb)
    (notZero : dev ≠ 0)
    (device : store.get index .dev = dev)
    (isNum : store.get index .num = num)
    (positive : 1 ≤ num)
    (within : num ≤ sb.ninodes)
    (dirty : store.get index .dirt ≠ 0)
    (wrote : writeInode index store = .ret () written) :
    (∀ later place field, SameDisk written later →
      later.get place .dev = dev → later.get place .num = num →
        loaded place field later = some (store.get index field.inMemory)) ∧
      (∀ earlier later place field otherNum,
        SameDisk store earlier → SameDisk written later →
          earlier.get place .dev = dev → later.get place .dev = dev →
            earlier.get place .num = otherNum →
              later.get place .num = otherNum →
                1 ≤ otherNum → otherNum ≤ sb.ninodes → otherNum ≠ num →
                  loaded place field later = loaded place field earlier) ∧
        ∀ otherDev otherBlock,
          written.block otherDev otherBlock ≠ store.block otherDev otherBlock ∨
              written.dirty otherDev otherBlock ≠
                store.dirty otherDev otherBlock →
            otherDev = dev ∧
              2 + sb.imapBlocks + sb.zmapBlocks ≤ otherBlock ∧
                otherBlock <
                  2 + sb.imapBlocks + sb.zmapBlocks +
                    (sb.ninodes + 31) / 32 := by
  rw [writeInode_eq device isNum super notZero dirty] at wrote
  split_ifs at wrote with readable
  cases wrote
  refine ⟨?_, ?_, ?_⟩
  · intro later place field same sameDev sameNum
    have laterSuper : later.super dev = some sb := same.super ▸ super
    have laterReadable : later.readable dev (blockOf sb num) = true :=
      same.readable ▸ readable
    rw [loaded_eq sameDev sameNum laterSuper, if_pos laterReadable, same.block]
    have saved := @number_save (store.set index .lock 1) index dev
      (blockOf sb num) (slotOf num) field
    rw [get_set_of_ne (lock_ne field)] at saved
    exact congrArg some saved
  · intro earlier later place field otherNum before after earlierDev laterDev
      earlierNum laterNum otherPositive _ different
    have earlierSuper : earlier.super dev = some sb := before.super ▸ super
    have laterSuper : later.super dev = some sb := after.super ▸ super
    have sameReadable : later.readable dev (blockOf sb otherNum) =
        earlier.readable dev (blockOf sb otherNum) := by
      rw [after.readable, before.readable]
      rfl
    rw [loaded_eq laterDev laterNum laterSuper,
      loaded_eq earlierDev earlierNum earlierSuper, sameReadable, after.block,
      before.block]
    have kept := @number_save_of_ne (store.set index .lock 1) index dev
      (blockOf sb num) (slotOf num) (blockOf sb otherNum) (slotOf otherNum)
      (places_apart positive otherPositive different) field
    exact if_congr Iff.rfl (congrArg some kept) rfl
  · intro otherDev otherBlock changed
    by_cases here : otherDev = dev ∧ otherBlock = blockOf sb num
    · obtain ⟨rfl, rfl⟩ := here
      exact ⟨rfl, blockOf_bounds positive within⟩
    · exfalso
      -- Neither the contents nor the dirty bit of any other block has changed.
      have block : ((store.set index .lock 1).save index dev (blockOf sb num)
          (slotOf num)).block otherDev otherBlock =
            store.block otherDev otherBlock := by
        unfold Store.save
        dsimp only
        by_cases sameDev : otherDev = dev
        · subst sameDev
          rw [Function.update_self, Function.update_of_ne fun same => here ⟨rfl, same⟩]
          rfl
        · rw [Function.update_of_ne sameDev]
          rfl
      have dirt : ((store.set index .lock 1).save index dev (blockOf sb num)
          (slotOf num)).dirty otherDev otherBlock =
            store.dirty otherDev otherBlock := by
        unfold Store.save
        dsimp only
        by_cases sameDev : otherDev = dev
        · subst sameDev
          rw [Function.update_self, Function.update_of_ne fun same => here ⟨rfl, same⟩]
          rfl
        · rw [Function.update_of_ne sameDev]
          rfl
      rcases changed with changed | changed
      · exact changed block
      · exact changed dirt

/-- Inode 2 of a device, changed in memory. -/
def sampleStore : Store :=
  Store.set 0 .dirt 1 <| Store.set 0 .nlinks 3 <| Store.set 0 .num 2 <|
    Store.set 0 .dev 1
      { inode := fun _ => Block.zeros
        super := fun _ => some { ninodes := 64, imapBlocks := 1, zmapBlocks := 1 }
        block := fun _ _ => Block.zeros
        dirty := fun _ _ => false
        readable := fun _ _ => true }

theorem inode_round_trips_sample :
    ∃ written, writeInode 0 sampleStore = .ret () written ∧
      loaded 0 .nlinks written = some 3 := by
  have device : sampleStore.get 0 .dev = 1 := by decide +kernel
  have number : sampleStore.get 0 .num = 2 := by decide +kernel
  have links : sampleStore.get 0 .nlinks = 3 := by decide +kernel
  have dirty : sampleStore.get 0 .dirt ≠ 0 := by decide +kernel
  have writes := writeInode_eq device number rfl (by decide) dirty
  have readable {block : Nat} : sampleStore.readable 1 block = true := rfl
  rw [if_pos readable] at writes
  obtain ⟨reads, _⟩ := inode_round_trips rfl (by decide) device number
    (by decide) (by decide) dirty writes
  refine ⟨_, writes, (reads _ 0 .nlinks ⟨rfl, rfl, rfl⟩ ?_ ?_).trans
    (congrArg some links)⟩
  · rw [get_set_of_ne (by decide), get_set_of_ne (by decide)]
    exact (get_set_of_ne (by decide)).trans device
  · rw [get_set_of_ne (by decide), get_set_of_ne (by decide)]
    exact (get_set_of_ne (by decide)).trans number

end InodeBlocks

end HitOs
