import HitOs.PathInodes
import HitOs.Traces
import HitOs.ZoneSearch
import Mathlib

namespace HitOs

/-!
# Inode numbers

`new_inode` and `free_inode` on the bitmap of a mounted device and on the table of the
inodes in memory.  Only `get_empty_inode` sleeps, before the bitmap is looked at.
`free_inode` ends as on a path, where its bits are left out (`freeInode_agrees`).
-/

namespace InodeNumbers

open Routine
open scoped Inodes
open Inodes (Index nrInode)
open ZoneSearch (Map findFirstZero findFirstZero_spec findMap findMap_some findMap_none)

/-- The fields of `m_inode` that are set or read here. -/
structure Inode where
  (dev num count nlinks uid gid : Nat := 0)
  (dirt lock : Bool := false)
  (mtime atime ctime : Int := 0)

/-- What `get_super` finds for the device. -/
structure SuperBlock where
  ninodes : Nat
  imap : Fin 8 → Option Map

/-- `inode_table`, `last_inode` of `get_empty_inode`, and the device. -/
structure Kernel where
  inode : Index → Inode
  last : Index
  sb : SuperBlock

/-- What `clear_bit` stores. -/
def clearBit (nr : Nat) (map : Map) : Map :=
  { map with
    long :=
      Function.update map.long (nr / 32)
        (map.long (nr / 32) &&& ~~~(1#32 <<< (nr % 32))) }

/-- A block of the bitmap, changed and dirty. -/
def SuperBlock.store (i : Fin 8) (map : Map) (sb : SuperBlock) : SuperBlock :=
  { sb with imap := Function.update sb.imap i (some { map with dirt := true }) }

namespace Kernel

def set (index : Index) (value : Inode) (kernel : Kernel) : Kernel :=
  { kernel with inode := Function.update kernel.inode index value }

/-- `set_bit` or `clear_bit`, and `bh->b_dirt = 1` -/
def store (i : Fin 8) (map : Map) (kernel : Kernel) : Kernel :=
  { kernel with sb := kernel.sb.store i map }

/-- What `get_empty_inode` looks at. -/
def table (kernel : Kernel) : Inodes.Table where
  inode index :=
    { Inodes.Inode.zero with
      count := (kernel.inode index).count
      lock := (kernel.inode index).lock
      dirt := (kernel.inode index).dirt }
  last := kernel.last

end Kernel

/-- `new_inode` from where `get_empty_inode` has found that a place is free still. -/
def newInodeIn
    (index : Index)
    (dev euid egid : Nat)
    (time : Int) : Routine Kernel (Option Index) := do
  update (Kernel.set index { count := 1 })
  let kernel ← read
  match findMap kernel.sb.imap with
  | none =>
    -- `iput` of an inode without a device
    update (Kernel.set index {})
    pure none
  | some (i, map) =>
    let j := findFirstZero map
    if kernel.sb.ninodes < j + i * 8192 then
      update (Kernel.set index {})
      pure none
    else if map.bit j then
      Routine.panic "new_inode: bit already set"
    else
      update (Kernel.store i (map.setBit j))
      update (Kernel.set index
        { dev := dev, num := j + i * 8192, count := 1, nlinks := 1,
          uid := euid, gid := egid, dirt := true,
          mtime := time, atime := time, ctime := time })
      pure (some index)

/-- `new_inode`, if the place that is chosen first is still free after the sleep. -/
def newInode
    (dev euid egid : Nat)
    (time : Int) : Routine Kernel (Option Index) := do
  let kernel ← read
  match Inodes.search kernel.table nrInode kernel.last none with
  | (none, _) => Routine.panic "No free inodes in mem"
  | (some index, last) =>
    update fun kernel => { kernel with last := last }
    newInodeIn index dev euid egid time

/-- `free_inode`, and whether it says that the bit was cleared already -/
def freeInode (index : Index) : Routine Kernel Bool := do
  let kernel ← read
  let inode := kernel.inode index
  if inode.dev = 0 then
    update (Kernel.set index {})
    pure false
  else if 1 < inode.count then
    Routine.panic "free_inode"
  else if inode.nlinks ≠ 0 then
    Routine.panic "trying to free inode with links"
  else if inode.num < 1 ∨ kernel.sb.ninodes < inode.num then
    Routine.panic "trying to free inode 0 or nonexistant inode"
  else
    -- `i_num` has 16 bits.
    let i : Fin 8 := ⟨inode.num / 8192 % 8, Nat.mod_lt _ (Nat.succ_pos 7)⟩
    match kernel.sb.imap i with
    | none => Routine.panic "nonexistent imap in superblock"
    | some map =>
      let nr := inode.num % 8192
      update (Kernel.store i (clearBit nr map))
      update (Kernel.set index {})
      pure (!map.bit nr)

/-- The numbers of the inodes that there are once an inode is made. -/
def withMade (made : Option Nat) (used : Set Nat) : Set Nat :=
  {num | made = some num ∨ num ∈ used}

/-- An inode as `iput` passes it to `free_inode`. -/
structure Unlinked (inode : Inode) (used : Set Nat) : Prop where
  dev : inode.dev ≠ 0
  num : inode.num ∈ used
  count : inode.count ≤ 1
  nlinks : inode.nlinks = 0

/-- What the tasks call; other calls may do anything to the table. -/
inductive Call where
  | others (inode : Index → Inode) (last : Index)
  | new (index : Index) (dev euid egid : Nat) (time : Int)
  | free (index : Index)

/-- The number of the inode that was made. -/
def Kernel.made (kernel : Kernel) (made : Option Index) : Option Nat :=
  made.map fun index => (kernel.inode index).num

/-- One call, and the numbers in use before and after it. -/
def Step (call : Call) (before after : Kernel × Set Nat) : Prop :=
  match call with
  | .others inode last =>
    after = ({ before.1 with inode := inode, last := last }, before.2)
  | .new index dev euid egid time =>
    (before.1.inode index).count = 0 ∧
      ∃ made, newInodeIn index dev euid egid time before.1 = .ret made after.1 ∧
        after.2 = withMade (after.1.made made) before.2
  | .free index =>
    Unlinked (before.1.inode index) before.2 ∧
      ∃ said, freeInode index before.1 = .ret said after.1 ∧
        after.2 = before.2 \ {(before.1.inode index).num}

/-- The bit of a number; set where the bitmap has no block. -/
def SuperBlock.bit (sb : SuperBlock) (nr : Nat) : Bool :=
  ZoneSearch.SuperBlock.bit ⟨0, 0, 0, sb.imap⟩ nr

/-- The bitmap covers the numbers of the device, and the set bits are those in use. -/
structure Exact (sb : SuperBlock) (used : Set Nat) : Prop where
  small :
    sb.ninodes < 65536
  present :
    ∀ i num, num ≤ sb.ninodes → num / 8192 = i.val → sb.imap i ≠ none
  reserved :
    sb.bit 0 = true
  inside :
    ∀ num ∈ used, 1 ≤ num ∧ num ≤ sb.ninodes
  bits :
    ∀ num, 1 ≤ num → num ≤ sb.ninodes → (sb.bit num = true ↔ num ∈ used)

/-- The lowest number that is not in use is taken, if there is one. -/
def Made (used : Set Nat) (outcome : Outcome Kernel (Option Index)) : Prop :=
  ∃ made after, outcome = .ret made after ∧
    Exact after.sb (withMade (after.made made) used) ∧
      match made with
      | some index => IsLeast {num | 1 ≤ num ∧ num ∉ used} (after.inode index).num
      | none => ∀ num, 1 ≤ num → num ≤ after.sb.ninodes → num ∈ used

/-- `get_empty_inode` panics if no place is free, and nothing else does. -/
def Takes (kernel : Kernel) (used : Set Nat) : Prop :=
  ∀ dev euid egid time,
    (∀ index, (kernel.inode index).count = 0 →
      Made used (newInodeIn index dev euid egid time kernel)) ∧
    ((∃ index, (kernel.inode index).count = 0) →
      Made used (newInode dev euid egid time kernel)) ∧
    ((∀ index, (kernel.inode index).count ≠ 0) →
      newInode dev euid egid time kernel = .panic "No free inodes in mem")

/-- Nothing is said when an inode is freed, and its number is left again. -/
def Frees (kernel : Kernel) (used : Set Nat) : Prop :=
  ∀ index, Unlinked (kernel.inode index) used → ∃ after,
    freeInode index kernel = .ret false after ∧
      Exact after.sb (used \ {(kernel.inode index).num})

variable {sb : SuperBlock} {kernel : Kernel} {used used' : Set Nat}
  {i : Fin 8} {map changed : Map} {place nr : Nat} {value : Bool}

theorem bit_setBit (nr : Nat) :
    (map.setBit place).bit nr = if nr = place then true else map.bit nr := by
  rw [ZoneSearch.Map.bit_setBit]
  split_ifs with same <;> simp [same]

theorem bit_clearBit (nr : Nat) :
    (clearBit place map).bit nr = if nr = place then false else map.bit nr := by
  unfold Map.bit clearBit
  dsimp only
  by_cases sameLong : nr / 32 = place / 32
  · rw [sameLong, Function.update_self, BitVec.getLsbD_and, BitVec.getLsbD_not,
      BitVec.getLsbD_shiftLeft, BitVec.getLsbD_one]
    have inside := Nat.mod_lt nr (Nat.zero_lt_succ 31)
    split_ifs with same
    · simp [same]
    · have other : ¬ nr % 32 - place % 32 = 0 ∨ nr % 32 < place % 32 := by omega
      rcases other with other | other <;> simp [inside, other]
  · rw [Function.update_of_ne sameLong, if_neg fun same => sameLong (by rw [same])]

theorem SuperBlock.bit_of_map
    (there : sb.imap i = some map)
    (below : nr < 8192) :
    sb.bit (i * 8192 + nr) = map.bit nr :=
  ZoneSearch.SuperBlock.bit_of_map there below

/-- What a change of one bit in a block does to the whole bitmap. -/
theorem SuperBlock.bit_store
    (there : sb.imap i = some map)
    (below : place < 8192)
    (changes : ∀ nr, changed.bit nr = if nr = place then value else map.bit nr) :
    (sb.store i changed).bit nr =
      if nr = i * 8192 + place then value else sb.bit nr := by
  by_cases block : nr / 8192 = i
  · have split : i * 8192 + nr % 8192 = nr := by omega
    have rest := Nat.mod_lt nr (Nat.zero_lt_succ 8191)
    rw [← split, bit_of_map (Function.update_self ..) rest, bit_of_map there rest]
    refine (changes _).trans ?_
    simp only [Nat.add_left_cancel_iff]
  · rw [if_neg (by omega)]
    unfold SuperBlock.bit ZoneSearch.SuperBlock.bit store
    dsimp only
    split_ifs with covered
    · rw [Function.update_of_ne fun same => block (congrArg Fin.val same)]
    · rfl

theorem Exact.store
    (exactly : Exact sb used)
    (there : sb.imap i = some map)
    (below : place < 8192)
    (changes : ∀ nr, changed.bit nr = if nr = place then value else map.bit nr)
    {num : Nat}
    (isPlace : num = i * 8192 + place)
    (inside : 1 ≤ num ∧ num ≤ sb.ninodes)
    (self : value = true ↔ num ∈ used')
    (others : ∀ other ≠ num, other ∈ used' ↔ other ∈ used) :
    Exact (sb.store i changed) used' := by
  have bits : ∀ nr, (sb.store i changed).bit nr = if nr = num then value else sb.bit nr :=
    isPlace ▸ fun nr => SuperBlock.bit_store there below changes
  refine
    ⟨exactly.small, fun j nr most block => ?_, ?_, fun nr member => ?_, fun nr one most => ?_⟩
  · unfold SuperBlock.store
    dsimp only
    rw [Function.update_apply]
    split_ifs
    · exact Option.some_ne_none _
    · exact exactly.present j nr most block
  · rw [bits, if_neg (by omega)]
    exact exactly.reserved
  · by_cases same : nr = num
    · exact same ▸ inside
    · exact exactly.inside nr ((others nr same).mp member)
  · rw [bits]
    split_ifs with same
    · exact same ▸ self
    · rw [others nr same]
      exact exactly.bits nr one most

@[simp] theorem Kernel.set_sb
    {index : Index} {value : Inode} :
    (kernel.set index value).sb = kernel.sb :=
  rfl

@[simp] theorem Kernel.set_self
    {index : Index} {value : Inode} :
    (kernel.set index value).inode index = value :=
  Function.update_self ..

/-- What the search for an inode number finds, or leaves. -/
theorem Exact.made
    (exactly : Exact kernel.sb used)
    (index : Index)
    (dev euid egid : Nat)
    (time : Int) :
    Made used (newInodeIn index dev euid egid time kernel) := by
  unfold newInodeIn
  simp only [bind, andThen, Routine.read, update, Kernel.set_sb]
  cases found : findMap kernel.sb.imap with
  | none =>
    refine ⟨none, _, rfl, by simpa [withMade, Kernel.made] using exactly,
      fun num one most => ?_⟩
    exact (exactly.bits num one most).mp (findMap_none found num)
  | some stop =>
    obtain ⟨i, map⟩ := stop
    obtain ⟨there, below, lowest⟩ := @findMap_some map ⟨0, 0, 0, kernel.sb.imap⟩ i found
    have clear := (findFirstZero_spec map).zero below
    have free : kernel.sb.bit (i * 8192 + findFirstZero map) = false :=
      (kernel.sb.bit_of_map there below).trans clear
    dsimp only
    generalize findFirstZero map = j at *
    rw [Nat.add_comm] at free lowest
    have lower :
        ∀ num, 1 ≤ num → num ≤ kernel.sb.ninodes → num < j + i * 8192 →
          num ∈ used := by
      intro num one most before
      refine (exactly.bits num one most).mp ?_
      by_contra free
      exact absurd (lowest num (Bool.eq_false_of_not_eq_true free)) (by omega)
    by_cases beyond : kernel.sb.ninodes < j + i * 8192
    · rw [if_pos beyond]
      exact ⟨none, _, rfl, by simpa [withMade, Kernel.made] using exactly,
        fun num one most => lower num one most (Nat.lt_of_le_of_lt most beyond)⟩
    have one : 1 ≤ j + i * 8192 := by
      refine Nat.one_le_iff_ne_zero.mpr fun zero => ?_
      rw [zero, exactly.reserved] at free
      cases free
    have most := Nat.not_lt.mp beyond
    rw [if_neg beyond, clear]
    refine ⟨some index, _, rfl, ?_, ?_⟩
    · refine exactly.store there below bit_setBit (Nat.add_comm ..) ⟨one, most⟩ ?_ ?_
      · simp [withMade, Kernel.made]
      · intro other different
        simp [withMade, Kernel.made, Ne.symm different]
    · simp only [Kernel.set_self]
      refine ⟨⟨one, fun inUse => ?_⟩, ?_⟩
      · rw [(exactly.bits _ one most).mpr inUse] at free
        cases free
      · rintro other ⟨one, free⟩
        by_contra before
        exact free (lower other one (by omega) (by omega))

/-- Places that are free are found, and none is if there is none. -/
theorem search_table
    (kernel : Kernel) :
    match Inodes.search kernel.table nrInode kernel.last none with
    | (some index, _) => (kernel.inode index).count = 0
    | (none, _) => ∀ index, (kernel.inode index).count ≠ 0 := by
  cases result : Inodes.search kernel.table nrInode kernel.last none with
  | mk chosen last =>
    cases chosen with
    | some index =>
      exact Paths.search_of_some (by rintro _ ⟨⟩) result
    | none =>
      intro index
      obtain ⟨turn, less, reached⟩ := Paths.exists_following kernel.last index
      rw [← reached]
      exact (Paths.search_of_none result).2 turn less

theorem Exact.takes (exactly : Exact kernel.sb used) : Takes kernel used := by
  intro dev euid egid time
  refine ⟨fun index _ => exactly.made index dev euid egid time, ?_, ?_⟩
  all_goals
    intro places
    have chosen := search_table kernel
    unfold newInode
    simp only [bind, andThen, Routine.read]
    split at chosen
  · rename_i index last result
    rw [result]
    have exactly' : Exact { kernel with last := last }.sb used := exactly
    exact exactly'.made index dev euid egid time
  · obtain ⟨index, free⟩ := places
    exact absurd free (chosen index)
  · rename_i index _ _
    exact absurd chosen (places index)
  · rename_i result
    rw [result]
    rfl

theorem Exact.frees (exactly : Exact kernel.sb used) : Frees kernel used := by
  intro index unlinked
  have small := exactly.small
  obtain ⟨inode, shape⟩ : ∃ inode, kernel.inode index = inode := ⟨_, rfl⟩
  rw [shape] at unlinked ⊢
  obtain ⟨one, most⟩ := exactly.inside _ unlinked.num
  have split : inode.num = inode.num / 8192 % 8 * 8192 + inode.num % 8192 := by omega
  obtain ⟨map, there⟩ := Option.ne_none_iff_exists'.mp (exactly.present
    ⟨inode.num / 8192 % 8, Nat.mod_lt _ (Nat.succ_pos 7)⟩ _ most (by dsimp; omega))
  have below : inode.num % 8192 < 8192 := Nat.mod_lt _ (Nat.succ_pos 8191)
  have set : map.bit (inode.num % 8192) = true := by
    rw [← kernel.sb.bit_of_map there below]
    dsimp only
    rw [← split]
    exact (exactly.bits _ one most).mpr unlinked.num
  refine ⟨(kernel.store _ (clearBit (inode.num % 8192) map)).set index {}, ?_,
    exactly.store there below bit_clearBit split ⟨one, most⟩
      (by simp) fun other different => by simp [different]⟩
  unfold freeInode
  simp only [bind, andThen, Routine.read, shape]
  rw [if_neg unlinked.dev, if_neg (Nat.not_lt.mpr unlinked.count),
    if_neg (not_not.mpr unlinked.nlinks), if_neg (by omega), there]
  dsimp only
  rw [set]
  rfl

/-- The inodes and the device of the two models of `free_inode`. -/
structure Agrees (slot : Paths.Slot) (paths : Paths.Kernel) (kernel : Kernel) : Prop where
  inode :
    ∀ index,
      (kernel.inode index).dev = (paths.inode index).dev ∧
        (kernel.inode index).num = (paths.inode index).num ∧
          (kernel.inode index).count = (paths.inode index).count ∧
            (kernel.inode index).nlinks = (paths.inode index).nlinks
  ninodes : kernel.sb.ninodes = (paths.super slot).ninodes
  imap : ∀ i, kernel.sb.imap i = none ↔ min (paths.super slot).imapBlocks 8 ≤ i.val

/-- Cleared in both, the inode is the same. -/
theorem Agrees.cleared
    {slot : Paths.Slot} {paths : Paths.Kernel} {kernel : Kernel}
    (agrees : Agrees slot paths kernel)
    (index : Index) :
    Agrees slot (paths.set index .zero) (kernel.set index {}) where
  inode other := by
    by_cases same : other = index
    · subst same
      simp [Kernel.set, Paths.Kernel.set, Paths.MInode.zero]
    · simpa [Kernel.set, Paths.Kernel.set, same] using agrees.inode other
  ninodes := agrees.ninodes
  imap := agrees.imap

/-- A block of the bitmap is there before and after it is changed. -/
theorem Agrees.stored
    {slot : Paths.Slot} {paths : Paths.Kernel} {kernel : Kernel} {i : Fin 8}
    (agrees : Agrees slot paths kernel)
    (present : kernel.sb.imap i ≠ none)
    (map : Map) :
    Agrees slot paths (kernel.store i map) where
  inode := agrees.inode
  ninodes := agrees.ninodes
  imap other := by
    rw [← agrees.imap other]
    by_cases same : other = i
    · subst same
      simp [Kernel.store, SuperBlock.store, present]
    · simp [Kernel.store, SuperBlock.store, same]

/-- The calls of `free_inode` by `iput`, with the bit and without it, have one end. -/
theorem freeInode_agrees
    {slot : Paths.Slot} {paths : Paths.Kernel} {kernel : Kernel} {index : Index}
    (agrees : Agrees slot paths kernel)
    (found : paths.getSuper (paths.inode index).dev = some slot)
    (small : (paths.inode index).num < 65536) :
    (∃ said after freed,
      freeInode index kernel = .ret said after ∧
        Paths.freeInode index paths = .ret () freed ∧ Agrees slot freed after) ∨
      ∃ message,
        freeInode index kernel = .panic message ∧
          Paths.freeInode index paths = .panic message := by
  obtain ⟨dev, num, count, nlinks⟩ := agrees.inode index
  have reads : (Routine.read : Routine Kernel Kernel) kernel = .ret kernel kernel := rfl
  have pathReads :
      (Routine.read : Routine Paths.Kernel Paths.Kernel) paths = .ret paths paths := rfl
  have word : (paths.inode index).num / 8192 % 8 = (paths.inode index).num / 8192 :=
    Nat.mod_eq_of_lt (by omega)
  have imap := agrees.imap
    ⟨(paths.inode index).num / 8192 % 8, Nat.mod_lt _ (Nat.succ_pos 7)⟩
  simp only [word] at imap
  unfold freeInode Paths.freeInode
  rw [bind_of_ret reads, bind_of_ret pathReads]
  simp only [dev, num, count, nlinks, found, agrees.ninodes, word]
  split
  · exact Or.inl ⟨_, _, _, rfl, rfl, agrees.cleared index⟩
  split
  · exact Or.inr ⟨_, rfl, rfl⟩
  split
  · exact Or.inr ⟨_, rfl, rfl⟩
  split
  · exact Or.inr ⟨_, rfl, rfl⟩
  split
  · rename_i beyond
    rw [imap.mpr beyond]
    exact Or.inr ⟨_, rfl, rfl⟩
  · rename_i within
    have present := mt imap.mp within
    obtain ⟨map, isMap⟩ := Option.ne_none_iff_exists'.mp present
    simp only [isMap]
    exact Or.inl ⟨_, _, _, rfl, rfl, (agrees.stored present _).cleared index⟩

end InodeNumbers

end HitOs
