import HitOs.Occurrences
import HitOs.PageMemory
import Mathlib.Order.Interval.Finset.Nat
import Mathlib.Data.Finset.Prod

namespace HitOs

/-!
# The accounting invariant of the page allocator

Directory entries from index 16 on belong to the 64 MB slots of the tasks other
than task 0.  A page above the start of main memory is referenced by the
present page-table entries that map it, by the present directory entries that
use it as a page table, and by the kernel.  `Accounted` says that `mem_map`
counts exactly these references, with the structural facts that keep the
counts apart: a page table has no second reference, a page held by the kernel
is not mapped, and all entries that map one page lie at the same offset of
their slots.
-/

namespace Memory

/-- The directory entries of the task slots from 64 MB on. -/
@[irreducible] def userDirs : Finset Nat :=
  Finset.Ico 16 1024

/-- The page-table entries of these slots, by directory and table index. -/
@[irreducible] def userEntries : Finset (Nat × Nat) :=
  userDirs ×ˢ Finset.range 1024

/-- A present word, seen as an entry. -/
def entryOf (word : Word) : Option Word :=
  if word.present then some word else none

/-- The page table that a directory entry points to. -/
def tableOf
    (memory : Memory)
    (dir : Nat) : Option Nat :=
  (entryOf (memory.ram 0 dir)).map Word.frame

/-- The present page-table entry at a directory and table index. -/
def entryAt
    (memory : Memory)
    (slot : Nat × Nat) : Option Word :=
  (tableOf memory slot.1).bind fun table =>
    entryOf (memory.ram table slot.2)

/-- The page mapped at a directory and table index. -/
def frameAt
    (memory : Memory)
    (slot : Nat × Nat) : Option Nat :=
  (entryAt memory slot).map Word.frame

/-- The page and the dirty bit of the entry at a directory and table index. -/
def placeAt
    (memory : Memory)
    (slot : Nat × Nat) : Option (Nat × Bool) :=
  (memory.entryAt slot).map fun entry => (entry.frame, entry.dirty)

/-- The number of present user entries that map a page. -/
def entryRefs (memory : Memory) (page : Nat) : Nat :=
  occurrences userEntries memory.frameAt page

/-- The number of present user directory entries that use a page as table. -/
def tableRefs (memory : Memory) (page : Nat) : Nat :=
  occurrences userDirs memory.tableOf page

theorem entryOf_eq_some
    {word entry : Word} :
    entryOf word = some entry ↔
      word.present = true ∧ word = entry := by
  unfold entryOf
  split
  · rename_i isPresent
    simp [isPresent]
  · rename_i absent
    simp [absent]

theorem entryOf_of_present
    {word : Word}
    (isPresent : word.present = true) :
    entryOf word = some word := by
  simp [entryOf, isPresent]

theorem entryOf_of_absent
    {word : Word}
    (absent : word.present = false) :
    entryOf word = none := by
  simp [entryOf, absent]

theorem entryOf_eq_none
    {word : Word} :
    entryOf word = none ↔ word.present = false := by
  unfold entryOf
  split <;> simp_all

theorem tableOf_of_present
    {memory : Memory}
    {dir : Nat}
    (isPresent : (memory.ram 0 dir).present = true) :
    memory.tableOf dir = some (memory.ram 0 dir).frame := by
  simp [tableOf, entryOf_of_present isPresent]

theorem tableOf_of_absent
    {memory : Memory}
    {dir : Nat}
    (absent : (memory.ram 0 dir).present = false) :
    memory.tableOf dir = none := by
  simp [tableOf, entryOf_of_absent absent]

theorem entryAt_of_table
    {memory : Memory}
    {dir table : Nat}
    (pointsTo : memory.tableOf dir = some table)
    (index : Nat) :
    memory.entryAt (dir, index) = entryOf (memory.ram table index) := by
  simp [entryAt, pointsTo]

theorem entryAt_of_no_table
    {memory : Memory}
    {dir index : Nat}
    (absent : memory.tableOf dir = none) :
    memory.entryAt (dir, index) = none := by
  simp [entryAt, absent]

theorem entryAt_present
    {memory : Memory}
    {slot : Nat × Nat} {entry : Word}
    (mapped : memory.entryAt slot = some entry) :
    entry.present = true := by
  unfold entryAt at mapped
  cases pointsTo : memory.tableOf slot.1 with
  | none =>
    simp [pointsTo] at mapped
  | some table =>
    simp only [pointsTo, Option.bind_some] at mapped
    obtain ⟨isPresent, same⟩ := entryOf_eq_some.mp mapped
    rwa [same] at isPresent

theorem frameAt_of_entry
    {memory : Memory}
    {slot : Nat × Nat} {entry : Word}
    (mapped : memory.entryAt slot = some entry) :
    memory.frameAt slot = some entry.frame := by
  simp [frameAt, mapped]

theorem frameAt_eq_some
    {memory : Memory}
    {slot : Nat × Nat} {page : Nat} :
    memory.frameAt slot = some page ↔
      ∃ entry, memory.entryAt slot = some entry ∧
        entry.frame = page := by
  simp [frameAt]

theorem placeAt_of_entry
    {memory : Memory}
    {slot : Nat × Nat} {entry : Word}
    (mapped : memory.entryAt slot = some entry) :
    memory.placeAt slot = some (entry.frame, entry.dirty) := by
  simp [placeAt, mapped]

theorem placeAt_congr
    {memory after : Memory}
    {slot : Nat × Nat}
    (same : after.entryAt slot = memory.entryAt slot) :
    after.placeAt slot = memory.placeAt slot := by
  unfold placeAt
  rw [same]

theorem frameAt_eq_place
    (memory : Memory)
    (slot : Nat × Nat) :
    memory.frameAt slot = (memory.placeAt slot).map Prod.fst := by
  unfold frameAt placeAt
  rw [Option.map_map]
  rfl

@[simp] theorem mem_userDirs
    {dir : Nat} :
    dir ∈ userDirs ↔ 16 ≤ dir ∧ dir < 1024 := by
  simp [userDirs]

@[simp] theorem mem_userEntries
    {dir index : Nat} :
    (dir, index) ∈ userEntries ↔
      (16 ≤ dir ∧ dir < 1024) ∧ index < 1024 := by
  simp [userEntries]

/-- A page of the kernel, one that some task maps, or one the kernel holds. -/
def Kept (held : Nat → Nat) (memory : Memory) (page : Nat) : Prop :=
  page < lowMemPage ∨ 0 < memory.entryRefs page ∨ 0 < held page

/-- The contents of all these pages but the page directory are the same. -/
def KeepsData
    (held : Nat → Nat)
    (memory after : Memory) : Prop :=
  ∀ page, page ≠ 0 → Kept held memory page → after.ram page = memory.ram page

theorem kept_of_maps
    {held : Nat → Nat} {memory : Memory} {slot : Nat × Nat} {page : Nat}
    (member : slot ∈ userEntries)
    (maps : memory.frameAt slot = some page) :
    Kept held memory page :=
  Or.inr (Or.inl (occurrences_pos member maps))

/-- A page of main memory, which `mem_init` hands to the allocator. -/
def InMain (low high page : Nat) : Prop :=
  low ≤ page ∧ page < high

instance (low high page : Nat) : Decidable (InMain low high page) :=
  inferInstanceAs (Decidable (low ≤ page ∧ page < high))

/--
The accounting invariant, for main memory between the page numbers `low` and
`high`, where `held page` is the number of references the kernel keeps.
-/
structure Accounted
    (low high : Nat)
    (held : Nat → Nat)
    (memory : Memory) : Prop where
  lowBound :
    lowMemPage ≤ low
  highBound :
    high ≤ lowMemPage + pagingPages
  highMemory :
    memory.highMemory = high * 4096
  exact :
    ∀ page, InMain low high page →
      (memory.memMap (page - lowMemPage)).toNat =
        memory.entryRefs page + memory.tableRefs page + held page
  reserved :
    ∀ index, index < pagingPages →
      ¬ InMain low high (index + lowMemPage) →
      memory.memMap index = used
  tableMain :
    ∀ dir ∈ userDirs, ∀ table,
      memory.tableOf dir = some table →
      InMain low high table
  tableSingle :
    ∀ dir ∈ userDirs, ∀ table,
      memory.tableOf dir = some table →
      memory.memMap (table - lowMemPage) = 1#8
  entryMain :
    ∀ slot ∈ userEntries, ∀ page,
      memory.frameAt slot = some page →
      page < lowMemPage ∨ InMain low high page
  aligned :
    ∀ first ∈ userEntries, ∀ second ∈ userEntries, ∀ page,
      memory.frameAt first = some page →
      memory.frameAt second = some page →
      lowMemPage ≤ page →
      first.1 % 16 = second.1 % 16 ∧ first.2 = second.2
  heldMain :
    ∀ page, 0 < held page → InMain low high page
  heldSingle :
    ∀ page, 0 < held page → memory.memMap (page - lowMemPage) = 1#8
  writableSingle :
    ∀ slot ∈ userEntries, ∀ entry,
      memory.entryAt slot = some entry →
      entry.writable = true →
      lowMemPage ≤ entry.frame ∧ memory.memMap (entry.frame - lowMemPage) = 1#8
  kernelDir :
    memory.ram 0 0 = Word.userEntry 1
  kernelEntries :
    ∀ index, index < 0xA0 → memory.ram 1 index = Word.userEntry index

namespace Accounted

variable {low high : Nat} {held : Nat → Nat} {memory : Memory}

theorem above_low
    (accounted : Accounted low high held memory)
    {page : Nat}
    (inMain : InMain low high page) :
    lowMemPage ≤ page :=
  Nat.le_trans accounted.lowBound inMain.1

/-- A page in main memory whose count is one has exactly one reference. -/
theorem refs_eq_one
    (accounted : Accounted low high held memory)
    {page : Nat}
    (inMain : InMain low high page)
    (single : memory.memMap (page - lowMemPage) = 1#8) :
    memory.entryRefs page + memory.tableRefs page + held page = 1 := by
  have exact := accounted.exact page inMain
  rw [single] at exact
  simpa using exact.symm

/-- A page table has no reference but that of its directory entry. -/
theorem table_refs
    (accounted : Accounted low high held memory)
    {dir table : Nat}
    (member : dir ∈ userDirs)
    (pointsTo : memory.tableOf dir = some table) :
    memory.entryRefs table = 0 ∧ memory.tableRefs table = 1 ∧
      held table = 0 := by
  have one :=
    accounted.refs_eq_one
      (accounted.tableMain dir member table pointsTo)
      (accounted.tableSingle dir member table pointsTo)
  have counted : 0 < memory.tableRefs table :=
    occurrences_pos member pointsTo
  omega

/-- Two directory entries do not share a page table. -/
theorem table_injective
    (accounted : Accounted low high held memory)
    {first second table : Nat}
    (firstMember : first ∈ userDirs)
    (secondMember : second ∈ userDirs)
    (firstTable : memory.tableOf first = some table)
    (secondTable : memory.tableOf second = some table) :
    first = second := by
  by_contra different
  have twice :
      1 < memory.tableRefs table :=
    one_lt_occurrences firstMember secondMember different
      firstTable secondTable
  have once := (accounted.table_refs firstMember firstTable).2.1
  omega

/-- A page table is not mapped into any task. -/
theorem frameAt_ne_table
    (accounted : Accounted low high held memory)
    {dir table : Nat}
    {slot : Nat × Nat}
    (member : dir ∈ userDirs)
    (pointsTo : memory.tableOf dir = some table)
    (slotMember : slot ∈ userEntries) :
    memory.frameAt slot ≠ some table :=
  occurrences_eq_zero_iff.mp
    (accounted.table_refs member pointsTo).1 slot slotMember

/-- A page that the kernel holds has no other reference. -/
theorem held_refs
    (accounted : Accounted low high held memory)
    {page : Nat}
    (isHeld : 0 < held page) :
    memory.entryRefs page = 0 ∧ memory.tableRefs page = 0 ∧
      held page = 1 := by
  have one :=
    accounted.refs_eq_one
      (accounted.heldMain page isHeld)
      (accounted.heldSingle page isHeld)
  omega

/-- The count of a mapped page of main memory is its number of entries. -/
theorem mapped_refs
    (accounted : Accounted low high held memory)
    {slot : Nat × Nat} {page : Nat}
    (member : slot ∈ userEntries)
    (mapped : memory.frameAt slot = some page) :
    memory.tableRefs page = 0 ∧ held page = 0 := by
  constructor
  · rw [tableRefs, occurrences_eq_zero_iff]
    intro dir dirMember pointsTo
    exact accounted.frameAt_ne_table dirMember pointsTo member mapped
  · by_contra isHeld
    have unmapped :=
      (accounted.held_refs (Nat.pos_of_ne_zero isHeld)).1
    exact occurrences_eq_zero_iff.mp unmapped slot member mapped

/--
At most one entry of each of the 63 slots maps a page above 1 MB, so its count
stays far below 256.
-/
theorem entryRefs_le
    (accounted : Accounted low high held memory)
    {page : Nat}
    (aboveLow : lowMemPage ≤ page) :
    memory.entryRefs page ≤ 63 := by
  apply occurrences_le_of_injective_key fun slot => slot.1 / 16 - 1
  · rintro ⟨dir, index⟩ member _
    rw [mem_userEntries] at member
    omega
  · rintro ⟨firstDir, firstIndex⟩ firstMember
      ⟨secondDir, secondIndex⟩ secondMember firstMaps secondMaps sameKey
    have offsets :=
      accounted.aligned _ firstMember _ secondMember page
        firstMaps secondMaps aboveLow
    rw [mem_userEntries] at firstMember secondMember
    simp only at offsets sameKey
    have sameDir : firstDir = secondDir := by
      omega
    rw [sameDir, offsets.2]

/-- Adding one reference to a mapped page does not wrap its counter. -/
theorem count_add_one
    (accounted : Accounted low high held memory)
    {slot : Nat × Nat} {page : Nat}
    (member : slot ∈ userEntries)
    (mapped : memory.frameAt slot = some page)
    (inMain : InMain low high page) :
    (memory.memMap (page - lowMemPage) + 1#8).toNat =
      (memory.memMap (page - lowMemPage)).toNat + 1 := by
  have exact := accounted.exact page inMain
  have others := accounted.mapped_refs member mapped
  have bound := accounted.entryRefs_le (accounted.above_low inMain)
  rw [BitVec.toNat_add]
  simp only [BitVec.toNat_ofNat]
  omega

/-- Dropping a reference of a referenced page does not wrap its counter. -/
theorem count_sub_one
    {count : Byte}
    (referenced : count ≠ 0#8) :
    (count - 1#8).toNat + 1 = count.toNat := by
  have positive : count.toNat ≠ 0 := by
    intro zero
    exact referenced (BitVec.eq_of_toNat_eq zero)
  have bound := count.isLt
  rw [BitVec.toNat_sub]
  simp only [BitVec.toNat_ofNat]
  omega

/-- The counter of a mapped page of main memory is not zero. -/
theorem count_ne_zero
    (accounted : Accounted low high held memory)
    {slot : Nat × Nat} {page : Nat}
    (member : slot ∈ userEntries)
    (mapped : memory.frameAt slot = some page)
    (inMain : InMain low high page) :
    memory.memMap (page - lowMemPage) ≠ 0#8 := by
  intro zero
  have exact := accounted.exact page inMain
  have counted : 0 < memory.entryRefs page :=
    occurrences_pos member mapped
  rw [zero] at exact
  simp only [BitVec.toNat_ofNat] at exact
  omega

/-- A page table lies above the directory and the kernel's tables. -/
theorem table_ne_of_lt
    (accounted : Accounted low high held memory)
    {dir table page : Nat}
    (member : dir ∈ userDirs)
    (pointsTo : memory.tableOf dir = some table)
    (below : page < lowMemPage) :
    page ≠ table := by
  have aboveLow :=
    accounted.above_low (accounted.tableMain dir member table pointsTo)
  omega

end Accounted

end Memory

end HitOs
