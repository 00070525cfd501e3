import HitOs.PageAccounting

namespace HitOs

/-!
# Elementary transfers of page references

Every routine of the memory manager is a sequence of elementary updates: one
entry or one directory entry changes, and the byte counters and the kernel's
own references change with it.  `Accounted.transfer` is the one place where the
counting equation is rebalanced.  The lemmas after it say how a store to
physical memory shows in the tables of the tasks.
-/

namespace Memory

/-! ## How a store shows in the tables -/

section Stores

variable {memory : Memory}

@[simp] theorem ram_setMap
    (index : Nat)
    (count : Byte) :
    (setMap index count memory).ram = memory.ram :=
  rfl

@[simp] theorem highMemory_setMap
    (index : Nat)
    (count : Byte) :
    (setMap index count memory).highMemory = memory.highMemory :=
  rfl

@[simp] theorem memMap_store
    (page index : Nat)
    (word : Word) :
    (store page index word memory).memMap = memory.memMap :=
  rfl

@[simp] theorem highMemory_store
    (page index : Nat)
    (word : Word) :
    (store page index word memory).highMemory = memory.highMemory :=
  rfl

theorem memMap_setMap
    (index other : Nat)
    (count : Byte) :
    (setMap index count memory).memMap other =
      if other = index then count else memory.memMap other := by
  unfold setMap
  simp only [Function.update_apply]

theorem ram_store
    (page index other position : Nat)
    (word : Word) :
    (store page index word memory).ram other position =
      if other = page ∧ position = index then word
      else memory.ram other position := by
  unfold store
  by_cases samePage : other = page
  · subst samePage
    by_cases sameIndex : position = index
    · subst sameIndex
      simp
    · simp [sameIndex]
  · simp [samePage]

theorem ram_store_of_ne
    {page index other : Nat}
    {word : Word}
    (different : other ≠ page) :
    (store page index word memory).ram other = memory.ram other := by
  unfold store
  simp [different]

theorem ram_storePage
    (page other : Nat)
    (contents : Page) :
    (storePage page contents memory).ram other =
      if other = page then contents else memory.ram other := by
  unfold storePage
  simp only [Function.update_apply]

theorem tableOf_congr
    {memory' : Memory}
    {dir : Nat}
    (same : memory'.ram 0 dir = memory.ram 0 dir) :
    memory'.tableOf dir = memory.tableOf dir := by
  unfold tableOf
  rw [same]

theorem entryAt_congr
    {memory' : Memory}
    {slot : Nat × Nat}
    (sameTable : memory'.tableOf slot.1 = memory.tableOf slot.1)
    (sameWord :
      ∀ table, memory.tableOf slot.1 = some table →
        memory'.ram table slot.2 = memory.ram table slot.2) :
    memory'.entryAt slot = memory.entryAt slot := by
  unfold entryAt
  rw [sameTable]
  cases pointsTo : memory.tableOf slot.1 with
  | none =>
    rfl
  | some table =>
    simp only [Option.bind_some]
    rw [sameWord table pointsTo]

theorem frameAt_congr
    {memory' : Memory}
    {slot : Nat × Nat}
    (same : memory'.entryAt slot = memory.entryAt slot) :
    memory'.frameAt slot = memory.frameAt slot := by
  unfold frameAt
  rw [same]

/-- The counters after a mapped page has lost one reference. -/
def uncounted (memory : Memory) (page : Nat) : Memory :=
  if lowMemPage ≤ page then
    setMap (page - lowMemPage)
      (memory.memMap (page - lowMemPage) - 1#8) memory
  else
    memory

@[simp] theorem ram_uncounted
    (page : Nat) :
    (uncounted memory page).ram = memory.ram := by
  unfold uncounted
  split <;> rfl

@[simp] theorem highMemory_uncounted
    (page : Nat) :
    (uncounted memory page).highMemory = memory.highMemory := by
  unfold uncounted
  split <;> rfl

end Stores

namespace Accounted

variable {low high : Nat} {held held' : Nat → Nat}
variable {memory memory' : Memory}

/--
The transfer rule.  At most one entry and one directory entry change, and for
every page the counter balances the references that come and go.
-/
theorem transfer
    (accounted : Accounted low high held memory)
    {slot : Nat × Nat} {dir : Nat}
    (slotMember : slot ∈ userEntries)
    (dirMember : dir ∈ userDirs)
    (entries :
      ∀ other ∈ userEntries, other ≠ slot →
        memory'.entryAt other = memory.entryAt other)
    (tables :
      ∀ other ∈ userDirs, other ≠ dir → memory'.tableOf other = memory.tableOf other)
    (highMemory : memory'.highMemory = memory.highMemory)
    (reserved :
      ∀ index, ¬ InMain low high (index + lowMemPage) →
        memory'.memMap index = memory.memMap index)
    (balance :
      ∀ page, InMain low high page →
        (memory'.memMap (page - lowMemPage)).toNat +
            refersTo (memory.frameAt slot) page +
            refersTo (memory.tableOf dir) page + held page =
          (memory.memMap (page - lowMemPage)).toNat +
            refersTo (memory'.frameAt slot) page +
            refersTo (memory'.tableOf dir) page + held' page)
    (newTable :
      ∀ table, memory'.tableOf dir = some table → InMain low high table)
    (singles :
      ∀ other ∈ userDirs, ∀ table,
        memory'.tableOf other = some table →
        memory'.memMap (table - lowMemPage) = 1#8)
    (newEntry :
      ∀ page, memory'.frameAt slot = some page →
        page < lowMemPage ∨ InMain low high page)
    (newAligned :
      ∀ page, memory'.frameAt slot = some page → lowMemPage ≤ page →
        ∀ other ∈ userEntries, other ≠ slot →
          memory.frameAt other = some page →
          other.1 % 16 = slot.1 % 16 ∧ other.2 = slot.2)
    (heldMain : ∀ page, 0 < held' page → InMain low high page)
    (heldSingle :
      ∀ page, 0 < held' page → memory'.memMap (page - lowMemPage) = 1#8)
    (writable :
      ∀ other ∈ userEntries, ∀ entry,
        memory'.entryAt other = some entry →
        entry.writable = true →
        lowMemPage ≤ entry.frame ∧ memory'.memMap (entry.frame - lowMemPage) = 1#8)
    (kernelDir : memory'.ram 0 0 = memory.ram 0 0)
    (kernelEntries :
      ∀ index, index < 0xA0 → memory'.ram 1 index = memory.ram 1 index) :
    Accounted low high held' memory' := by
  have frames :
      ∀ other ∈ userEntries, other ≠ slot →
        memory'.frameAt other = memory.frameAt other := by
    intro other member different
    exact frameAt_congr (entries other member different)
  constructor
  case lowBound =>
    exact accounted.lowBound
  case highBound =>
    exact accounted.highBound
  case highMemory =>
    rw [highMemory]
    exact accounted.highMemory
  case exact =>
    intro page inMain
    have before := accounted.exact page inMain
    have moved := balance page inMain
    have entryMoved :=
      occurrences_change slotMember frames page
    have tableMoved :=
      occurrences_change dirMember tables page
    unfold entryRefs tableRefs at before ⊢
    omega
  case reserved =>
    intro index inRange outside
    rw [reserved index outside]
    exact accounted.reserved index inRange outside
  case tableMain =>
    intro other member table pointsTo
    by_cases same : other = dir
    · subst same
      exact newTable table pointsTo
    · rw [tables other member same] at pointsTo
      exact accounted.tableMain other member table pointsTo
  case tableSingle =>
    exact singles
  case entryMain =>
    intro other member page mapped
    by_cases same : other = slot
    · subst same
      exact newEntry page mapped
    · rw [frames other member same] at mapped
      exact accounted.entryMain other member page mapped
  case aligned =>
    intro first firstMember second secondMember page
      firstMaps secondMaps aboveLow
    by_cases firstSame : first = slot
    · subst firstSame
      by_cases secondSame : second = first
      · subst secondSame
        exact ⟨rfl, rfl⟩
      · rw [frames second secondMember secondSame] at secondMaps
        have offsets :=
          newAligned page firstMaps aboveLow second secondMember
            secondSame secondMaps
        exact ⟨offsets.1.symm, offsets.2.symm⟩
    · rw [frames first firstMember firstSame] at firstMaps
      by_cases secondSame : second = slot
      · subst secondSame
        exact newAligned page secondMaps aboveLow first firstMember
          firstSame firstMaps
      · rw [frames second secondMember secondSame] at secondMaps
        exact accounted.aligned first firstMember second secondMember
          page firstMaps secondMaps aboveLow
  case heldMain =>
    exact heldMain
  case heldSingle =>
    exact heldSingle
  case writableSingle =>
    exact writable
  case kernelDir =>
    rw [kernelDir]
    exact accounted.kernelDir
  case kernelEntries =>
    intro index inRange
    rw [kernelEntries index inRange]
    exact accounted.kernelEntries index inRange

/-! ## Stores to a page table -/

section EntryStore

variable {dir index table : Nat} {word : Word}

theorem table_ne_zero
    (accounted : Accounted low high held memory)
    (member : dir ∈ userDirs)
    (pointsTo : memory.tableOf dir = some table) :
    table ≠ 0 := by
  have zeroNe : 0 ≠ table :=
    accounted.table_ne_of_lt member pointsTo (by decide)
  exact zeroNe.symm

/-- A store to a task's page table leaves the directory alone. -/
theorem tableOf_store
    (accounted : Accounted low high held memory)
    (member : dir ∈ userDirs)
    (pointsTo : memory.tableOf dir = some table)
    (ram : memory'.ram = (store table index word memory).ram)
    (other : Nat) :
    memory'.tableOf other = memory.tableOf other := by
  apply tableOf_congr
  rw [ram, ram_store_of_ne]
  exact (accounted.table_ne_zero member pointsTo).symm

/-- A store to a task's page table changes the one entry stored to. -/
theorem entryAt_store
    (accounted : Accounted low high held memory)
    (member : dir ∈ userDirs)
    (pointsTo : memory.tableOf dir = some table)
    (ram : memory'.ram = (store table index word memory).ram)
    {slot : Nat × Nat}
    (slotMember : slot ∈ userEntries)
    (different : slot ≠ (dir, index)) :
    memory'.entryAt slot = memory.entryAt slot := by
  have sameTable :=
    accounted.tableOf_store member pointsTo ram slot.1
  apply entryAt_congr sameTable
  intro slotTable slotPointsTo
  rw [ram, ram_store]
  rw [if_neg]
  rintro ⟨samePage, sameIndex⟩
  subst samePage
  obtain ⟨slotDir, slotIndex⟩ := slot
  have slotDirMember : slotDir ∈ userDirs := by
    rw [mem_userEntries] at slotMember
    exact mem_userDirs.mpr slotMember.1
  have sameDir :=
    accounted.table_injective slotDirMember member
      slotPointsTo pointsTo
  exact different (Prod.ext sameDir sameIndex)

/-- The stored entry reads back. -/
theorem entryAt_store_self
    (accounted : Accounted low high held memory)
    (member : dir ∈ userDirs)
    (pointsTo : memory.tableOf dir = some table)
    (ram : memory'.ram = (store table index word memory).ram) :
    memory'.entryAt (dir, index) = entryOf word := by
  have sameTable :=
    accounted.tableOf_store member pointsTo ram dir
  rw [entryAt_of_table (sameTable.trans pointsTo), ram, ram_store]
  simp

/-- A store to a task's page table leaves the kernel's own tables alone. -/
theorem ram_store_low
    (accounted : Accounted low high held memory)
    (member : dir ∈ userDirs)
    (pointsTo : memory.tableOf dir = some table)
    (ram : memory'.ram = (store table index word memory).ram)
    {page : Nat}
    (below : page < lowMemPage) :
    memory'.ram page = memory.ram page := by
  rw [ram, ram_store_of_ne]
  exact accounted.table_ne_of_lt member pointsTo below

end EntryStore

/--
Changing one entry.  `transfer`, with the facts about the tables discharged.
-/
theorem setEntry
    (accounted : Accounted low high held memory)
    {dir index table : Nat} {word : Word}
    (slotMember : (dir, index) ∈ userEntries)
    (pointsTo : memory.tableOf dir = some table)
    (ram : memory'.ram = (store table index word memory).ram)
    (highMemory : memory'.highMemory = memory.highMemory)
    (reserved :
      ∀ position, ¬ InMain low high (position + lowMemPage) →
        memory'.memMap position = memory.memMap position)
    (balance :
      ∀ page, InMain low high page →
        (memory'.memMap (page - lowMemPage)).toNat +
            refersTo (memory.frameAt (dir, index)) page + held page =
          (memory.memMap (page - lowMemPage)).toNat +
            refersTo ((entryOf word).map Word.frame) page +
            held' page)
    (tableCounts :
      ∀ other ∈ userDirs, ∀ otherTable,
        memory.tableOf other = some otherTable →
        memory'.memMap (otherTable - lowMemPage) = 1#8)
    (newEntry :
      word.present = true → word.frame < lowMemPage ∨ InMain low high word.frame)
    (newAligned :
      word.present = true → lowMemPage ≤ word.frame →
        ∀ other ∈ userEntries, other ≠ (dir, index) →
          memory.frameAt other = some word.frame →
          other.1 % 16 = dir % 16 ∧ other.2 = index)
    (heldMain : ∀ page, 0 < held' page → InMain low high page)
    (heldSingle :
      ∀ page, 0 < held' page → memory'.memMap (page - lowMemPage) = 1#8)
    (newWritable :
      word.present = true → word.writable = true →
        lowMemPage ≤ word.frame ∧ memory'.memMap (word.frame - lowMemPage) = 1#8)
    (oldWritable :
      ∀ other ∈ userEntries, other ≠ (dir, index) → ∀ entry,
        memory.entryAt other = some entry →
        entry.writable = true →
        memory'.memMap (entry.frame - lowMemPage) = 1#8) :
    Accounted low high held' memory' := by
  have dirMember : dir ∈ userDirs := by
    rw [mem_userEntries] at slotMember
    exact mem_userDirs.mpr slotMember.1
  have tables := accounted.tableOf_store dirMember pointsTo ram
  have self := accounted.entryAt_store_self dirMember pointsTo ram
  have others :
      ∀ other ∈ userEntries, other ≠ (dir, index) →
        memory'.entryAt other = memory.entryAt other :=
    fun other member different =>
      accounted.entryAt_store dirMember pointsTo ram member different
  have newFrame :
      ∀ page, memory'.frameAt (dir, index) = some page →
        word.present = true ∧ word.frame = page := by
    intro page mapped
    obtain ⟨entry, entryShape, frameShape⟩ :=
      frameAt_eq_some.mp mapped
    rw [self] at entryShape
    obtain ⟨isPresent, same⟩ := entryOf_eq_some.mp entryShape
    subst same
    exact ⟨isPresent, frameShape⟩
  apply accounted.transfer slotMember dirMember others
    (fun other _ _ => tables other) highMemory reserved
  case balance =>
    intro page inMain
    have balanced := balance page inMain
    have newTarget :
        memory'.frameAt (dir, index) =
          (entryOf word).map Word.frame := by
      rw [frameAt, self]
    rw [newTarget, tables dir]
    omega
  case newTable =>
    intro newTable points
    rw [tables dir] at points
    exact accounted.tableMain dir dirMember newTable points
  case singles =>
    intro other member otherTable points
    rw [tables other] at points
    exact tableCounts other member otherTable points
  case newEntry =>
    intro page mapped
    obtain ⟨isPresent, rfl⟩ := newFrame page mapped
    exact newEntry isPresent
  case newAligned =>
    intro page mapped aboveLow other member different otherMaps
    obtain ⟨isPresent, rfl⟩ := newFrame page mapped
    exact newAligned isPresent aboveLow other member different
      otherMaps
  case heldMain =>
    exact heldMain
  case heldSingle =>
    exact heldSingle
  case writable =>
    intro other member entry entryShape isWritable
    by_cases same : other = (dir, index)
    · subst same
      rw [self] at entryShape
      obtain ⟨isPresent, rfl⟩ := entryOf_eq_some.mp entryShape
      exact newWritable isPresent isWritable
    · rw [others other member same] at entryShape
      exact ⟨(accounted.writableSingle other member entry
          entryShape isWritable).1,
        oldWritable other member same entry entryShape isWritable⟩
  case kernelDir =>
    rw [accounted.ram_store_low dirMember pointsTo ram (by decide)]
  case kernelEntries =>
    intro kernelIndex _
    rw [accounted.ram_store_low dirMember pointsTo ram (by decide)]

end Accounted

end Memory

end HitOs
