import HitOs.PageSteps

namespace HitOs

/-!
# What the routines of the memory manager do

Specifications of `get_free_page`, `free_page` and `free_page_tables`: from an
accounted state they do not panic, the state they leave is accounted again, and
their effect on the page tables of the tasks and on the contents of the pages
is the stated one.  Later modules use these specifications and do not unfold
the routines.
-/

namespace Memory

open Routine

variable {low high : Nat} {held : Nat → Nat} {memory : Memory}
variable {abandoned : Memory → Prop}

/-! ## Allocation -/

theorem scanMemMap_eq_some
    {memMap : Nat → Byte} {count index : Nat}
    (found : scanMemMap memMap count = some index) :
    index < count ∧ memMap index = 0#8 := by
  induction count with
  | zero =>
    simp [scanMemMap] at found
  | succ count inductionHypothesis =>
    unfold scanMemMap at found
    split at found
    · rename_i free
      rw [Option.some.injEq] at found
      subst found
      exact ⟨Nat.lt_succ_self count, free⟩
    · have rest := inductionHypothesis found
      exact ⟨Nat.lt_succ_of_lt rest.1, rest.2⟩

theorem scanMemMap_eq_none
    {memMap : Nat → Byte} {count index : Nat}
    (notFound : scanMemMap memMap count = none)
    (below : index < count) :
    memMap index ≠ 0#8 := by
  induction count with
  | zero =>
    omega
  | succ count inductionHypothesis =>
    unfold scanMemMap at notFound
    split at notFound
    · cases notFound
    · rename_i occupied
      by_cases last : index = count
      · rw [last]
        exact occupied
      · exact inductionHypothesis notFound (by omega)

/-- The state in which `get_free_page` hands out a page. -/
def taken (page : Nat) (memory : Memory) : Memory :=
  storePage page (fun _ => 0#32)
    (setMap (page - lowMemPage) 1#8 memory)

/--
`get_free_page` returns 0 and changes nothing when every page of main memory
is in use, and otherwise hands out a cleared page that was free.
-/
theorem satisfies_getFreePage
    (accounted : Accounted low high held memory) :
    Satisfies getFreePage memory
      (fun page after =>
        (page = 0 ∧ after = memory ∧
            ∀ other, InMain low high other → memory.memMap (other - lowMemPage) ≠ 0#8) ∨
          (InMain low high page ∧
            memory.memMap (page - lowMemPage) = 0#8 ∧
            after = taken page memory))
      abandoned := by
  unfold getFreePage
  rw [satisfies_bind, satisfies_read]
  cases found : scanMemMap memory.memMap pagingPages with
  | none =>
    refine Or.inl ⟨rfl, rfl, ?_⟩
    intro other inMain
    have bound := accounted.highBound
    have below := inMain.2
    apply scanMemMap_eq_none found
    unfold pagingPages at bound ⊢
    omega
  | some index =>
    obtain ⟨inRange, free⟩ := scanMemMap_eq_some found
    refine Or.inr ⟨?_, ?_, ?_⟩
    · by_contra outside
      have reservedIndex :=
        accounted.reserved index inRange outside
      rw [free] at reservedIndex
      exact absurd reservedIndex (by decide)
    · rw [Nat.add_sub_cancel]
      exact free
    · unfold taken
      rw [Nat.add_sub_cancel]

namespace Accounted

section Taken

variable {page : Nat}

theorem taken_accounted
    (accounted : Accounted low high held memory)
    (inMain : InMain low high page)
    (free : memory.memMap (page - lowMemPage) = 0#8) :
    Accounted low high (Function.update held page 1)
      (taken page memory) :=
  accounted.take inMain free

theorem tableOf_taken
    (accounted : Accounted low high held memory)
    (inMain : InMain low high page)
    (dir : Nat) :
    (taken page memory).tableOf dir = memory.tableOf dir := by
  unfold taken
  rw [tableOf_storePage (accounted.above_low inMain)]
  rfl

theorem entryAt_taken
    (accounted : Accounted low high held memory)
    (inMain : InMain low high page)
    (free : memory.memMap (page - lowMemPage) = 0#8)
    {slot : Nat × Nat}
    (member : slot ∈ userEntries) :
    (taken page memory).entryAt slot = memory.entryAt slot := by
  have unlinked :
      (setMap (page - lowMemPage) 1#8 memory).tableRefs page = 0 :=
    (accounted.free_refs inMain free).2.1
  exact entryAt_storePage (accounted.above_low inMain) unlinked member

theorem ram_taken
    (other : Nat) :
    (taken page memory).ram other =
      if other = page then fun _ => 0#32 else memory.ram other := by
  unfold taken
  rw [ram_storePage, ram_setMap]

theorem ne_zero_of_main
    (accounted : Accounted low high held memory)
    (inMain : InMain low high page) :
    page ≠ 0 := by
  have aboveLow := accounted.above_low inMain
  unfold lowMemPage at aboveLow
  omega

end Taken

end Accounted

/-- `free_page` drops one reference of a referenced page. -/
theorem satisfies_freePage
    (accounted : Accounted low high held memory)
    {page : Nat}
    (referenced :
      page < lowMemPage ∨
        InMain low high page ∧ memory.memMap (page - lowMemPage) ≠ 0#8) :
    Satisfies (freePage page) memory
      (fun _ after => after = uncounted memory page)
      abandoned := by
  unfold freePage uncounted
  rcases referenced with below | ⟨inMain, nonzero⟩
  · rw [if_pos below, if_neg (by omega)]
    rfl
  · have aboveLow := accounted.above_low inMain
    have existing : ¬ memory.highMemory ≤ page * 4096 := by
      rw [accounted.highMemory]
      have below := inMain.2
      omega
    rw [if_neg (by omega), satisfies_bind, satisfies_read,
      if_neg existing, if_pos nonzero, if_pos aboveLow]
    rfl

/-! ## Task 0's own entries -/

namespace Accounted

/-- Task 0's first page table is the kernel's. -/
theorem kernelTable
    (accounted : Accounted low high held memory) :
    memory.tableOf 0 = some 1 := by
  have isPresent : (memory.ram 0 0).present = true := by
    rw [accounted.kernelDir]
    exact Word.present_userEntry 1
  rw [tableOf_of_present isPresent, accounted.kernelDir,
    Word.frame_userEntry (by decide)]

/-- The 160 entries that the first fork copies map the pages of the same number. -/
theorem kernelEntry
    (accounted : Accounted low high held memory)
    {index : Nat}
    (inRange : index < 0xA0) :
    memory.entryAt (0, index) = some (Word.userEntry index) := by
  rw [entryAt_of_table accounted.kernelTable, accounted.kernelEntries index inRange]
  exact entryOf_of_present (Word.present_userEntry index)

/-- The entries of task 0 depend on the directory's first word and on page 1. -/
theorem kernelRow_congr
    (accounted : Accounted low high held memory)
    {memory' : Memory} {other : Nat}
    (sameDir : memory'.ram 0 0 = memory.ram 0 0)
    (sameTable : memory'.ram 1 = memory.ram 1) :
    memory'.entryAt (0, other) = memory.entryAt (0, other) := by
  apply entryAt_congr (tableOf_congr sameDir)
  intro kernelPage points
  rw [accounted.kernelTable] at points
  cases points
  rw [sameTable]

/-- A store to a task's page table changes no entry of task 0. -/
theorem kernelRow_store
    (accounted : Accounted low high held memory)
    {memory' : Memory} {dir table index other : Nat} {word : Word}
    (dirMember : dir ∈ userDirs)
    (pointsTo : memory.tableOf dir = some table)
    (ram : memory'.ram = (store table index word memory).ram) :
    memory'.entryAt (0, other) = memory.entryAt (0, other) := by
  apply accounted.kernelRow_congr
  · rw [accounted.ram_store_low dirMember pointsTo ram (by decide)]
  · exact accounted.ram_store_low dirMember pointsTo ram (by decide)

end Accounted

/-- A row of entries that `copy_page_tables` reads at the given index. -/
def Copyable (dir index : Nat) : Prop :=
  (dir, index) ∈ userEntries ∨ dir = 0 ∧ index < 0xA0

/-! ## Linking a page table -/

namespace Accounted

/-- Taking a page and giving the reference away again leaves `held` as it was. -/
theorem held_restored
    {page : Nat}
    (notHeld : held page = 0) :
    Function.update (Function.update held page 1) page 0 = held := by
  rw [Function.update_idem, ← notHeld, Function.update_eq_self]

end Accounted

/-- A fresh page linked as the page table of an empty directory entry. -/
structure Linked
    (low high : Nat)
    (held : Nat → Nat)
    (dir page : Nat)
    (memory after : Memory) : Prop where
  accounted :
    Accounted low high held after
  table :
    after.tableOf dir = some page
  tables :
    ∀ other, other ≠ dir → after.tableOf other = memory.tableOf other
  entries :
    ∀ slot, Copyable slot.1 slot.2 → after.entryAt slot = memory.entryAt slot
  ram :
    ∀ other, other ≠ 0 → other ≠ page → after.ram other = memory.ram other

/-- Taking a page and linking it, as three routines do. -/
theorem linked_of_taken
    (accounted : Accounted low high held memory)
    {dir page : Nat}
    (dirMember : dir ∈ userDirs)
    (empty : memory.tableOf dir = none)
    (inMain : InMain low high page)
    (free : memory.memMap (page - lowMemPage) = 0#8) :
    Linked low high held dir page memory
      (store 0 dir (Word.userEntry page) (taken page memory)) := by
  have refs := accounted.free_refs inMain free
  have takenAccounted := accounted.taken_accounted inMain free
  have takenHeld : 0 < Function.update held page 1 page := by
    simp
  have cleared :
      ∀ index, index < 1024 →
        ((taken page memory).ram page index).present = false := by
    intro index _
    rw [Accounted.ram_taken, if_pos rfl]
    rfl
  have stillEmpty : (taken page memory).tableOf dir = none :=
    (accounted.tableOf_taken inMain dir).trans empty
  obtain ⟨linkedAccounted, table, entries⟩ :=
    takenAccounted.link dirMember stillEmpty takenHeld cleared
  rw [Accounted.held_restored refs.2.2] at linkedAccounted
  have notZero := accounted.ne_zero_of_main inMain
  have notKernel : 1 ≠ page := by
    have aboveLow := accounted.above_low inMain
    unfold lowMemPage at aboveLow
    omega
  refine ⟨linkedAccounted, table, ?_, ?_, ?_⟩
  · intro other different
    rw [Accounted.tableOf_store_dir different, accounted.tableOf_taken inMain]
  · rintro ⟨slotDir, slotIndex⟩ copyable
    rcases copyable with user | ⟨rfl, _⟩
    · exact (entries _ user).trans
        (accounted.entryAt_taken inMain free user)
    · apply accounted.kernelRow_congr
      · rw [ram_store, if_neg, Accounted.ram_taken,
          if_neg (Ne.symm notZero)]
        rintro ⟨_, zero⟩
        rw [mem_userDirs] at dirMember
        omega
      · rw [ram_store_of_ne (by decide), Accounted.ram_taken,
          if_neg notKernel]
  · intro other otherNotZero different
    rw [ram_store_of_ne otherNotZero, Accounted.ram_taken, if_neg different]

/-! ## Freeing page tables -/

/-- What freeing `size` directory entries from `first` has done. -/
structure Released
    (low high : Nat)
    (held : Nat → Nat)
    (first size : Nat)
    (memory after : Memory) : Prop where
  accounted :
    Accounted low high held after
  entries :
    ∀ slot ∈ userEntries,
      after.entryAt slot =
        if first ≤ slot.1 ∧ slot.1 < first + size then none
        else memory.entryAt slot
  tables :
    ∀ dir ∈ userDirs,
      after.tableOf dir =
        if first ≤ dir ∧ dir < first + size then none
        else memory.tableOf dir
  ram :
    ∀ page, page ≠ 0 →
      (∀ dir ∈ userDirs, memory.tableOf dir ≠ some page) →
      after.ram page = memory.ram page

/-- Inside the inner loop: the first `count` entries of `dir` are cleared. -/
structure Clearing
    (low high : Nat)
    (held : Nat → Nat)
    (dir table count : Nat)
    (memory after : Memory) : Prop where
  accounted :
    Accounted low high held after
  entries :
    ∀ slot ∈ userEntries,
      after.entryAt slot =
        if slot.1 = dir ∧ slot.2 < count then none
        else memory.entryAt slot
  tables :
    ∀ other, after.tableOf other = memory.tableOf other
  ram :
    ∀ page, page ≠ table → after.ram page = memory.ram page

theorem satisfies_freeEntry
    (accounted : Accounted low high held memory)
    {dir table index : Nat}
    (slotMember : (dir, index) ∈ userEntries)
    (pointsTo : memory.tableOf dir = some table) :
    Satisfies (freeEntry table index) memory
      (fun _ after =>
        Accounted low high held after ∧ after.ram = (store table index 0#32 memory).ram)
      abandoned := by
  unfold freeEntry
  rw [satisfies_bind, satisfies_read]
  cases isPresent : (memory.ram table index).present with
  | false =>
    have empty : memory.entryAt (dir, index) = none := by
      rw [entryAt_of_table pointsTo]
      exact entryOf_of_absent isPresent
    simp only [isPresent, Bool.false_eq_true, ↓reduceIte, satisfies_update]
    refine ⟨?_, trivial⟩
    apply accounted.setEntry slotMember pointsTo rfl rfl
      (fun _ _ => rfl)
    case balance =>
      intro page _
      rw [frameAt, empty, entryOf_of_absent Word.present_zero, memMap_store]
    case tableCounts =>
      exact accounted.tableSingle
    case heldMain =>
      exact accounted.heldMain
    case heldSingle =>
      exact accounted.heldSingle
    case oldWritable =>
      intro other member _ entry entryShape isWritable
      exact (accounted.writableSingle other member entry
        entryShape isWritable).2
    all_goals
      intro zeroPresent
      exact Bool.noConfusion zeroPresent
  | true =>
    have mapped :
        memory.entryAt (dir, index) =
          some (memory.ram table index) := by
      rw [entryAt_of_table pointsTo]
      exact entryOf_of_present isPresent
    have maps := frameAt_of_entry mapped
    have referenced :
        (memory.ram table index).frame < lowMemPage ∨
          InMain low high (memory.ram table index).frame ∧
            memory.memMap
              ((memory.ram table index).frame - lowMemPage) ≠ 0#8 := by
      rcases accounted.entryMain _ slotMember _ maps with
        below | inMain
      · exact Or.inl below
      · exact Or.inr ⟨inMain, accounted.count_ne_zero slotMember maps inMain⟩
    simp only [isPresent, ↓reduceIte]
    refine Satisfies.andThen
      (satisfies_freePage accounted referenced) ?_
    rintro _ freed rfl
    rw [satisfies_update]
    constructor
    · exact accounted.replace slotMember pointsTo mapped
        (Or.inl ⟨Word.present_zero, rfl⟩) rfl
    · unfold store
      simp

theorem satisfies_freeEntries
    (accounted : Accounted low high held memory)
    {dir table : Nat}
    (dirMember : dir ∈ userDirs)
    (pointsTo : memory.tableOf dir = some table) :
    Satisfies (forUp (freeEntry table) 1024 0) memory
      (fun _ after => Clearing low high held dir table 1024 memory after)
      abandoned := by
  have start : Clearing low high held dir table 0 memory memory := by
    refine ⟨accounted, ?_, fun _ => rfl, fun _ _ => rfl⟩
    intro slot _
    rw [if_neg]
    omega
  refine (satisfies_forUp
    (fun count s => Clearing low high held dir table count memory s)
    start ?_).mono ?_ (fun _ same => same)
  · intro index s _ upper clearing
    have inRange : index < 1024 := by
      omega
    have slotMember : (dir, index) ∈ userEntries := by
      rw [mem_userEntries]
      exact ⟨mem_userDirs.mp dirMember, inRange⟩
    have points := (clearing.tables dir).trans pointsTo
    refine (satisfies_freeEntry clearing.accounted slotMember
      points).mono ?_ (fun _ same => same)
    rintro _ after ⟨afterAccounted, ram⟩
    have self :=
      clearing.accounted.entryAt_store_self dirMember points ram
    refine ⟨afterAccounted, ?_, ?_, ?_⟩
    · intro slot member
      by_cases same : slot = (dir, index)
      · rw [same, self, if_pos ⟨rfl, Nat.lt_succ_self index⟩]
        rfl
      · rw [clearing.accounted.entryAt_store dirMember points ram
          member same, clearing.entries slot member]
        obtain ⟨slotDir, slotIndex⟩ := slot
        have elsewhere : ¬ (slotDir = dir ∧ slotIndex = index) := by
          rintro ⟨rfl, rfl⟩
          exact same rfl
        congr 1
        simp only [eq_iff_iff]
        omega
    · intro other
      rw [clearing.accounted.tableOf_store dirMember points ram, clearing.tables]
    · intro page different
      rw [ram, ram_store_of_ne different, clearing.ram page different]
  · intro _ after clearing
    rwa [Nat.zero_add] at clearing

theorem satisfies_freeDirs
    {size dir : Nat}
    (accounted : Accounted low high held memory)
    (fromUser : 16 ≤ dir)
    (toUser : dir + size ≤ 1024) :
    Satisfies (freeDirs size dir) memory
      (fun value after =>
        value = 0 ∧ Released low high held dir size memory after)
      abandoned := by
  induction size generalizing dir memory with
  | zero =>
    refine ⟨rfl, accounted, ?_, ?_, fun _ _ _ => rfl⟩
    · intro slot _
      rw [if_neg (by omega)]
    · intro other _
      rw [if_neg (by omega)]
  | succ size inductionHypothesis =>
    have dirMember : dir ∈ userDirs := by
      rw [mem_userDirs]
      omega
    unfold freeDirs
    rw [satisfies_bind, satisfies_read]
    cases isPresent : (memory.ram 0 dir).present with
    | false =>
      have noTable := tableOf_of_absent isPresent
      simp only [isPresent, Bool.false_eq_true, ↓reduceIte]
      refine (inductionHypothesis accounted (by omega)
        (by omega)).mono ?_ (fun _ same => same)
      rintro value after ⟨zero, released⟩
      refine ⟨zero, released.accounted, ?_, ?_, released.ram⟩
      · rintro ⟨slotDir, slotIndex⟩ member
        rw [released.entries _ member]
        by_cases same : slotDir = dir
        · subst same
          rw [if_neg (by omega), if_pos (by omega)]
          exact entryAt_of_no_table noTable
        · congr 1
          simp only [eq_iff_iff]
          omega
      · intro other member
        rw [released.tables _ member]
        by_cases same : other = dir
        · subst same
          rw [if_neg (by omega), if_pos (by omega)]
          exact noTable
        · congr 1
          simp only [eq_iff_iff]
          omega
    | true =>
      have pointsTo := tableOf_of_present isPresent
      simp only [isPresent, ↓reduceIte]
      refine Satisfies.andThen
        (satisfies_freeEntries accounted dirMember pointsTo) ?_
      intro _ cleared clearing
      have points := (clearing.tables dir).trans pointsTo
      have tableMain :=
        clearing.accounted.tableMain dir dirMember _ points
      have single :=
        clearing.accounted.tableSingle dir dirMember _ points
      have referenced :
          cleared.memMap
            ((memory.ram 0 dir).frame - lowMemPage) ≠ 0#8 := by
        rw [single]
        decide
      refine Satisfies.andThen
        (satisfies_freePage clearing.accounted
          (Or.inr ⟨tableMain, referenced⟩)) ?_
      rintro _ freed rfl
      rw [satisfies_bind, satisfies_update]
      have noEntries :
          ∀ index, index < 1024 →
            cleared.entryAt (dir, index) = none := by
        intro index inRange
        rw [clearing.entries, if_pos ⟨rfl, inRange⟩]
        rw [mem_userEntries]
        exact ⟨mem_userDirs.mp dirMember, inRange⟩
      obtain ⟨unlinked, noTable, entries⟩ :=
        clearing.accounted.unlink dirMember points noEntries rfl
      have otherTables {other : Nat} (different : other ≠ dir) :
          (store 0 dir 0#32
              (setMap ((memory.ram 0 dir).frame - lowMemPage)
                (cleared.memMap
                  ((memory.ram 0 dir).frame - lowMemPage) - 1#8)
                cleared)).tableOf other =
            memory.tableOf other := by
        rw [Accounted.tableOf_store_dir different]
        exact clearing.tables other
      unfold uncounted
      rw [if_pos (clearing.accounted.above_low tableMain)]
      refine (inductionHypothesis unlinked (by omega)
        (by omega)).mono ?_ (fun _ same => same)
      rintro value after ⟨zero, released⟩
      refine ⟨zero, released.accounted, ?_, ?_, ?_⟩
      · rintro ⟨slotDir, slotIndex⟩ member
        rw [released.entries _ member, entries _ member, clearing.entries _ member]
        have inRange : slotIndex < 1024 := by
          rw [mem_userEntries] at member
          exact member.2
        by_cases same : slotDir = dir
        · subst same
          rw [if_neg (by omega), if_pos (by omega),
            if_pos (by omega)]
        · have elsewhere :
              ¬ (slotDir = dir ∧ slotIndex < 1024) := by
            omega
          simp only [elsewhere, ↓reduceIte]
          congr 1
          simp only [eq_iff_iff]
          omega
      · intro other member
        rw [released.tables _ member]
        by_cases same : other = dir
        · subst same
          rw [if_neg (by omega), if_pos (by omega)]
          exact noTable
        · rw [otherTables same]
          congr 1
          simp only [eq_iff_iff]
          omega
      · intro page nonzero notTable
        have notThis : page ≠ (memory.ram 0 dir).frame := by
          rintro rfl
          exact notTable dir dirMember pointsTo
        rw [released.ram page nonzero, ram_store_of_ne nonzero,
          ram_setMap, clearing.ram page notThis]
        intro other member
        by_cases same : other = dir
        · subst same
          rw [noTable]
          simp
        · rw [otherTables same]
          exact notTable other member

theorem freePageTables_eq_freeDirs
    {task size : Nat}
    (notSwapper : 0 < task)
    (inTable : task < 64)
    (inSlot : size ≤ slotSize) :
    freePageTables (task * slotSize) size =
      freeDirs ((size + 0x3fffff) / 0x400000) (task * 16) := by
  unfold slotSize at inSlot ⊢
  have directory : dirIndex (task * 0x4000000) = task * 16 := by
    unfold dirIndex
    omega
  have count :
      (size + 0x3fffff) % 2 ^ 32 / 0x400000 =
        (size + 0x3fffff) / 0x400000 := by
    omega
  unfold freePageTables
  rw [if_neg (by omega), if_neg (by omega), directory, count]

/-- `free_page_tables` on the slot of a task other than task 0. -/
theorem satisfies_freePageTables
    (accounted : Accounted low high held memory)
    {task size : Nat}
    (notSwapper : 0 < task)
    (inTable : task < 64)
    (inSlot : size ≤ slotSize) :
    Satisfies (freePageTables (task * slotSize) size) memory
      (fun value after =>
        value = 0 ∧
          Released low high held (task * 16)
            ((size + 0x3fffff) / 0x400000) memory after)
      abandoned := by
  rw [freePageTables_eq_freeDirs notSwapper inTable inSlot]
  unfold slotSize at inSlot
  exact satisfies_freeDirs accounted (by omega) (by omega)

/-- Freeing page tables touches no page that a task maps. -/
theorem Released.keepsData
    {first size : Nat} {after : Memory}
    (accounted : Accounted low high held memory)
    (released : Released low high held first size memory after) :
    KeepsData held memory after := by
  intro page notZero kept
  apply released.ram page notZero
  intro dir dirMember pointsTo
  have refs := accounted.table_refs dirMember pointsTo
  have aboveLow :=
    accounted.above_low
      (accounted.tableMain dir dirMember page pointsTo)
  unfold Kept at kept
  omega

end Memory

end HitOs
