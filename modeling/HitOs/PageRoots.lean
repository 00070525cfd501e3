import HitOs.PageRuns

namespace HitOs

/-!
# The page directory

What the routines of the memory manager leave in the page directory and in the other low
pages.  A word of the directory changes only in the slots of tasks, where a table is
linked or the word is cleared; the tables of the kernel stay as `setup_paging` makes
them.
-/

namespace Memory

open Routine

variable {low high : Nat} {held : Nat → Nat} {memory middle after : Memory}
variable {abandoned : Memory → Prop}

/-! ## The page directory -/

/-- A word of the directory stays as it is, or a table is linked there. -/
def Relinked (first size : Nat) (memory after : Memory) : Prop :=
  ∀ dir, after.ram 0 dir = memory.ram 0 dir ∨
    (first ≤ dir ∧ dir < first + size) ∧ (after.ram 0 dir).present = true

/-- A word of the directory stays as it is, or a table is unlinked there. -/
def Unlinked (first size : Nat) (memory after : Memory) : Prop :=
  ∀ dir, after.ram 0 dir = memory.ram 0 dir ∨
    (first ≤ dir ∧ dir < first + size) ∧
      (memory.ram 0 dir).present = true ∧ after.ram 0 dir = 0#32

theorem Relinked.cons
    {first size : Nat}
    (head : Relinked first 1 memory middle)
    (rest : Relinked (first + 1) size middle after) :
    Relinked first (size + 1) memory after := by
  intro dir
  rcases rest dir with same | ⟨inside, isPresent⟩
  · rcases head dir with sameToo | ⟨inside, isPresent⟩
    · exact Or.inl (same.trans sameToo)
    · exact Or.inr ⟨by omega, by rw [same]; exact isPresent⟩
  · exact Or.inr ⟨by omega, isPresent⟩

theorem Unlinked.cons
    {first size : Nat}
    (head : Unlinked first 1 memory middle)
    (rest : Unlinked (first + 1) size middle after) :
    Unlinked first (size + 1) memory after := by
  intro dir
  rcases rest dir with same | ⟨inside, isPresent, zero⟩
  · rcases head dir with sameToo | ⟨inside, wasPresent, zero⟩
    · exact Or.inl (same.trans sameToo)
    · exact Or.inr ⟨by omega, wasPresent, same.trans zero⟩
  · rcases head dir with sameToo | ⟨insideToo, wasPresent, _⟩
    · rw [sameToo] at isPresent
      exact Or.inr ⟨by omega, isPresent, zero⟩
    · exact Or.inr ⟨by omega, wasPresent, zero⟩

/-- The first turn of the outer loop, and the others. -/
theorem copyDirs_succ
    (entries size fromDir toDir : Nat) :
    copyDirs entries (size + 1) fromDir toDir =
      (do
        let value ← copyDirs entries 1 fromDir toDir
        if value = 0 then copyDirs entries size (fromDir + 1) (toDir + 1)
        else pure value) := by
  simp only [copyDirs, bind_assoc]
  congr 1
  funext memory
  split_ifs
  · rfl
  · rw [bind_assoc]
    congr 1
    funext page
    split_ifs
    · rfl
    · simp [bind_assoc]
  · rfl

theorem freeDirs_succ
    (size dir : Nat) :
    freeDirs (size + 1) dir =
      (do
        let _ ← freeDirs 1 dir
        freeDirs size (dir + 1)) := by
  simp only [freeDirs, bind_assoc]
  congr 1
  funext memory
  split_ifs
  · simp [bind_assoc]
  · rfl

/-- One turn of `copy_page_tables`. -/
theorem relinked_copyDir
    {entries fromDir toDir : Nat}
    (accounted : Accounted low high held memory)
    (inTable : entries ≤ 1024)
    (fromSource : fromDir ∈ userDirs ∨ fromDir = 0)
    (fromRow : ∀ index, index < entries → Copyable fromDir index)
    (toUser : toDir ∈ userDirs)
    (sameOffset : fromDir % 16 = toDir % 16)
    (apart : fromDir ≠ toDir)
    (empty : memory.tableOf toDir = none) :
    Satisfies (copyDirs entries 1 fromDir toDir) memory
      (fun _ after => Relinked toDir 1 memory after) abandoned := by
  have absent : (memory.ram 0 toDir).present ≠ true := by
    intro isPresent
    rw [tableOf_of_present isPresent] at empty
    cases empty
  unfold copyDirs
  rw [satisfies_bind, satisfies_read, if_neg absent]
  by_cases isPresent : (memory.ram 0 fromDir).present = true
  · have fromPoints := tableOf_of_present isPresent
    rw [if_pos isPresent]
    refine Satisfies.andThen (satisfies_getFreePage accounted) ?_
    rintro toTable fresh (⟨rfl, rfl, _⟩ | ⟨inMain, free, rfl⟩)
    · rw [if_pos rfl]
      exact fun _ => Or.inl rfl
    · have notZero := accounted.ne_zero_of_main inMain
      have link := linked_of_taken accounted toUser empty inMain free
      have emptyRow :
          ∀ index, index < 1024 →
            (store 0 toDir (Word.userEntry toTable)
                (taken toTable memory)).entryAt (toDir, index) = none := by
        intro index inRange
        have member : (toDir, index) ∈ userEntries :=
          mem_userEntries.mpr ⟨mem_userDirs.mp toUser, inRange⟩
        rw [link.entries _ (Or.inl member)]
        exact entryAt_of_no_table empty
      have fromNotZero :
          0 = (memory.ram 0 fromDir).frame → fromDir = 0 := by
        intro zero
        refine fromSource.resolve_left fun member => ?_
        have main := accounted.tableMain fromDir member _ fromPoints
        exact accounted.ne_zero_of_main main zero.symm
      rw [if_neg notZero, satisfies_bind, satisfies_update]
      refine Satisfies.andThen
        (satisfies_copyEntries link.accounted toUser link.table
          ((link.tables fromDir apart).trans fromPoints) inTable fromRow apart
          sameOffset emptyRow) ?_
      intro _ copied row dir
      have root := row.ram 0 (Ne.symm notZero) fromNotZero
      change copied.ram 0 dir = _ ∨ _
      rw [root]
      by_cases same : dir = toDir
      · right
        refine ⟨by omega, ?_⟩
        rw [same, ram_store, if_pos ⟨rfl, rfl⟩]
        exact Word.present_userEntry toTable
      · left
        rw [ram_store, if_neg fun both => same both.2, Accounted.ram_taken,
          if_neg (Ne.symm notZero)]
  · rw [if_neg isPresent]
    exact fun _ => Or.inl rfl

/-- `copy_page_tables` changes the directory in the slot of the child only. -/
theorem relinked_copyDirs
    {entries size fromDir toDir : Nat}
    (accounted : Accounted low high held memory)
    (copyable : DirsCopyable memory entries size fromDir toDir) :
    Satisfies (copyDirs entries size fromDir toDir) memory
      (fun _ after => Relinked toDir size memory after) abandoned := by
  induction size generalizing memory fromDir toDir with
  | zero =>
    exact fun _ => Or.inl rfl
  | succ size inductionHypothesis =>
    obtain ⟨inTable, fromSource, fromRows, toUser, sameOffset, apart, empty⟩ :=
      copyable
    have next (dir offset : Nat) : dir + 1 + offset = dir + (offset + 1) := by
      omega
    have head :
        Satisfies (copyDirs entries 1 fromDir toDir) memory
          (fun _ after => Relinked toDir 1 memory after) abandoned :=
      relinked_copyDir accounted inTable (fromSource 0 (Nat.succ_pos size))
        (fun index => fromRows 0 index (Nat.succ_pos size))
        (toUser 0 (Nat.succ_pos size)) sameOffset
        (apart 0 0 (Nat.succ_pos size) (Nat.succ_pos size))
        (empty 0 (Nat.succ_pos size))
    have copies :
        Satisfies (copyDirs entries 1 fromDir toDir) memory _ abandoned :=
      satisfies_copyDirs accounted inTable
        (fun offset below => fromSource offset (by omega))
        (fun offset index below => fromRows offset index (by omega))
        (fun offset below => toUser offset (by omega)) sameOffset
        (fun offset other below otherBelow =>
          apart offset other (by omega) (by omega))
        (fun offset below => empty offset (by omega))
    rw [copyDirs_succ, satisfies_bind]
    refine (head.and copies).mono ?_ (fun _ same => same)
    rintro value middle ⟨linked, ⟨rfl, copied⟩ | ⟨rfl, _⟩⟩
    · rw [if_pos rfl]
      have rest : DirsCopyable middle entries size (fromDir + 1) (toDir + 1) := by
        refine ⟨inTable, ?_, ?_, ?_, by omega, ?_, ?_⟩
        · intro offset below
          rw [next]
          exact fromSource _ (by omega)
        · intro offset index below
          rw [next]
          exact fromRows _ index (by omega)
        · intro offset below
          rw [next]
          exact toUser _ (by omega)
        · intro offset other below otherBelow
          rw [next, next]
          exact apart _ _ (by omega) (by omega)
        · intro offset below
          rw [copied.tables _ (by omega), next]
          exact empty _ (by omega)
      exact (inductionHypothesis copied.accounted rest).mono
        (fun _ _ later => linked.cons later) (fun _ same => same)
    · rw [if_neg (by decide)]
      intro dir
      rcases linked dir with same | ⟨inside, isPresent⟩
      · exact Or.inl same
      · exact Or.inr ⟨by omega, isPresent⟩

/-- One turn of `free_page_tables`. -/
theorem unlinked_freeDir
    (accounted : Accounted low high held memory)
    {dir : Nat}
    (member : dir ∈ userDirs) :
    Satisfies (freeDirs 1 dir) memory
      (fun _ after => Unlinked dir 1 memory after) abandoned := by
  unfold freeDirs
  rw [satisfies_bind, satisfies_read]
  dsimp only
  split
  · rename_i isPresent
    have pointsTo := tableOf_of_present isPresent
    refine Satisfies.andThen (satisfies_freeEntries accounted member pointsTo) ?_
    intro _ cleared clearing
    have points := (clearing.tables dir).trans pointsTo
    have tableMain := clearing.accounted.tableMain dir member _ points
    have single := clearing.accounted.tableSingle dir member _ points
    have referenced :
        cleared.memMap ((memory.ram 0 dir).frame - lowMemPage) ≠ 0#8 := by
      rw [single]
      decide
    refine Satisfies.andThen
      (satisfies_freePage clearing.accounted (Or.inr ⟨tableMain, referenced⟩)) ?_
    rintro _ freed rfl other
    have root :=
      clearing.ram 0 (Ne.symm (clearing.accounted.ne_zero_of_main tableMain))
    change (store 0 dir 0#32 _).ram 0 other = _ ∨ _
    rw [ram_store, ram_uncounted, root]
    by_cases same : other = dir
    · right
      rw [if_pos ⟨rfl, same⟩, same]
      exact ⟨by omega, isPresent, rfl⟩
    · left
      rw [if_neg fun both => same both.2]
  · exact fun _ => Or.inl rfl

/-- `free_page_tables` clears the directory entries it finds present. -/
theorem unlinked_freeDirs
    {size dir : Nat}
    (accounted : Accounted low high held memory)
    (fromUser : 16 ≤ dir)
    (toUser : dir + size ≤ 1024) :
    Satisfies (freeDirs size dir) memory
      (fun _ after => Unlinked dir size memory after) abandoned := by
  induction size generalizing memory dir with
  | zero =>
    exact fun _ => Or.inl rfl
  | succ size inductionHypothesis =>
    have member : dir ∈ userDirs :=
      mem_userDirs.mpr ⟨fromUser, by omega⟩
    have frees : Satisfies (freeDirs 1 dir) memory _ abandoned :=
      satisfies_freeDirs accounted fromUser (by omega)
    rw [freeDirs_succ, satisfies_bind]
    refine ((unlinked_freeDir accounted member).and frees).mono ?_
      (fun _ same => same)
    rintro _ middle ⟨unlinked, _, released⟩
    exact (inductionHypothesis released.accounted (by omega) (by omega)).mono
      (fun _ _ later => unlinked.cons later) (fun _ same => same)

/-! ## `copy_mem` -/

/-- Nothing is left of the copy. -/
structure Restored
    (low high : Nat)
    (held : Nat → Nat)
    (child : Nat)
    (memory after : Memory) : Prop where
  accounted :
    Accounted low high held after
  places :
    ∀ slot ∈ userEntries, after.placeAt slot = memory.placeAt slot
  tables :
    ∀ dir ∈ userDirs, after.tableOf dir = memory.tableOf dir
  /-- A word of the child's slot that was absent and not zero is zero now. -/
  root :
    ∀ dir, after.ram 0 dir = memory.ram 0 dir ∨
      InSlot child dir ∧ after.ram 0 dir = 0#32
  data :
    KeepsData held memory after

/-- What `copy_mem` leaves in the directory, and that a failure leaves nothing else. -/
theorem satisfies_copyMem_root
    {segments : Segments} {parent child : Nat}
    (accounted : Accounted low high held memory)
    (copyable : MemCopyable segments parent child memory) :
    Satisfies (copyMem segments child) memory
      (fun value after =>
        (value = 0 ∧
            Relinked (child * 16) ((segments.dataLimit + 0x3fffff) / 0x400000)
              memory after) ∨
          Restored low high held child memory after)
      abandoned := by
  obtain ⟨notSwapper, childRange, parentRange, different, dataBase, codeBase,
    limits, inSlot, firstFork, empty⟩ := copyable
  have dirs : (segments.dataLimit + 0x3fffff) / 0x400000 ≤ 16 := by
    unfold slotSize at inSlot
    omega
  have copyable :=
    dirsCopyable_of_tasks notSwapper childRange parentRange different
      inSlot firstFork fun dir lower upper => empty dir ⟨lower, upper⟩
  have copies :
      Satisfies
        (copyPageTables (parent * slotSize) (child * slotSize) segments.dataLimit)
        memory _ abandoned :=
    satisfies_copyPageTables accounted notSwapper childRange parentRange different
      inSlot firstFork fun dir lower upper => empty dir ⟨lower, upper⟩
  have links :
      Satisfies
        (copyPageTables (parent * slotSize) (child * slotSize) segments.dataLimit)
        memory
        (fun _ middle =>
          Relinked (child * 16) ((segments.dataLimit + 0x3fffff) / 0x400000)
            memory middle)
        abandoned := by
    rw [copyPageTables_eq_copyDirs parentRange childRange inSlot]
    exact relinked_copyDirs accounted copyable
  unfold copyMem
  rw [if_neg (by omega), if_neg (by omega), dataBase]
  refine Satisfies.andThen (copies.and links) ?_
  rintro value middle ⟨⟨rfl, _⟩ | ⟨rfl, done, below, copied⟩, linked⟩
  · rw [if_pos rfl]
    exact Or.inl ⟨rfl, linked⟩
  rw [if_neg (by decide)]
  have frees :
      Satisfies (freePageTables (child * slotSize) segments.dataLimit) middle _
        abandoned :=
    satisfies_freePageTables copied.accounted notSwapper childRange inSlot
  have unlinks :
      Satisfies (freePageTables (child * slotSize) segments.dataLimit) middle
        (fun _ after =>
          Unlinked (child * 16) ((segments.dataLimit + 0x3fffff) / 0x400000)
            middle after)
        abandoned := by
    rw [freePageTables_eq_freeDirs notSwapper childRange inSlot]
    exact unlinked_freeDirs copied.accounted (by omega) (by omega)
  refine Satisfies.andThen (frees.and unlinks) ?_
  rintro _ after ⟨⟨_, released⟩, unlinked⟩
  rw [satisfies_pure]
  right
  have tables :
      ∀ dir ∈ userDirs, after.tableOf dir = memory.tableOf dir := by
    intro dir member
    rw [released.tables dir member]
    split
    · exact (empty dir ⟨by omega, by omega⟩).symm
    · exact copied.tables dir (by omega)
  refine ⟨released.accounted, ?_, tables, ?_, ?_⟩
  · intro slot member
    have entry := released.entries slot member
    split at entry
    · have noTable := empty slot.1 ⟨by omega, by omega⟩
      rw [placeAt, placeAt, entry, entryAt, noTable]
      rfl
    · rw [placeAt_congr entry]
      exact copied.place_kept (Or.inl member) (by omega)
  · intro dir
    rcases unlinked dir with same | ⟨inside, wasPresent, zero⟩
    · rcases linked dir with sameToo | ⟨inside, isPresent⟩
      · exact Or.inl (same.trans sameToo)
      · -- A table that was linked has been unlinked again.
        rw [← same] at isPresent
        have member : dir ∈ userDirs := by
          rw [mem_userDirs]
          omega
        have noTable := (tables dir member).trans (empty dir ⟨by omega, by omega⟩)
        rw [tableOf_of_present isPresent] at noTable
        cases noTable
    · exact Or.inr ⟨⟨by omega, by omega⟩, zero⟩
  · have noTable :
        ∀ offset, offset < done → memory.tableOf (child * 16 + offset) = none :=
      fun offset inDone => empty _ ⟨by omega, by omega⟩
    intro page notZero kept
    rw [released.keepsData copied.accounted page notZero
        (copied.still_kept noTable kept),
      copied.data page notZero kept]

/-! ## Low pages -/

/-- Low pages are as before, but for the directory entries of the tasks' slots. -/
structure KernelKept (memory after : Memory) : Prop where
  root :
    ∀ dir, after.ram 0 dir = memory.ram 0 dir ∨
      dir ∈ userDirs ∧ ((after.ram 0 dir).present = true ∨ after.ram 0 dir = 0#32)
  low :
    ∀ page, page ≠ 0 → page < lowMemPage → after.ram page = memory.ram page

namespace KernelKept

theorem of_ram
    (same : ∀ page, page < lowMemPage → after.ram page = memory.ram page) :
    KernelKept memory after where
  root := fun dir => Or.inl (congrFun (same 0 (by decide)) dir)
  low := fun page _ below => same page below

theorem trans
    (head : KernelKept memory middle)
    (rest : KernelKept middle after) :
    KernelKept memory after where
  root := by
    intro dir
    rcases rest.root dir with same | changed
    · rw [same]
      exact head.root dir
    · exact Or.inr changed
  low := fun page notZero below =>
    (rest.low page notZero below).trans (head.low page notZero below)

/-- A word is stored in a page of main memory. -/
theorem store_above
    {page : Nat}
    (above : lowMemPage ≤ page)
    (index : Nat)
    (word : Word) :
    KernelKept memory (store page index word memory) :=
  of_ram fun _ below => ram_store_of_ne (Nat.ne_of_lt (Nat.lt_of_lt_of_le below above))

/-- A table is linked in a task's slot. -/
theorem link
    {dir : Nat}
    (member : dir ∈ userDirs)
    (page : Nat) :
    KernelKept memory (store 0 dir (Word.userEntry page) memory) where
  root := by
    intro other
    rw [ram_store]
    by_cases same : other = dir
    · rw [if_pos ⟨rfl, same⟩, same]
      exact Or.inr ⟨member, Or.inl (Word.present_userEntry page)⟩
    · rw [if_neg fun both => same both.2]
      exact Or.inl rfl
  low := fun _ notZero _ => ram_store_of_ne notZero

theorem taken
    (accounted : Accounted low high held memory)
    {page : Nat}
    (inMain : InMain low high page) :
    KernelKept memory (taken page memory) := by
  apply of_ram
  intro other below
  have above := accounted.above_low inMain
  rw [Accounted.ram_taken, if_neg (by omega)]

end KernelKept

theorem keeps_putPage
    (accounted : Accounted low high held memory)
    {page address : Nat}
    (member : dirIndex address ∈ userDirs) :
    Satisfies (putPage page address) memory
      (fun _ after => KernelKept memory after) abandoned := by
  unfold putPage
  rw [satisfies_bind, satisfies_read]
  dsimp only
  split
  · rename_i isPresent
    have above :=
      accounted.above_low
        (accounted.tableMain _ member _ (tableOf_of_present isPresent))
    exact KernelKept.store_above above _ _
  · refine Satisfies.andThen (satisfies_getFreePage accounted) ?_
    rintro table fresh (⟨rfl, rfl, _⟩ | ⟨inMain, _, rfl⟩)
    · rw [if_pos rfl]
      exact KernelKept.of_ram fun _ _ => rfl
    · rw [if_neg (accounted.ne_zero_of_main inMain)]
      exact ((KernelKept.taken accounted inMain).trans
        (KernelKept.link member table)).trans
        (KernelKept.store_above (accounted.above_low inMain) _ _)

theorem keeps_getEmptyPage
    (accounted : Accounted low high held memory)
    {address : Nat}
    (slotMember : (dirIndex address, tableIndex address) ∈ userEntries)
    (empty :
      memory.entryAt (dirIndex address, tableIndex address) = none) :
    Satisfies (getEmptyPage address) memory
      (fun _ after => KernelKept memory after) (KernelKept memory) := by
  have member := Accounted.slotDir slotMember
  unfold getEmptyPage
  refine Satisfies.andThen (satisfies_getFreePage accounted) ?_
  rintro page fresh (⟨rfl, rfl, _⟩ | ⟨inMain, free, rfl⟩)
  · rw [if_pos rfl]
    refine Satisfies.andThen
      (satisfies_freePage accounted (Or.inl (by decide))) ?_
    rintro _ after rfl
    exact KernelKept.of_ram fun _ _ => rfl
  · have notZero := accounted.ne_zero_of_main inMain
    have takenAccounted := accounted.taken_accounted inMain free
    have takenKept := KernelKept.taken accounted inMain
    have takenHeld : 0 < Function.update held page 1 page := by
      simp
    have stillEmpty :=
      (accounted.entryAt_taken inMain free slotMember).trans empty
    rw [if_neg notZero]
    refine Satisfies.andThen
      ((satisfies_putPage takenAccounted slotMember stillEmpty takenHeld).and
        (keeps_putPage takenAccounted member)) ?_
    rintro placedPage after ⟨⟨rfl, _⟩ | ⟨rfl, rfl, _⟩, kept⟩
    · rw [if_neg notZero]
      exact takenKept.trans kept
    · rw [if_pos rfl]
      refine Satisfies.andThen
        (satisfies_freePage_held takenAccounted takenHeld) ?_
      rintro _ freed ⟨_, ram⟩
      exact takenKept.trans (KernelKept.of_ram fun _ _ => by rw [ram])

theorem keeps_sharingTable
    (accounted : Accounted low high held memory)
    {dir : Nat}
    (member : dir ∈ userDirs) :
    Satisfies (sharingTable dir) memory
      (fun _ after => KernelKept memory after) (KernelKept memory) := by
  unfold sharingTable
  rw [satisfies_bind, satisfies_read]
  split
  · exact KernelKept.of_ram fun _ _ => rfl
  · refine Satisfies.andThen (satisfies_getFreePage accounted) ?_
    rintro page fresh (⟨rfl, rfl, _⟩ | ⟨inMain, _, rfl⟩)
    · rw [if_pos rfl]
      exact KernelKept.of_ram fun _ _ => rfl
    · rw [if_neg (accounted.ne_zero_of_main inMain)]
      exact (KernelKept.taken accounted inMain).trans (KernelKept.link member page)

theorem keeps_tryToShare
    (accounted : Accounted low high held memory)
    {address task current : Nat}
    (inSlot : address < slotSize)
    (taskUser : 0 < task)
    (taskRange : task < 64)
    (currentUser : 0 < current)
    (currentRange : current < 64)
    (empty :
      memory.entryAt
          (current * 16 + dirIndex address, tableIndex address) =
        none) :
    Satisfies
      (tryToShare address (task * slotSize) (current * slotSize)) memory
      (fun _ after => KernelKept memory after) (KernelKept memory) := by
  have same : KernelKept memory memory := KernelKept.of_ram fun _ _ => rfl
  have directory (slot : Nat) (inRange : slot < 64) :
      dirIndex address + dirIndex (slot * slotSize) =
        slot * 16 + dirIndex address := by
    unfold slotSize at inSlot ⊢
    unfold dirIndex
    omega
  have small : dirIndex address < 16 := by
    unfold slotSize at inSlot
    unfold dirIndex
    omega
  have fromMember : task * 16 + dirIndex address ∈ userDirs := by
    rw [mem_userDirs]
    omega
  have toSlot :
      (current * 16 + dirIndex address, tableIndex address) ∈ userEntries := by
    rw [mem_userEntries]
    unfold tableIndex
    omega
  have toMember := Accounted.slotDir toSlot
  unfold tryToShare
  rw [directory task taskRange, directory current currentRange]
  rw [satisfies_bind, satisfies_read]
  dsimp only
  split
  · exact same
  · rename_i fromPresent
    rw [Bool.not_eq_false] at fromPresent
    have fromAbove :=
      accounted.above_low
        (accounted.tableMain _ fromMember _ (tableOf_of_present fromPresent))
    split
    · exact same
    · split
      · exact same
      · refine Satisfies.andThen
          ((keeps_sharingTable accounted toMember).and
            (satisfies_sharingTable accounted toMember same)) ?_
        rintro toTable middle ⟨kept, middleAccounted, _, toPoints, _, entries, _⟩
        have toAbove :=
          middleAccounted.above_low
            (middleAccounted.tableMain _ toMember _ toPoints)
        rw [satisfies_bind, satisfies_read]
        split
        · rename_i toPresent
          have stillEmpty := (entries _ toSlot).trans empty
          rw [entryAt_of_table toPoints] at stillEmpty
          rw [entryOf_eq_none.mp stillEmpty] at toPresent
          cases toPresent
        · exact (kept.trans (KernelKept.store_above fromAbove _ _)).trans
            ((KernelKept.store_above toAbove _ _).trans
              (KernelKept.of_ram fun _ _ => rfl))

/-! ## The reachable states -/

/-- The tables of the kernel are low pages, and have no page that is read-only. -/
def KernelMapped (memory : Memory) : Prop :=
  ∀ dir < 16, (memory.ram 0 dir).present = true →
    ((memory.ram 0 dir).frame ≠ 0 ∧ (memory.ram 0 dir).frame < lowMemPage) ∧
      ∀ index < 1024, 3#32 &&& memory.ram (memory.ram 0 dir).frame index ≠ 1#32

/-- A state of the page tables in which processes run. -/
structure ConsistentPaging
    (low high : Nat)
    (held : Nat → Nat)
    (memory : Memory) : Prop where
  accounted :
    Accounted low high held memory
  kernelMapped :
    KernelMapped memory
  cleared :
    ∀ dir ∈ userDirs, memory.tableOf dir = none → memory.ram 0 dir = 0#32

theorem KernelMapped.kept
    (mapped : KernelMapped memory)
    (kept : KernelKept memory after) :
    KernelMapped after := by
  intro dir below isPresent
  have same : after.ram 0 dir = memory.ram 0 dir := by
    refine (kept.root dir).resolve_right fun changed => ?_
    have member := mem_userDirs.mp changed.1
    omega
  rw [same] at isPresent ⊢
  obtain ⟨lowTable, writable⟩ := mapped dir below isPresent
  rw [kept.low _ lowTable.1 lowTable.2]
  exact ⟨lowTable, writable⟩

theorem cleared_kept
    (cleared :
      ∀ dir ∈ userDirs, memory.tableOf dir = none → memory.ram 0 dir = 0#32)
    (kept : KernelKept memory after) :
    ∀ dir ∈ userDirs, after.tableOf dir = none → after.ram 0 dir = 0#32 := by
  intro dir member noTable
  rcases kept.root dir with same | ⟨_, isPresent | zero⟩
  · rw [same]
    apply cleared dir member
    rw [← noTable, tableOf, tableOf, same]
  · rw [tableOf_of_present isPresent] at noTable
    cases noTable
  · exact zero

theorem ConsistentPaging.kept
    {held' : Nat → Nat}
    (consistent : ConsistentPaging low high held memory)
    (accounted : Accounted low high held' after)
    (kept : KernelKept memory after) :
    ConsistentPaging low high held' after where
  accounted := accounted
  kernelMapped := consistent.kernelMapped.kept kept
  cleared := cleared_kept consistent.cleared kept

/-- Once the machine has booted, the page tables are consistent. -/
theorem booted_consistent
    (extMemK : Nat)
    (memory : Memory) :
    ConsistentPaging (mainMemoryStart extMemK / 4096)
      (memoryEnd extMemK / 4096) (fun _ => 0) (booted extMemK memory) where
  accounted := booted_accounted extMemK memory
  kernelMapped := by
    intro dir below isPresent
    unfold booted memInit setupPaging at isPresent ⊢
    dsimp only at isPresent ⊢
    rw [if_pos rfl] at isPresent ⊢
    by_cases first : dir < 4
    · rw [if_pos first, Word.frame_userEntry (by omega)]
      refine ⟨⟨by omega, by unfold lowMemPage; omega⟩, ?_⟩
      intro index inTable readOnly
      rw [if_neg (by omega), if_pos (by omega), Word.readOnly_iff,
        Word.writable_userEntry] at readOnly
      cases readOnly.2
    · rw [if_neg first] at isPresent
      cases isPresent
  cleared := by
    intro dir member _
    rw [mem_userDirs] at member
    unfold booted memInit setupPaging
    dsimp only
    rw [if_pos rfl, if_neg (by omega)]

section Calls

variable {extMemK : Nat} {kernel : Kernel}

/-- The low pages are kept, in memory as the kernel sees it. -/
def Kernel.Kept (kernel after : Kernel) : Prop :=
  KernelKept kernel.memory after.memory

theorem keeps_onMemory
    {α : Type} {routine : Routine Memory α}
    (satisfied :
      routine.Satisfies kernel.memory (fun _ after => KernelKept kernel.memory after)
        (KernelKept kernel.memory)) :
    (Kernel.onMemory routine).Satisfies kernel (fun _ after => kernel.Kept after)
      kernel.Kept := by
  unfold Kernel.onMemory
  rw [satisfies_zoom]
  exact satisfied

theorem keeps_copyMem
    {segments : Segments} {parent child : Nat}
    (accounted : Accounted low high held memory)
    (copyable : MemCopyable segments parent child memory) :
    Satisfies (copyMem segments child) memory
      (fun _ after => KernelKept memory after) abandoned := by
  refine ((satisfies_copyMem accounted copyable).and
    (satisfies_copyMem_root accounted copyable)).mono ?_ (fun _ same => same)
  have notSwapper := copyable.notSwapper
  have childRange := copyable.childRange
  have inSlot := copyable.inSlot
  rintro value after ⟨copied, root⟩
  refine ⟨fun dir => ?_, fun page notZero below =>
    copied.data page notZero (Or.inl below)⟩
  have member (inChild : InSlot child dir) : dir ∈ userDirs := by
    obtain ⟨lower, upper⟩ := inChild
    rw [mem_userDirs]
    omega
  rcases root with ⟨_, linked⟩ | restored
  · rcases linked dir with same | ⟨inside, isPresent⟩
    · exact Or.inl same
    · refine Or.inr ⟨member ⟨by omega, ?_⟩, Or.inl isPresent⟩
      unfold slotSize at inSlot
      omega
  · rcases restored.root dir with same | ⟨inChild, zero⟩
    · exact Or.inl same
    · exact Or.inr ⟨member inChild, Or.inr zero⟩

theorem keeps_freePageTables
    {task size : Nat}
    (accounted : Accounted low high held memory)
    (notSwapper : 0 < task)
    (inTable : task < 64)
    (inSlot : size ≤ slotSize) :
    Satisfies (freePageTables (task * slotSize) size) memory
      (fun _ after => KernelKept memory after) abandoned := by
  have dirs : task * 16 + (size + 0x3fffff) / 0x400000 ≤ 1024 := by
    unfold slotSize at inSlot
    omega
  have unlinks :
      Satisfies (freePageTables (task * slotSize) size) memory
        (fun _ after =>
          Unlinked (task * 16) ((size + 0x3fffff) / 0x400000) memory after)
        abandoned := by
    rw [freePageTables_eq_freeDirs notSwapper inTable inSlot]
    exact unlinked_freeDirs accounted (by omega) dirs
  refine ((satisfies_freePageTables accounted notSwapper inTable inSlot).and
    unlinks).mono ?_ (fun _ same => same)
  rintro _ after ⟨⟨_, released⟩, unlinked⟩
  refine ⟨fun dir => ?_, fun page notZero below =>
    released.keepsData accounted page notZero (Or.inl below)⟩
  rcases unlinked dir with same | ⟨inside, _, zero⟩
  · exact Or.inl same
  · refine Or.inr ⟨?_, Or.inr zero⟩
    rw [mem_userDirs]
    omega

/-- Every call keeps the low pages, also when it abandons its task. -/
theorem performs_kept
    {call : PageCall}
    (accounted : kernel.Accounted extMemK)
    (enabled : call.Enabled kernel) :
    call.perform.Satisfies kernel (fun _ after => kernel.Kept after) kernel.Kept := by
  have same : kernel.Kept kernel := KernelKept.of_ram fun _ _ => rfl
  cases call with
  | getFreePage =>
    unfold PageCall.perform Kernel.onMemory
    rw [satisfies_bind, satisfies_zoom]
    refine (satisfies_getFreePage accounted).mono ?_ (fun _ same => same)
    rintro page _ (⟨rfl, rfl, _⟩ | ⟨inMain, _, rfl⟩)
    · rw [satisfies_update, if_pos rfl]
      exact same
    · rw [satisfies_update, if_neg (Accounted.ne_zero_of_main accounted inMain)]
      exact KernelKept.taken accounted inMain
  | freePage page =>
    unfold PageCall.perform Kernel.onMemory
    rw [satisfies_bind, satisfies_zoom]
    refine (satisfies_freePage_held accounted enabled).mono ?_ (fun _ same => same)
    rintro _ after ⟨_, ram⟩
    exact KernelKept.of_ram fun _ _ => by
      change after.ram _ = _
      rw [ram]
  | fillPage page contents =>
    have above :=
      Accounted.above_low accounted
        (Memory.Accounted.heldMain accounted page enabled)
    apply KernelKept.of_ram
    intro other below
    change (storePage page contents kernel.memory).ram other = _
    rw [ram_storePage, if_neg (by omega)]
  | putPage page address =>
    obtain ⟨_, slotMember, _⟩ := enabled
    unfold PageCall.perform Kernel.onMemory
    rw [satisfies_bind, satisfies_zoom]
    refine (keeps_putPage accounted (Accounted.slotDir slotMember)).mono ?_
      (fun _ same => same)
    intro value after kept
    rw [satisfies_update]
    split <;> exact kept
  | getEmptyPage address =>
    exact keeps_onMemory (keeps_getEmptyPage accounted enabled.1 enabled.2)
  | copyMem segments parent child =>
    unfold PageCall.perform
    exact Satisfies.andThen
      (keeps_onMemory (keeps_copyMem accounted (copyable_of_enabled enabled)))
      fun _ _ kept => kept
  | freePageTables task size =>
    obtain ⟨notSwapper, inTable, inSlot⟩ := enabled
    unfold PageCall.perform
    exact Satisfies.andThen
      (keeps_onMemory (keeps_freePageTables accounted notSwapper inTable inSlot))
      fun _ _ kept => kept
  | unWpPage dir index =>
    obtain ⟨slotMember, entry, mapped⟩ := enabled
    unfold PageCall.perform
    rw [satisfies_bind, satisfies_read]
    apply keeps_onMemory
    exact (satisfies_unWpPage accounted slotMember (table_of_entry mapped).1 mapped
      same).mono (fun _ _ ⟨_, unshared⟩ => KernelKept.of_ram unshared.kernel)
      (fun _ kept => kept)
  | tryToShare address task current =>
    obtain ⟨inSlot, taskUser, taskRange, currentUser, currentRange, _, empty⟩ :=
      enabled
    unfold PageCall.perform
    exact Satisfies.andThen
      (keeps_onMemory (keeps_tryToShare accounted inSlot taskUser taskRange
        currentUser currentRange empty))
      fun _ _ kept => kept
  | userWrite task offset value =>
    obtain ⟨taskUser, taskRange, inSlot, entry, mapped⟩ := enabled
    have slotMember := slotOf_mem taskUser taskRange inSlot
    rw [← slotOf_address taskRange inSlot] at slotMember mapped
    unfold PageCall.perform
    apply keeps_onMemory
    refine (satisfies_userWrite accounted slotMember mapped same).mono ?_
      (fun _ kept => kept)
    rintro _ after ⟨new, written⟩
    apply KernelKept.of_ram
    intro page below
    have above := written.above
    exact written.ram page (by omega) (Or.inl below)

/-- The page tables are consistent, between the bounds that `main` computes. -/
def Kernel.Consistent (extMemK : Nat) (kernel : Kernel) : Prop :=
  ConsistentPaging (mainMemoryStart extMemK / 4096) (memoryEnd extMemK / 4096)
    kernel.held kernel.memory

theorem preserves_consistent
    (extMemK : Nat) :
    (pageMachine extMemK).Preserves (Kernel.Consistent extMemK) := by
  intro call kernel consistent enabled
  refine ((preserves_accounted extMemK call kernel consistent.accounted enabled).both
    (performs_kept consistent.accounted enabled)).mono ?_ ?_
  · rintro _ after ⟨accounted, kept⟩
    exact consistent.kept accounted kept
  · rintro after ⟨accounted, kept⟩
    exact consistent.kept accounted kept

/-- Every state that the memory manager reaches is consistent. -/
theorem consistent_of_reachable
    (reached : (pageMachine extMemK).Reachable kernel) :
    kernel.Consistent extMemK := by
  refine reached.invariant ?_ (preserves_consistent extMemK)
  rintro first ⟨⟨memory, shape⟩, nothingHeld⟩
  have noneHeld : first.held = fun _ => 0 := funext nothingHeld
  unfold Kernel.Consistent
  rw [shape, noneHeld]
  exact booted_consistent extMemK memory

end Calls

end Memory

end HitOs
