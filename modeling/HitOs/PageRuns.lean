import HitOs.Machine
import HitOs.PageAccess
import HitOs.PageCopying

namespace HitOs

/-!
# Runs of the memory manager

The page allocator as the kernel uses it after `mem_init`: any number of calls,
in any order, by at most 64 tasks.  The state has, beside the memory, the
references that the kernel itself keeps to pages it has obtained and not yet
placed or freed.
-/

namespace Memory

open Routine

/-! ## The first state -/

section Booting

variable (extMemK : Nat) (memory : Memory)

theorem mainMemoryStart_bounds :
    0x100000 ≤ mainMemoryStart extMemK ∧
      mainMemoryStart extMemK ≤ 0x400000 ∧
      mainMemoryStart extMemK % 4096 = 0 := by
  unfold mainMemoryStart
  split
  · omega
  · split <;> omega

theorem memoryEnd_bounds :
    mainMemoryStart extMemK ≤ memoryEnd extMemK ∧
      memoryEnd extMemK ≤ 0x1000000 ∧
      memoryEnd extMemK % 4096 = 0 := by
  unfold mainMemoryStart memoryEnd
  split
  · omega
  · split <;> omega

theorem memMap_memInit
    (startMem endMem index : Nat) :
    (memInit startMem endMem memory).memMap index =
      if startMem / 4096 - lowMemPage ≤ index ∧
          index < startMem / 4096 - lowMemPage + (endMem - startMem) / 4096 then
        0#8
      else used := by
  simp only [memInit]

theorem memMap_booted
    {page : Nat}
    (aboveLow : lowMemPage ≤ page) :
    (booted extMemK memory).memMap (page - lowMemPage) =
      if InMain (mainMemoryStart extMemK / 4096)
          (memoryEnd extMemK / 4096) page then 0#8
      else used := by
  have start := mainMemoryStart_bounds extMemK
  have stop := memoryEnd_bounds extMemK
  have sameRange :
      (mainMemoryStart extMemK / 4096 - lowMemPage ≤ page - lowMemPage ∧
          page - lowMemPage <
            mainMemoryStart extMemK / 4096 - lowMemPage +
              (memoryEnd extMemK - mainMemoryStart extMemK) / 4096) ↔
        InMain (mainMemoryStart extMemK / 4096)
          (memoryEnd extMemK / 4096) page := by
    unfold lowMemPage at aboveLow ⊢
    unfold InMain
    omega
  rw [booted, memMap_memInit]
  exact if_congr sameRange rfl rfl

theorem tableOf_booted
    {dir : Nat}
    (member : dir ∈ userDirs) :
    (booted extMemK memory).tableOf dir = none := by
  rw [mem_userDirs] at member
  apply tableOf_of_absent
  unfold booted memInit setupPaging
  simp only [↓reduceIte]
  rw [if_neg (by omega)]
  decide

theorem entryAt_booted
    {slot : Nat × Nat}
    (member : slot ∈ userEntries) :
    (booted extMemK memory).entryAt slot = none :=
  entryAt_of_no_table
    (tableOf_booted extMemK memory (Accounted.slotDir member))

theorem frameAt_booted
    {slot : Nat × Nat}
    (member : slot ∈ userEntries) :
    (booted extMemK memory).frameAt slot = none := by
  rw [frameAt, entryAt_booted extMemK memory member]
  rfl

/-- The invariant holds when `main` forks the first task. -/
theorem booted_accounted :
    Accounted (mainMemoryStart extMemK / 4096)
      (memoryEnd extMemK / 4096) (fun _ => 0)
      (booted extMemK memory) := by
  have start := mainMemoryStart_bounds extMemK
  have stop := memoryEnd_bounds extMemK
  have noTable {dir : Nat} (member : dir ∈ userDirs) :=
    tableOf_booted extMemK memory member
  have noEntry {slot : Nat × Nat} (member : slot ∈ userEntries) :=
    frameAt_booted extMemK memory member
  constructor
  case lowBound =>
    unfold lowMemPage
    omega
  case highBound =>
    unfold lowMemPage pagingPages
    omega
  case highMemory =>
    have exact : memoryEnd extMemK / 4096 * 4096 = memoryEnd extMemK := by
      omega
    rw [exact]
    rfl
  case exact =>
    intro page inMain
    have aboveLow : lowMemPage ≤ page := by
      have lower := inMain.1
      unfold lowMemPage
      omega
    have unmapped : (booted extMemK memory).entryRefs page = 0 := by
      rw [entryRefs, occurrences_eq_zero_iff]
      intro slot member mapped
      rw [noEntry member] at mapped
      cases mapped
    have untabled : (booted extMemK memory).tableRefs page = 0 := by
      rw [tableRefs, occurrences_eq_zero_iff]
      intro dir member pointsTo
      rw [noTable member] at pointsTo
      cases pointsTo
    rw [memMap_booted extMemK memory aboveLow, if_pos inMain, unmapped, untabled]
    rfl
  case reserved =>
    intro index _ outside
    have stands :=
      memMap_booted extMemK memory (Nat.le_add_left lowMemPage index)
    rwa [Nat.add_sub_cancel, if_neg outside] at stands
  case tableMain =>
    intro dir member table pointsTo
    rw [noTable member] at pointsTo
    cases pointsTo
  case tableSingle =>
    intro dir member table pointsTo
    rw [noTable member] at pointsTo
    cases pointsTo
  case entryMain =>
    intro slot member page mapped
    rw [noEntry member] at mapped
    cases mapped
  case aligned =>
    intro first member _ _ page mapped
    rw [noEntry member] at mapped
    cases mapped
  case heldMain =>
    intro page isHeld
    omega
  case heldSingle =>
    intro page isHeld
    omega
  case writableSingle =>
    intro slot member entry mapped
    rw [entryAt_booted extMemK memory member] at mapped
    cases mapped
  case kernelDir =>
    rfl
  case kernelEntries =>
    intro index inRange
    unfold booted memInit setupPaging
    simp

end Booting

/-! ## The calls of a run -/

/-- The memory manager and the references that the kernel itself keeps. -/
structure Kernel where
  memory : Memory
  held : Nat → Nat

/-- Run a routine of `mm/memory.c`. -/
def Kernel.onMemory
    {α : Type}
    (routine : Routine Memory α) :
    Routine Kernel α :=
  zoom Kernel.memory
    (fun memory kernel => { kernel with memory := memory }) routine

/-- The kernel's own reference to a page, obtained or given up. -/
def Kernel.keep
    (page count : Nat)
    (kernel : Kernel) : Kernel :=
  { kernel with held := Function.update kernel.held page count }

/-- The calls into `mm/memory.c`, with their arguments. -/
inductive PageCall where
  | getFreePage
  | freePage (page : Nat)
  /-- `bread_page` and the zeroing after it, into a page just obtained. -/
  | fillPage (page : Nat) (contents : Page)
  | putPage (page address : Nat)
  | getEmptyPage (address : Nat)
  | copyMem (segments : Segments) (parent child : Nat)
  | freePageTables (task size : Nat)
  | unWpPage (dir index : Nat)
  | tryToShare (address task current : Nat)
  /-- A user program's store, with the `do_wp_page` that it may need. -/
  | userWrite (task offset : Nat) (value : Byte)

namespace PageCall

/-- When the kernel makes a call. -/
def Enabled : PageCall → Kernel → Prop
  | getFreePage, _ => True
  | freePage page, kernel => 0 < kernel.held page
  | fillPage page _, kernel => 0 < kernel.held page
  | putPage page address, kernel =>
    0 < kernel.held page ∧
      (dirIndex address, tableIndex address) ∈ userEntries ∧
      kernel.memory.entryAt (dirIndex address, tableIndex address) = none
  | getEmptyPage address, kernel =>
    (dirIndex address, tableIndex address) ∈ userEntries ∧
      kernel.memory.entryAt (dirIndex address, tableIndex address) = none
  | copyMem segments parent child, kernel =>
    0 < child ∧ child < 64 ∧ parent < 64 ∧ parent ≠ child ∧
      segments.dataBase = parent * slotSize ∧
      segments.codeBase = parent * slotSize ∧
      segments.codeLimit ≤ segments.dataLimit ∧
      segments.dataLimit ≤ slotSize ∧
      -- task 0 has the 640 kB segments of `INIT_TASK`
      (parent = 0 → segments.dataLimit ≤ 0xA0000) ∧
      ∀ dir, InSlot child dir → kernel.memory.tableOf dir = none
  | freePageTables task size, _ => 0 < task ∧ task < 64 ∧ size ≤ slotSize
  | unWpPage dir index, kernel =>
    (dir, index) ∈ userEntries ∧
      ∃ entry, kernel.memory.entryAt (dir, index) = some entry
  | tryToShare address task current, kernel =>
    address < slotSize ∧ 0 < task ∧ task < 64 ∧ 0 < current ∧
      current < 64 ∧ task ≠ current ∧
      kernel.memory.entryAt
          (current * 16 + dirIndex address, tableIndex address) =
        none
  | userWrite task offset _, kernel =>
    0 < task ∧ task < 64 ∧ offset < slotSize ∧
      ∃ entry, kernel.memory.entryAt (slotOf task offset) = some entry

/-- What a call does. -/
def perform : PageCall → Routine Kernel Unit
  | getFreePage => do
      let page ← Kernel.onMemory Memory.getFreePage
      update fun kernel => if page = 0 then kernel else kernel.keep page 1
  | freePage page => do
      Kernel.onMemory (Memory.freePage page)
      update (Kernel.keep page 0)
  | fillPage page contents => Kernel.onMemory (update (storePage page contents))
  | putPage page address => do
      let placed ← Kernel.onMemory (Memory.putPage page address)
      update fun kernel => if placed = 0 then kernel else kernel.keep page 0
  | getEmptyPage address => Kernel.onMemory (Memory.getEmptyPage address)
  | copyMem segments _ child => do
      let _ ← Kernel.onMemory (Memory.copyMem segments child)
      pure ()
  | freePageTables task size => do
      let _ ←
        Kernel.onMemory (Memory.freePageTables (task * slotSize) size)
      pure ()
  | unWpPage dir index => do
      let kernel ← read
      Kernel.onMemory
        (Memory.unWpPage (kernel.memory.ram 0 dir).frame index)
  | tryToShare address task current => do
      let _ ←
        Kernel.onMemory
          (Memory.tryToShare address (task * slotSize)
            (current * slotSize))
      pure ()
  | userWrite task offset value =>
    Kernel.onMemory
      (Memory.userWrite (task * slotSize + offset) value)

end PageCall

/-- The memory manager of a machine with `extMemK` kilobytes above 1 MB. -/
def pageMachine (extMemK : Nat) : Machine Kernel PageCall where
  initial kernel :=
    (∃ memory, kernel.memory = booted extMemK memory) ∧ ∀ page, kernel.held page = 0
  enabled := PageCall.Enabled
  perform := PageCall.perform

/-- The accounting invariant between the bounds that `main` computes. -/
def Kernel.Accounted
    (extMemK : Nat)
    (kernel : Kernel) : Prop :=
  Memory.Accounted (mainMemoryStart extMemK / 4096)
    (memoryEnd extMemK / 4096) kernel.held kernel.memory

/-- A call that returned leads to a reachable state. -/
theorem reachable_call
    {extMemK : Nat} {kernel after : Kernel} {call : PageCall}
    (reached : (pageMachine extMemK).Reachable kernel)
    (enabled : call.Enabled kernel)
    (outcome : call.perform kernel = .ret () after) :
    (pageMachine extMemK).Reachable after :=
  reached.step (Machine.Step.returned enabled outcome)

theorem initial_accounted
    {extMemK : Nat} {kernel : Kernel}
    (initial : (pageMachine extMemK).initial kernel) :
    kernel.Accounted extMemK := by
  obtain ⟨⟨memory, shape⟩, nothingHeld⟩ := initial
  have noneHeld : kernel.held = fun _ => 0 := by
    funext page
    exact nothingHeld page
  unfold Kernel.Accounted
  rw [shape, noneHeld]
  exact booted_accounted extMemK memory

/-! ## What one call preserves -/

section Calls

variable {extMemK : Nat} {kernel : Kernel}

/-- A routine of `mm/memory.c` that leaves the kernel's references alone. -/
theorem satisfies_onMemory
    {α : Type} {routine : Routine Memory α}
    {returned : α → Memory → Prop}
    (satisfied :
      routine.Satisfies kernel.memory returned
        (Memory.Accounted (mainMemoryStart extMemK / 4096)
          (memoryEnd extMemK / 4096) kernel.held))
    (counted :
      ∀ value after, returned value after →
        Memory.Accounted (mainMemoryStart extMemK / 4096)
          (memoryEnd extMemK / 4096) kernel.held after) :
    (Kernel.onMemory routine).Satisfies kernel
      (fun _ after => after.Accounted extMemK)
      (fun after => after.Accounted extMemK) := by
  unfold Kernel.onMemory
  rw [satisfies_zoom]
  exact satisfied.mono counted (fun _ same => same)

theorem performs_getFreePage
    (accounted : kernel.Accounted extMemK) :
    PageCall.getFreePage.perform.Satisfies kernel
      (fun _ after => after.Accounted extMemK)
      (fun after => after.Accounted extMemK) := by
  unfold PageCall.perform Kernel.onMemory
  rw [satisfies_bind, satisfies_zoom]
  refine (satisfies_getFreePage accounted).mono ?_
    (fun _ same => same)
  rintro page _ (⟨rfl, rfl, _⟩ | ⟨inMain, free, rfl⟩)
  · rw [satisfies_update, if_pos rfl]
    exact accounted
  · have notZero := Accounted.ne_zero_of_main accounted inMain
    rw [satisfies_update, if_neg notZero]
    exact Accounted.taken_accounted accounted inMain free

theorem performs_freePage
    {page : Nat}
    (accounted : kernel.Accounted extMemK)
    (isHeld : 0 < kernel.held page) :
    (PageCall.freePage page).perform.Satisfies kernel
      (fun _ after => after.Accounted extMemK)
      (fun after => after.Accounted extMemK) := by
  unfold PageCall.perform Kernel.onMemory
  rw [satisfies_bind, satisfies_zoom]
  refine (satisfies_freePage_held accounted isHeld).mono ?_
    (fun _ same => same)
  rintro _ after ⟨freed, _⟩
  exact freed

theorem performs_putPage
    {page address : Nat}
    (accounted : kernel.Accounted extMemK)
    (isHeld : 0 < kernel.held page)
    (slotMember : (dirIndex address, tableIndex address) ∈ userEntries)
    (empty :
      kernel.memory.entryAt (dirIndex address, tableIndex address) = none) :
    (PageCall.putPage page address).perform.Satisfies kernel
      (fun _ after => after.Accounted extMemK)
      (fun after => after.Accounted extMemK) := by
  unfold PageCall.perform Kernel.onMemory
  rw [satisfies_bind, satisfies_zoom]
  refine (satisfies_putPage accounted slotMember empty isHeld).mono ?_
    (fun _ same => same)
  rintro value after (⟨rfl, placed⟩ | ⟨rfl, rfl, _⟩)
  · have notZero :=
      Accounted.ne_zero_of_main accounted
        (Memory.Accounted.heldMain accounted value isHeld)
    rw [satisfies_update, if_neg notZero]
    exact placed.accounted
  · rw [satisfies_update, if_pos rfl]
    exact accounted

theorem performs_getEmptyPage
    {address : Nat}
    (accounted : kernel.Accounted extMemK)
    (slotMember : (dirIndex address, tableIndex address) ∈ userEntries)
    (empty :
      kernel.memory.entryAt (dirIndex address, tableIndex address) = none) :
    (PageCall.getEmptyPage address).perform.Satisfies kernel
      (fun _ after => after.Accounted extMemK)
      (fun after => after.Accounted extMemK) := by
  apply satisfies_onMemory
  · exact (satisfies_getEmptyPage accounted slotMember empty).mono
      (fun _ _ same => same) (fun _ kept => kept.1)
  · rintro _ after ⟨page, _, _, placed, _, notHeld⟩
    have restored := placed.accounted
    rwa [Accounted.held_restored notHeld] at restored

theorem performs_unWpPage
    {dir index : Nat} {entry : Word}
    (accounted : kernel.Accounted extMemK)
    (slotMember : (dir, index) ∈ userEntries)
    (mapped : kernel.memory.entryAt (dir, index) = some entry) :
    (PageCall.unWpPage dir index).perform.Satisfies kernel
      (fun _ after => after.Accounted extMemK)
      (fun after => after.Accounted extMemK) := by
  unfold PageCall.perform
  rw [satisfies_bind, satisfies_read]
  cases pointsTo : kernel.memory.tableOf dir with
  | none =>
    rw [entryAt_of_no_table pointsTo] at mapped
    cases mapped
  | some table =>
    have sameTable : (kernel.memory.ram 0 dir).frame = table := by
      rw [tableOf, Option.map_eq_some_iff] at pointsTo
      obtain ⟨word, isEntry, frameShape⟩ := pointsTo
      rwa [(entryOf_eq_some.mp isEntry).2]
    rw [sameTable]
    apply satisfies_onMemory
    · exact satisfies_unWpPage accounted slotMember pointsTo mapped
        accounted
    · rintro _ after ⟨_, unshared⟩
      exact unshared.accounted

/-- The segments of `INIT_TASK` are below those that `copy_page_tables` takes. -/
theorem copyable_of_enabled
    {segments : Segments} {parent child : Nat} {kernel : Kernel}
    (enabled : (PageCall.copyMem segments parent child).Enabled kernel) :
    MemCopyable segments parent child kernel.memory := by
  obtain ⟨notSwapper, childRange, parentRange, different, dataBase, codeBase,
    limits, inSlot, firstFork, empty⟩ := enabled
  exact ⟨notSwapper, childRange, parentRange, different, dataBase, codeBase,
    limits, inSlot, fun zero => by have small := firstFork zero; omega, empty⟩

/-- Every call keeps the counts exact, also when it abandons its task. -/
theorem preserves_accounted
    (extMemK : Nat) :
    (pageMachine extMemK).Preserves (Kernel.Accounted extMemK) := by
  intro call kernel accounted enabled
  change call.Enabled kernel at enabled
  change call.perform.Satisfies kernel _ _
  cases call with
  | getFreePage =>
    exact performs_getFreePage accounted
  | freePage page =>
    exact performs_freePage accounted enabled
  | fillPage page contents =>
    have refs := Accounted.held_refs accounted enabled
    have aboveLow :=
      Accounted.above_low accounted
        (Memory.Accounted.heldMain accounted page enabled)
    exact Accounted.storeContents accounted aboveLow refs.2.1
  | putPage page address =>
    obtain ⟨isHeld, slotMember, empty⟩ := enabled
    exact performs_putPage accounted isHeld slotMember empty
  | getEmptyPage address =>
    obtain ⟨slotMember, empty⟩ := enabled
    exact performs_getEmptyPage accounted slotMember empty
  | copyMem segments parent child =>
    unfold PageCall.perform
    refine Satisfies.andThen (satisfies_onMemory
      (satisfies_copyMem accounted (copyable_of_enabled enabled))
      (fun _ _ copied => copied.accounted)) ?_
    exact fun _ _ kept => kept
  | freePageTables task size =>
    obtain ⟨notSwapper, inTable, inSlot⟩ := enabled
    unfold PageCall.perform
    refine Satisfies.andThen (satisfies_onMemory
      (satisfies_freePageTables accounted notSwapper inTable inSlot)
      (fun _ _ released => released.2.accounted)) ?_
    exact fun _ _ kept => kept
  | unWpPage dir index =>
    obtain ⟨slotMember, entry, mapped⟩ := enabled
    exact performs_unWpPage accounted slotMember mapped
  | tryToShare address task current =>
    obtain ⟨inSlot, taskUser, taskRange, currentUser, currentRange,
      different, empty⟩ := enabled
    unfold PageCall.perform
    refine Satisfies.andThen (satisfies_onMemory
      (satisfies_tryToShare accounted inSlot taskUser taskRange
        currentUser currentRange different empty accounted) ?_) ?_
    · rintro _ after (⟨_, rfl⟩ | ⟨_, _, shared⟩)
      · exact accounted
      · exact shared.accounted
    · exact fun _ _ kept => kept
  | userWrite task offset value =>
    obtain ⟨taskUser, taskRange, inSlot, entry, mapped⟩ := enabled
    have slotMember := slotOf_mem taskUser taskRange inSlot
    rw [← slotOf_address taskRange inSlot] at slotMember mapped
    unfold PageCall.perform
    apply satisfies_onMemory
    · exact satisfies_userWrite accounted slotMember mapped accounted
    · rintro _ after ⟨_, written⟩
      exact written.accounted

end Calls

/-! ## The reachable states -/

/-- The references to a page: by entries, by directory entries, by the kernel. -/
def Kernel.references (kernel : Kernel) (page : Nat) : Nat :=
  kernel.memory.entryRefs page + kernel.memory.tableRefs page + kernel.held page

/-- A page of main memory has far fewer than 256 references. -/
theorem references_le
    {extMemK : Nat} {kernel : Kernel}
    (accounted : kernel.Accounted extMemK)
    {page : Nat}
    (inMain :
      InMain (mainMemoryStart extMemK / 4096)
        (memoryEnd extMemK / 4096) page) :
    kernel.references page ≤ 63 := by
  have aboveLow := Accounted.above_low accounted inMain
  have entries := Accounted.entryRefs_le accounted aboveLow
  unfold Kernel.references
  by_cases isHeld : 0 < kernel.held page
  · have refs := Accounted.held_refs accounted isHeld
    omega
  · by_cases isTable : 0 < kernel.memory.tableRefs page
    · rw [tableRefs, occurrences, Finset.card_pos] at isTable
      obtain ⟨dir, member⟩ := isTable
      rw [Finset.mem_filter] at member
      have refs := Accounted.table_refs accounted member.1 member.2
      omega
    · omega

/-- A page that `get_free_page` hands out lies in main memory. -/
theorem handed_out_main
    {extMemK : Nat} {kernel : Kernel}
    (accounted : kernel.Accounted extMemK)
    {page : Nat} {after : Memory}
    (handedOut : getFreePage kernel.memory = .ret page after)
    (notZero : page ≠ 0) :
    InMain (mainMemoryStart extMemK / 4096)
        (memoryEnd extMemK / 4096) page ∧
      kernel.memory.memMap (page - lowMemPage) = 0#8 := by
  have satisfied :
      getFreePage.Satisfies kernel.memory _ (fun _ => True) :=
    satisfies_getFreePage accounted
  rcases satisfied.of_ret handedOut with ⟨zero, _⟩ | ⟨inMain, free, _⟩
  · exact absurd zero notZero
  · exact ⟨inMain, free⟩

/-- `get_free_page` hands out pages that nothing refers to. -/
theorem handed_out_unreferenced
    {extMemK : Nat} {kernel : Kernel}
    (accounted : kernel.Accounted extMemK)
    {page : Nat} {after : Memory}
    (handedOut : getFreePage kernel.memory = .ret page after)
    (notZero : page ≠ 0) :
    kernel.references page = 0 := by
  obtain ⟨inMain, free⟩ := handed_out_main accounted handedOut notZero
  have refs := Accounted.free_refs accounted inMain free
  unfold Kernel.references
  omega

/--
In every reachable state `mem_map` counts the references to every page of main
memory and no counter is near its limit; a page that `get_free_page` hands out
has no reference, the other counters are `USED`, and no call panics.
-/
theorem memMap_exact
    {extMemK : Nat} {kernel : Kernel}
    (reached : (pageMachine extMemK).Reachable kernel) :
    (∀ page,
        mainMemoryStart extMemK ≤ page * 4096 →
        page * 4096 < memoryEnd extMemK →
          (kernel.memory.memMap (page - lowMemPage)).toNat =
              kernel.memory.entryRefs page +
                kernel.memory.tableRefs page + kernel.held page ∧
            kernel.references page ≤ 63) ∧
      (∀ index, index < pagingPages →
        ¬ InMain (mainMemoryStart extMemK / 4096)
            (memoryEnd extMemK / 4096) (index + lowMemPage) →
          kernel.memory.memMap index = used) ∧
      (∀ page after,
        getFreePage kernel.memory = .ret page after → page ≠ 0 →
          mainMemoryStart extMemK ≤ page * 4096 ∧ kernel.references page = 0) ∧
      ∀ call : PageCall, call.Enabled kernel → ∀ message,
        call.perform kernel ≠ .panic message := by
  have accounted : kernel.Accounted extMemK :=
    reached.invariant (fun _ => initial_accounted)
      (preserves_accounted extMemK)
  have start := mainMemoryStart_bounds extMemK
  have stop := memoryEnd_bounds extMemK
  refine ⟨?_, Memory.Accounted.reserved accounted, ?_, ?_⟩
  · intro page lower upper
    have inMain :
        InMain (mainMemoryStart extMemK / 4096)
          (memoryEnd extMemK / 4096) page := by
      unfold InMain
      omega
    exact ⟨Memory.Accounted.exact accounted page inMain, references_le accounted inMain⟩
  · intro page after handedOut notZero
    refine ⟨?_, handed_out_unreferenced accounted handedOut notZero⟩
    have lower := (handed_out_main accounted handedOut notZero).1.1
    omega
  · intro call enabled message
    exact reached.not_panic (fun _ => initial_accounted)
      (preserves_accounted extMemK) enabled message

/-- A machine with 16 MB, before the first fork. -/
def swapper : Kernel where
  memory := booted 15360 ⟨fun _ _ => 0#32, fun _ => 0#8, 0⟩
  held := fun _ => 0

theorem swapper_reachable :
    (pageMachine 15360).Reachable swapper :=
  .start ⟨⟨_, rfl⟩, fun _ => rfl⟩

/-- The segments of task 0. -/
def swapperSegments : Segments where
  codeBase := 0
  dataBase := 0
  codeLimit := 0xA0000
  dataLimit := 0xA0000

/-- The fork of `init`. -/
def firstFork : Outcome Memory Int :=
  copyMem swapperSegments 1 swapper.memory

/-- The state after the first fork is reachable. -/
theorem firstFork_reachable
    {value : Int} {memory : Memory}
    (forked : firstFork = .ret value memory) :
    (pageMachine 15360).Reachable ⟨memory, swapper.held⟩ := by
  have enabled :
      (PageCall.copyMem swapperSegments 0 1).Enabled swapper := by
    refine ⟨by decide, by decide, by decide, by decide, rfl, rfl,
      Nat.le_refl _, by decide, fun _ => Nat.le_refl _, ?_⟩
    rintro dir ⟨lower, upper⟩
    apply tableOf_booted
    rw [mem_userDirs]
    omega
  have copied :
      Kernel.onMemory (copyMem swapperSegments 1) swapper =
        .ret value ⟨memory, swapper.held⟩ :=
    zoom_of_ret forked
  exact reachable_call swapper_reachable enabled (bind_of_ret copied)

/-- The page table that the first fork has got is the last page of memory. -/
def forkedTest (value : Int) (memory : Memory) : Bool :=
  value == 0 && memory.memMap (0xFFF - lowMemPage) == 1#8

set_option maxRecDepth 100000 in
theorem firstFork_forked :
    firstFork.passes forkedTest = true := by
  decide +kernel

theorem memMap_exact_forked :
    ∃ kernel, (pageMachine 15360).Reachable kernel ∧
      kernel.references 0xFFF = 1 ∧
      ∀ page,
        mainMemoryStart 15360 ≤ page * 4096 →
        page * 4096 < memoryEnd 15360 →
          (kernel.memory.memMap (page - lowMemPage)).toNat =
              kernel.memory.entryRefs page +
                kernel.memory.tableRefs page + kernel.held page ∧
            kernel.references page ≤ 63 := by
  obtain ⟨value, memory, forked, passed⟩ :=
    Outcome.passes_iff.mp firstFork_forked
  unfold forkedTest at passed
  simp only [Bool.and_eq_true, beq_iff_eq] at passed
  have reached := firstFork_reachable forked
  have counts := (memMap_exact reached).1
  refine ⟨⟨memory, swapper.held⟩, reached, ?_, counts⟩
  have table := (counts 0xFFF (by decide) (by decide)).1
  rw [passed.2] at table
  exact table.symm

end Memory

end HitOs
