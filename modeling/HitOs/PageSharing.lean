import HitOs.UserStores

namespace HitOs

/-!
# Loading pages of an executable

`do_no_page` loads a page of the executable file, zeroes what lies beyond the
initialised data, and maps it.  Before that it tries to share the page of
another task that runs the same file.
-/

/-- An executable file, as `bmap` and `bread_page` present it. -/
structure Executable where
  /-- The contents of a block of the file; `none` for a hole. -/
  block : Nat → Option (Nat → Byte)
  /-- `end_data` -/
  endData : Nat

namespace Executable

/--
The byte that `do_no_page` loads for an offset: block 1 of the file is the first
block after the header, and bytes from `end_data` on are zeroed.
-/
def loaded (program : Executable) (offset : Nat) : Byte :=
  if offset < program.endData then
    match program.block (1 + offset / 1024) with
    | none => 0#8
    | some bytes => bytes (offset % 1024)
  else
    0#8

/-- The page of the file at an offset has initialised data. -/
def Covers (program : Executable) (offset : Nat) : Prop :=
  offset / 4096 * 4096 < program.endData

end Executable

/-- A page with the given bytes. -/
def pageOfBytes (bytes : Nat → Byte) : Page :=
  fun index => Word.ofBytes fun lane => bytes (4 * index + lane)

theorem pageByte_pageOfBytes
    (bytes : Nat → Byte)
    (offset : Nat) :
    pageByte (pageOfBytes bytes) offset = bytes offset := by
  unfold pageByte pageOfBytes
  rw [Word.byte_ofBytes _ (by omega)]
  congr 1
  omega

/-- `bread_page`: four blocks, from block `first` on; holes leave the page alone. -/
def breadPage (program : Executable) (first : Nat) (page : Page) : Page :=
  pageOfBytes fun offset =>
    match program.block (first + offset / 1024) with
    | none => pageByte page offset
    | some bytes => bytes (offset % 1024)

/-- The loop that zeroes the end of the page, from the offset `tmp` of the page. -/
def zeroTail (program : Executable) (tmp : Nat) (page : Page) : Page :=
  pageOfBytes fun offset =>
    if program.endData ≤ tmp + offset then 0#8 else pageByte page offset

namespace Memory

open Routine

/--
The end of `do_no_page` for the page offset `tmp` of a task, once
`get_free_page` has handed out `page`.
-/
def finishNoPage
    (program : Executable)
    (task tmp page : Nat) : Routine Memory Unit := do
  update fun memory =>
    storePage page (breadPage program (1 + tmp / 1024) (memory.ram page))
      memory
  update fun memory =>
    storePage page (zeroTail program tmp (memory.ram page)) memory
  let placed ← putPage page (task * slotSize + tmp)
  if placed = 0 then do
    freePage page
    abandon
  else
    pure ()

/-- A cleared page becomes the page of the executable. -/
theorem loaded_page
    (program : Executable)
    {page : Page} {tmp offset : Nat}
    (cleared : page = fun _ => 0#32)
    (aligned : tmp % 4096 = 0) :
    pageByte
        (zeroTail program tmp
          (breadPage program (1 + tmp / 1024) page)) offset =
      program.loaded (tmp + offset) := by
  have zero : pageByte page offset = 0#8 := by
    rw [cleared]
    unfold pageByte Word.byte
    simp
  have block :
      1 + tmp / 1024 + offset / 1024 = 1 + (tmp + offset) / 1024 := by
    omega
  have position : (tmp + offset) % 1024 = offset % 1024 := by
    omega
  unfold zeroTail Executable.loaded
  rw [pageByte_pageOfBytes]
  by_cases beyond : program.endData ≤ tmp + offset
  · rw [if_pos beyond, if_neg (by omega)]
  · rw [if_neg beyond, if_pos (by omega), breadPage,
      pageByte_pageOfBytes, block, position, zero]

variable {low high : Nat} {held : Nat → Nat} {memory after : Memory}

/-- Filling a page that the kernel holds. -/
structure Filled
    (low high : Nat)
    (held : Nat → Nat)
    (page : Nat)
    (contents : Page)
    (memory after : Memory) : Prop where
  accounted :
    Accounted low high held after
  entries :
    ∀ slot ∈ userEntries, after.entryAt slot = memory.entryAt slot
  self :
    after.ram page = contents
  ram :
    ∀ other, other ≠ page → after.ram other = memory.ram other

theorem filled_storePage
    (accounted : Accounted low high held memory)
    {page : Nat}
    (isHeld : 0 < held page)
    (contents : Page) :
    Filled low high held page contents memory
      (storePage page contents memory) := by
  have refs := accounted.held_refs isHeld
  have aboveLow := accounted.above_low (accounted.heldMain page isHeld)
  refine ⟨accounted.storeContents aboveLow refs.2.1, ?_, ?_, ?_⟩
  · intro slot member
    exact Accounted.entryAt_storePage aboveLow refs.2.1 member
  · rw [ram_storePage, if_pos rfl]
  · intro other different
    rw [ram_storePage, if_neg different]

theorem Filled.trans
    {page : Nat} {first second : Page} {middle : Memory}
    (before : Filled low high held page first memory middle)
    (continuation : Filled low high held page second middle after) :
    Filled low high held page second memory after := by
  refine ⟨continuation.accounted, ?_, continuation.self, ?_⟩
  · intro slot member
    rw [continuation.entries slot member, before.entries slot member]
  · intro other different
    rw [continuation.ram other different, before.ram other different]

theorem Filled.kept
    {page other : Nat} {contents : Page}
    (filled : Filled low high held page contents memory after)
    (kept : Kept held memory other) :
    Kept held after other := by
  have sameRefs : after.entryRefs other = memory.entryRefs other :=
    occurrences_congr
      (fun slot member => frameAt_congr (filled.entries slot member)) other
  unfold Kept
  rw [sameRefs]
  exact kept

/-- What the end of `do_no_page` has done when it mapped the page. -/
structure Loaded
    (low high : Nat)
    (held : Nat → Nat)
    (program : Executable)
    (task tmp page : Nat)
    (memory after : Memory) : Prop where
  accounted :
    Accounted low high (Function.update held page 0) after
  main :
    InMain low high page
  self :
    after.entryAt (slotOf task tmp) = some (Word.userEntry page)
  others :
    ∀ slot ∈ userEntries, slot ≠ slotOf task tmp →
      after.entryAt slot = memory.entryAt slot
  contents :
    ∀ offset, pageByte (after.ram page) offset = program.loaded (tmp + offset)
  ram :
    ∀ other, other ≠ 0 → other ≠ page → Kept held memory other →
      after.ram other = memory.ram other

/-- What it has done when there was no room for a page table. -/
structure NotLoaded
    (low high : Nat)
    (held : Nat → Nat)
    (page : Nat)
    (memory after : Memory) : Prop where
  accounted :
    Accounted low high (Function.update held page 0) after
  entries :
    ∀ slot ∈ userEntries, after.entryAt slot = memory.entryAt slot
  ram :
    ∀ other, other ≠ page → after.ram other = memory.ram other

theorem entryAt_of_ram
    (same : after.ram = memory.ram)
    (slot : Nat × Nat) :
    after.entryAt slot = memory.entryAt slot := by
  unfold entryAt tableOf
  rw [same]

theorem satisfies_finishNoPage
    (accounted : Accounted low high held memory)
    {program : Executable} {task tmp page : Nat}
    (taskUser : 0 < task)
    (taskRange : task < 64)
    (inSlot : tmp < slotSize)
    (aligned : tmp % 4096 = 0)
    (isHeld : 0 < held page)
    (cleared : memory.ram page = fun _ => 0#32)
    (empty : memory.entryAt (slotOf task tmp) = none) :
    Satisfies (finishNoPage program task tmp page) memory
      (fun _ after =>
        Loaded low high held program task tmp page memory after)
      (fun after => NotLoaded low high held page memory after) := by
  have sameSlot := slotOf_address taskRange inSlot
  have member := slotOf_mem taskUser taskRange inSlot
  have inMain := accounted.heldMain page isHeld
  have notZero := accounted.ne_zero_of_main inMain
  unfold finishNoPage
  rw [satisfies_bind, satisfies_update, satisfies_bind, satisfies_update]
  have first :=
    filled_storePage accounted isHeld
      (breadPage program (1 + tmp / 1024) (memory.ram page))
  have second :=
    filled_storePage first.accounted isHeld
      (zeroTail program tmp
        ((storePage page
          (breadPage program (1 + tmp / 1024) (memory.ram page))
          memory).ram page))
  have filled := first.trans second
  rw [first.self] at second filled
  rw [first.self]
  obtain ⟨middle, middleShape⟩ :
      ∃ middle, middle =
        storePage page
          (zeroTail program tmp
            (breadPage program (1 + tmp / 1024) (memory.ram page)))
          (storePage page
            (breadPage program (1 + tmp / 1024) (memory.ram page))
            memory) :=
    ⟨_, rfl⟩
  rw [← middleShape] at filled ⊢
  have stillEmpty := (filled.entries _ member).trans empty
  have places :
      (putPage page (task * slotSize + tmp)).Satisfies middle _
        (NotLoaded low high held page memory) :=
    satisfies_putPage filled.accounted (sameSlot ▸ member)
      (sameSlot ▸ stillEmpty) isHeld
  refine Satisfies.andThen places ?_
  rintro value last (⟨rfl, placed⟩ | ⟨rfl, rfl, _⟩)
  · rw [if_neg notZero, satisfies_pure]
    have self := placed.self
    have others := placed.others
    rw [sameSlot] at self others
    refine ⟨placed.accounted, inMain, self, ?_, ?_, ?_⟩
    · intro slot slotMember different
      rw [others slot slotMember different, filled.entries slot slotMember]
    · intro offset
      rw [placed.contents, filled.self]
      exact loaded_page program cleared aligned
    · intro other otherNotZero different kept
      rw [placed.data other otherNotZero (filled.kept kept), filled.ram other different]
  · rw [if_pos rfl]
    refine Satisfies.andThen
      (satisfies_freePage_held filled.accounted isHeld) ?_
    rintro _ freed ⟨freedAccounted, ram⟩
    rw [satisfies_abandon]
    refine ⟨freedAccounted, ?_, ?_⟩
    · intro slot slotMember
      rw [entryAt_of_ram ram, filled.entries slot slotMember]
    · intro other different
      rw [ram, filled.ram other different]

end Memory

end HitOs
