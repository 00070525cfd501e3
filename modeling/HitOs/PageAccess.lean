import HitOs.PageFaults

namespace HitOs

/-!
# What the processor does with the page tables

A task sees the bytes of the pages that its slot of the linear address space
maps.  The processor checks the present and write bits of a user access, calls
`do_wp_page` for a store to a page that is present and not writable, and sets
the dirty bit of the entry through which it stores.  A store in supervisor mode
ignores the write bit.
-/

/-- A byte of a page. -/
def pageByte (page : Page) (offset : Nat) : Byte :=
  Word.byte (page (offset / 4)) (offset % 4)

/-- A page with one byte replaced. -/
def setPageByte (page : Page) (offset : Nat) (value : Byte) : Page :=
  Function.update page (offset / 4)
    (Word.setByte (page (offset / 4)) (offset % 4) value)

theorem pageByte_setPageByte
    (page : Page)
    (offset other : Nat)
    (value : Byte) :
    pageByte (setPageByte page offset value) other =
      if other = offset then value else pageByte page other := by
  unfold pageByte setPageByte
  by_cases sameWord : other / 4 = offset / 4
  · rw [sameWord, Function.update_self,
      Word.byte_setByte _ _ (by omega)]
    exact if_congr (by omega) rfl rfl
  · rw [Function.update_of_ne sameWord, if_neg]
    rintro rfl
    exact sameWord rfl

namespace Memory

open Routine

/-! ## A task's view of its slot -/

/-- The directory and table index of an offset in a task's slot. -/
def slotOf (task offset : Nat) : Nat × Nat :=
  (task * 16 + dirIndex offset, tableIndex offset)

/-- The byte that a task reads at an offset in its slot. -/
def view (memory : Memory) (task offset : Nat) : Option Byte :=
  (memory.frameAt (slotOf task offset)).map fun page =>
    pageByte (memory.ram page) (offset % 4096)

section Slots

variable {task offset other otherOffset : Nat}

theorem slotOf_address
    (inTable : task < 64)
    (inSlot : offset < slotSize) :
    (dirIndex (task * slotSize + offset),
        tableIndex (task * slotSize + offset)) =
      slotOf task offset := by
  unfold slotSize at *
  unfold slotOf dirIndex tableIndex
  refine Prod.ext ?_ ?_
  · simp only
    omega
  · simp only
    omega

theorem slotOf_mem
    (notSwapper : 0 < task)
    (inTable : task < 64)
    (inSlot : offset < slotSize) :
    slotOf task offset ∈ userEntries := by
  unfold slotSize at inSlot
  unfold slotOf
  rw [mem_userEntries]
  unfold dirIndex tableIndex
  omega

theorem slotOf_eq_iff
    (inSlot : offset < slotSize)
    (otherInSlot : otherOffset < slotSize) :
    slotOf task offset = slotOf other otherOffset ↔
      task = other ∧ offset / 4096 = otherOffset / 4096 := by
  unfold slotSize at *
  unfold slotOf dirIndex tableIndex
  rw [Prod.mk.injEq]
  omega

end Slots

variable {low high : Nat} {held : Nat → Nat} {memory : Memory}
variable {abandoned : Memory → Prop}

theorem view_of_entry
    {task offset : Nat} {entry : Word}
    (mapped : memory.entryAt (slotOf task offset) = some entry) :
    memory.view task offset =
      some (pageByte (memory.ram entry.frame) (offset % 4096)) := by
  rw [view, frameAt_of_entry mapped]
  rfl

theorem view_of_empty
    {task offset : Nat}
    (empty : memory.entryAt (slotOf task offset) = none) :
    memory.view task offset = none := by
  rw [view, frameAt, empty]
  rfl

/-- A view depends on the entry and on the contents of the page it maps. -/
theorem view_congr
    {after : Memory} {task offset other : Nat}
    (sameFrame :
      after.frameAt (slotOf other offset) = memory.frameAt (slotOf task offset))
    (sameContents :
      ∀ page, memory.frameAt (slotOf task offset) = some page →
        after.ram page = memory.ram page) :
    after.view other offset = memory.view task offset := by
  unfold view
  rw [sameFrame]
  cases mapped : memory.frameAt (slotOf task offset) with
  | none =>
    rfl
  | some page =>
    rw [Option.map_some, Option.map_some, sameContents page mapped]

/-! ## Stores -/

/-- A store through the entry of an address, whatever its write bit. -/
def storeByte (address : Nat) (value : Byte) : Routine Memory Unit :=
  update fun memory =>
    let table := (memory.ram 0 (dirIndex address)).frame
    let entry := memory.ram table (tableIndex address)
    let dirtied := store table (tableIndex address) (Word.markDirty entry) memory
    storePage (Word.frame entry)
      (setPageByte (dirtied.ram (Word.frame entry)) (address % 4096) value)
      dirtied

/-- A store by a user program to a page that is present. -/
def userWrite (address : Nat) (value : Byte) : Routine Memory Unit := do
  let memory ← read
  let table := (memory.ram 0 (dirIndex address)).frame
  if Word.writable (memory.ram table (tableIndex address)) then
    storeByte address value
  else
    doWpPage address
    storeByte address value

/-- What a store through an entry has done. -/
structure Stored
    (low high : Nat)
    (held : Nat → Nat)
    (slot : Nat × Nat)
    (entry : Word)
    (offset : Nat)
    (value : Byte)
    (memory after : Memory) : Prop where
  accounted :
    Accounted low high held after
  self :
    after.entryAt slot = some entry.markDirty
  others :
    ∀ other ∈ userEntries, other ≠ slot → after.entryAt other = memory.entryAt other
  tables :
    ∀ dir, after.tableOf dir = memory.tableOf dir
  contents :
    after.ram entry.frame = setPageByte (memory.ram entry.frame) offset value
  ram :
    ∀ page, page ≠ entry.frame →
      (∀ dir ∈ userDirs, memory.tableOf dir ≠ some page) →
      after.ram page = memory.ram page

theorem table_of_entry
    {dir index : Nat} {entry : Word}
    (mapped : memory.entryAt (dir, index) = some entry) :
    memory.tableOf dir = some (memory.ram 0 dir).frame ∧
      memory.ram (memory.ram 0 dir).frame index = entry := by
  cases isPresent : (memory.ram 0 dir).present with
  | false =>
    rw [entryAt_of_no_table (tableOf_of_absent isPresent)] at mapped
    cases mapped
  | true =>
    have pointsTo := tableOf_of_present isPresent
    rw [entryAt_of_table pointsTo] at mapped
    exact ⟨pointsTo, (entryOf_eq_some.mp mapped).2⟩

theorem satisfies_storeByte
    (accounted : Accounted low high held memory)
    {address : Nat} {value : Byte} {entry : Word}
    (slotMember : (dirIndex address, tableIndex address) ∈ userEntries)
    (mapped :
      memory.entryAt (dirIndex address, tableIndex address) = some entry)
    (aboveLow : lowMemPage ≤ entry.frame) :
    Satisfies (storeByte address value) memory
      (fun _ after =>
        Stored low high held (dirIndex address, tableIndex address)
          entry (address % 4096) value memory after)
      abandoned := by
  have dirMember := Accounted.slotDir slotMember
  have maps := frameAt_of_entry mapped
  obtain ⟨pointsTo, wordShape⟩ := table_of_entry mapped
  unfold storeByte
  rw [satisfies_update]
  simp only [wordShape]
  obtain ⟨dirtied, dirtiedShape⟩ :
      ∃ dirtied, dirtied =
        store (memory.ram 0 (dirIndex address)).frame
          (tableIndex address) entry.markDirty memory :=
    ⟨_, rfl⟩
  rw [← dirtiedShape]
  have ram := congrArg Memory.ram dirtiedShape
  have newPresent : entry.markDirty.present = true := by
    rw [Word.present_markDirty]
    exact entryAt_present mapped
  have dirtiedAccounted : Accounted low high held dirtied := by
    refine accounted.reflag slotMember pointsTo mapped newPresent
      (Word.frame_markDirty entry) ?_ dirtiedShape
    intro isWritable
    rw [Word.writable_markDirty] at isWritable
    exact accounted.writableSingle _ slotMember entry mapped isWritable
  have dirtiedTables :=
    accounted.tableOf_store dirMember pointsTo ram
  have dirtiedSelf :=
    (accounted.entryAt_store_self dirMember pointsTo ram).trans
      (entryOf_of_present newPresent)
  have unlinked : dirtied.tableRefs entry.frame = 0 := by
    have dirtiedMaps := frameAt_of_entry dirtiedSelf
    rw [Word.frame_markDirty] at dirtiedMaps
    exact (dirtiedAccounted.mapped_refs slotMember dirtiedMaps).1
  have sameRam {page : Nat}
      (notTable : ∀ dir ∈ userDirs, memory.tableOf dir ≠ some page) :
      dirtied.ram page = memory.ram page := by
    rw [ram, ram_store_of_ne]
    rintro rfl
    exact notTable _ dirMember pointsTo
  refine ⟨dirtiedAccounted.storeContents aboveLow unlinked, ?_, ?_, ?_, ?_, ?_⟩
  · rw [Accounted.entryAt_storePage aboveLow unlinked slotMember]
    exact dirtiedSelf
  · intro other member different
    rw [Accounted.entryAt_storePage aboveLow unlinked member]
    exact accounted.entryAt_store dirMember pointsTo ram member
      different
  · intro dir
    rw [Accounted.tableOf_storePage aboveLow]
    exact dirtiedTables dir
  · rw [ram_storePage, if_pos rfl,
      sameRam fun dir member points =>
        accounted.frameAt_ne_table member points slotMember maps]
  · intro page notFrame notTable
    rw [ram_storePage, if_neg notFrame, sameRam notTable]

/-- What a user program's store has done: its page is now its own. -/
structure UserWritten
    (low high : Nat)
    (held : Nat → Nat)
    (slot : Nat × Nat)
    (old new : Word)
    (offset : Nat)
    (value : Byte)
    (memory after : Memory) : Prop where
  accounted :
    Accounted low high held after
  self :
    after.entryAt slot = some new
  others :
    ∀ other ∈ userEntries, other ≠ slot → after.entryAt other = memory.entryAt other
  tables :
    ∀ dir, after.tableOf dir = memory.tableOf dir
  own :
    ∀ other ∈ userEntries, other ≠ slot → memory.frameAt other ≠ some new.frame
  contents :
    after.ram new.frame = setPageByte (memory.ram old.frame) offset value
  above :
    lowMemPage ≤ new.frame
  ram :
    ∀ page, page ≠ new.frame →
      Kept held memory page →
      after.ram page = memory.ram page

/-- The page of a writable entry is mapped nowhere else. -/
theorem Accounted.frameAt_ne_writable
    (accounted : Accounted low high held memory)
    {slot other : Nat × Nat} {entry : Word}
    (slotMember : slot ∈ userEntries)
    (otherMember : other ∈ userEntries)
    (different : other ≠ slot)
    (mapped : memory.entryAt slot = some entry)
    (isWritable : entry.writable = true) :
    memory.frameAt other ≠ some entry.frame := by
  intro otherMaps
  have maps := frameAt_of_entry mapped
  obtain ⟨aboveLow, single⟩ :=
    accounted.writableSingle slot slotMember entry mapped isWritable
  have inMain :=
    (accounted.entryMain slot slotMember _ maps).resolve_left
      (by omega)
  have one := accounted.refs_eq_one inMain single
  have twice : 1 < memory.entryRefs entry.frame :=
    one_lt_occurrences slotMember otherMember different.symm maps
      otherMaps
  omega

theorem satisfies_userWrite
    (accounted : Accounted low high held memory)
    {address : Nat} {value : Byte} {entry : Word}
    (slotMember : (dirIndex address, tableIndex address) ∈ userEntries)
    (mapped :
      memory.entryAt (dirIndex address, tableIndex address) = some entry)
    (onAbandon : abandoned memory) :
    Satisfies (userWrite address value) memory
      (fun _ after =>
        ∃ new,
          UserWritten low high held
            (dirIndex address, tableIndex address) entry new
            (address % 4096) value memory after)
      abandoned := by
  have notTable {page : Nat}
      (kept : Kept held memory page) :
      ∀ dir ∈ userDirs, memory.tableOf dir ≠ some page := by
    intro dir member pointsTo
    exact kept_ne_table accounted member pointsTo kept rfl
  unfold userWrite
  rw [satisfies_bind, satisfies_read]
  simp only [(table_of_entry mapped).2]
  by_cases isWritable : entry.writable = true
  · rw [if_pos isWritable]
    have single :=
      accounted.writableSingle _ slotMember entry mapped isWritable
    refine (satisfies_storeByte accounted slotMember mapped
      single.1).mono ?_ (fun _ same => same)
    intro _ after stored
    refine ⟨entry.markDirty, stored.accounted, stored.self,
      stored.others, stored.tables, ?_, ?_, ?_, ?_⟩
    · intro other member different
      rw [Word.frame_markDirty]
      exact accounted.frameAt_ne_writable slotMember member different
        mapped isWritable
    · rw [Word.frame_markDirty]
      exact stored.contents
    · rw [Word.frame_markDirty]
      exact single.1
    · rw [Word.frame_markDirty]
      intro page notFrame kept
      exact stored.ram page notFrame (notTable kept)
  · rw [if_neg isWritable]
    refine Satisfies.andThen
      (satisfies_doWpPage accounted slotMember mapped onAbandon) ?_
    rintro _ middle ⟨new, unshared⟩
    have newMapped := unshared.self
    have newWritable := unshared.writable
    have single :=
      unshared.accounted.writableSingle _ slotMember new newMapped
        newWritable
    refine (satisfies_storeByte unshared.accounted slotMember newMapped
      single.1).mono ?_ (fun _ same => same)
    intro _ after stored
    have own :
        ∀ other ∈ userEntries,
          other ≠ (dirIndex address, tableIndex address) →
          memory.frameAt other ≠ some new.frame := by
      intro other member different
      have sameFrame :=
        frameAt_congr (unshared.others other member different)
      rw [← sameFrame]
      exact unshared.accounted.frameAt_ne_writable slotMember member
        different newMapped newWritable
    refine ⟨new.markDirty, stored.accounted, stored.self, ?_, ?_, ?_, ?_, ?_, ?_⟩
    · intro other member different
      rw [stored.others other member different, unshared.others other member different]
    · intro dir
      rw [stored.tables, unshared.tables]
    · rw [Word.frame_markDirty]
      exact own
    · rw [Word.frame_markDirty, stored.contents, unshared.contents]
    · rw [Word.frame_markDirty]
      exact single.1
    · rw [Word.frame_markDirty]
      intro page notNew kept
      have fromMiddle : after.ram page = middle.ram page := by
        apply stored.ram page notNew
        intro dir member
        rw [unshared.tables dir]
        exact notTable kept dir member
      rw [fromMiddle]
      rcases Nat.lt_or_ge page lowMemPage with below | aboveLow
      · exact unshared.kernel page below
      · refine unshared.data page ?_ kept
        unfold lowMemPage at aboveLow
        omega

/-- A user program's store changes one byte of its own view and no other. -/
theorem UserWritten.view
    {task offset other otherOffset : Nat} {value : Byte}
    {old new : Word} {after : Memory}
    (mapped : memory.entryAt (slotOf task offset) = some old)
    (inSlot : offset < slotSize)
    (otherUser : 0 < other)
    (otherRange : other < 64)
    (otherInSlot : otherOffset < slotSize)
    (written :
      UserWritten low high held (slotOf task offset) old new
        (offset % 4096) value memory after) :
    after.view other otherOffset =
      if other = task ∧ otherOffset = offset then some value
      else memory.view other otherOffset := by
  have otherMember :=
    slotOf_mem otherUser otherRange otherInSlot
  by_cases sameSlot : slotOf other otherOffset = slotOf task offset
  · have sameParts := (slotOf_eq_iff otherInSlot inSlot).mp sameSlot
    have sameEntry :
        memory.entryAt (slotOf other otherOffset) = some old := by
      rw [sameSlot]
      exact mapped
    have newEntry :
        after.entryAt (slotOf other otherOffset) = some new := by
      rw [sameSlot]
      exact written.self
    rw [view_of_entry newEntry, view_of_entry sameEntry,
      written.contents, pageByte_setPageByte]
    by_cases sameOffset : otherOffset % 4096 = offset % 4096
    · rw [if_pos sameOffset, if_pos (by omega)]
    · rw [if_neg sameOffset, if_neg (by omega)]
  · rw [if_neg]
    · apply view_congr
      · exact frameAt_congr
          (written.others _ otherMember sameSlot)
      · intro page maps
        apply written.ram page
        · rintro rfl
          exact written.own _ otherMember sameSlot maps
        · exact kept_of_maps otherMember maps
    · rintro ⟨rfl, rfl⟩
      exact sameSlot rfl

end Memory

end HitOs
