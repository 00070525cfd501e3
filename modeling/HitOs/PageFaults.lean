import HitOs.PageRoutines

namespace HitOs

/-!
# Placing, unsharing and sharing single pages

Specifications of `put_page`, `un_wp_page`, `write_verify`, `get_empty_page` and
`try_to_share`.  Each changes the entry at one address, or two entries when a
page is shared; no other entry changes, and the contents of every page that a
task maps are kept.
-/

namespace Memory

open Routine

variable {low high : Nat} {held : Nat → Nat} {memory : Memory}
variable {abandoned : Memory → Prop}

/-- A page below 1 MB is not one that the allocator hands out. -/
theorem kept_ne_of_main
    (accounted : Accounted low high held memory)
    {page target : Nat}
    (inMain : InMain low high target)
    (unmapped : memory.entryRefs target = 0)
    (notHeld : held target = 0)
    (kept : Kept held memory page) :
    page ≠ target := by
  rintro rfl
  have aboveLow := accounted.above_low inMain
  unfold Kept at kept
  omega

/-- A page whose contents must be kept is not a page table. -/
theorem kept_ne_table
    (accounted : Accounted low high held memory)
    {page dir table : Nat}
    (dirMember : dir ∈ userDirs)
    (pointsTo : memory.tableOf dir = some table)
    (kept : Kept held memory page) :
    page ≠ table := by
  have refs := accounted.table_refs dirMember pointsTo
  exact kept_ne_of_main accounted
    (accounted.tableMain dir dirMember table pointsTo) refs.1 refs.2.2
    kept

/-! ## Placing a page -/

/-- A page held by the kernel has been placed at one entry. -/
structure Placed
    (low high : Nat)
    (held : Nat → Nat)
    (dir index page : Nat)
    (memory after : Memory) : Prop where
  accounted :
    Accounted low high (Function.update held page 0) after
  self :
    after.entryAt (dir, index) = some (Word.userEntry page)
  others :
    ∀ slot ∈ userEntries, slot ≠ (dir, index) → after.entryAt slot = memory.entryAt slot
  tables :
    ∀ other, other ≠ dir → after.tableOf other = memory.tableOf other
  contents :
    after.ram page = memory.ram page
  data :
    KeepsData held memory after

theorem placed_in_table
    (accounted : Accounted low high held memory)
    {dir index table page : Nat}
    (slotMember : (dir, index) ∈ userEntries)
    (pointsTo : memory.tableOf dir = some table)
    (empty : memory.entryAt (dir, index) = none)
    (isHeld : 0 < held page) :
    Placed low high held dir index page memory
      (store table index (Word.userEntry page) memory) := by
  have dirMember := Accounted.slotDir slotMember
  have inMain := accounted.heldMain page isHeld
  refine ⟨accounted.mapHeld slotMember pointsTo empty isHeld, ?_, ?_, ?_, ?_, ?_⟩
  · rw [accounted.entryAt_store_self dirMember pointsTo rfl]
    exact entryOf_of_present (Word.present_userEntry page)
  · intro slot member different
    exact accounted.entryAt_store dirMember pointsTo rfl member
      different
  · intro other _
    exact accounted.tableOf_store dirMember pointsTo rfl other
  · apply ram_store_of_ne
    rintro rfl
    have table := accounted.table_refs dirMember pointsTo
    omega
  · intro other _ kept
    exact ram_store_of_ne
      (kept_ne_table accounted dirMember pointsTo kept)

/-- Fewer pages are free than a page and, where there is none yet, its page table. -/
def Short (low high dir : Nat) (memory : Memory) : Prop :=
  ∃ only, ∀ page, InMain low high page →
    memory.memMap (page - lowMemPage) = 0#8 → page = only ∧ memory.tableOf dir = none

/-- `put_page` of a page that the kernel holds, at an address without a page. -/
theorem satisfies_putPage
    (accounted : Accounted low high held memory)
    {page address : Nat}
    (slotMember : (dirIndex address, tableIndex address) ∈ userEntries)
    (empty :
      memory.entryAt (dirIndex address, tableIndex address) = none)
    (isHeld : 0 < held page) :
    Satisfies (putPage page address) memory
      (fun value after =>
        (value = page ∧
            Placed low high held (dirIndex address)
              (tableIndex address) page memory after) ∨
          (value = 0 ∧ after = memory ∧
            memory.tableOf (dirIndex address) = none ∧
            ∀ other, InMain low high other → memory.memMap (other - lowMemPage) ≠ 0#8))
      abandoned := by
  have dirMember := Accounted.slotDir slotMember
  unfold putPage
  rw [satisfies_bind, satisfies_read]
  by_cases isPresent :
      (memory.ram 0 (dirIndex address)).present = true
  · simp only [isPresent, ↓reduceIte]
    rw [satisfies_bind, satisfies_update, satisfies_pure]
    exact Or.inl ⟨rfl, placed_in_table accounted slotMember
      (tableOf_of_present isPresent) empty isHeld⟩
  · simp only [isPresent, Bool.false_eq_true, ↓reduceIte]
    rw [Bool.not_eq_true] at isPresent
    have noTable := tableOf_of_absent isPresent
    refine Satisfies.andThen (satisfies_getFreePage accounted) ?_
    rintro table fresh (⟨rfl, rfl, exhausted⟩ | ⟨inMain, free, rfl⟩)
    · rw [if_pos rfl, satisfies_pure]
      exact Or.inr ⟨rfl, rfl, noTable, exhausted⟩
    · rw [if_neg (accounted.ne_zero_of_main inMain), satisfies_bind,
        satisfies_update, satisfies_bind, satisfies_update,
        satisfies_pure]
      have link :=
        linked_of_taken accounted dirMember noTable inMain free
      have stillEmpty :=
        (link.entries _ (Or.inl slotMember)).trans empty
      have placed :=
        placed_in_table link.accounted slotMember link.table
          stillEmpty isHeld
      have pageNotTable : page ≠ table := by
        rintro rfl
        have refs := accounted.free_refs inMain free
        omega
      have freeRefs := accounted.free_refs inMain free
      refine Or.inl ⟨rfl, placed.accounted, placed.self, ?_, ?_, ?_, ?_⟩
      · intro slot member different
        rw [placed.others slot member different, link.entries slot (Or.inl member)]
      · intro other different
        rw [placed.tables other different, link.tables other different]
      · rw [placed.contents]
        exact link.ram page
          (accounted.ne_zero_of_main
            (accounted.heldMain page isHeld)) pageNotTable
      · intro other notZero kept
        have notTable :=
          kept_ne_of_main accounted inMain freeRefs.1 freeRefs.2.2 kept
        rw [ram_store_of_ne notTable, link.ram other notZero notTable]

/-! ## Unsharing a page -/

/--
What `un_wp_page` has done to an entry: a page with one reference has become
writable, or the entry maps a fresh copy of the page.
-/
structure Unshared
    (low high : Nat)
    (held : Nat → Nat)
    (dir index : Nat)
    (old new : Word)
    (memory after : Memory) : Prop where
  accounted :
    Accounted low high held after
  self :
    after.entryAt (dir, index) = some new
  shape :
    (new = old.writeEnable ∧ lowMemPage ≤ old.frame ∧
        memory.memMap (old.frame - lowMemPage) = 1#8) ∨
      (new = Word.userEntry new.frame ∧ InMain low high new.frame ∧
        ¬ (lowMemPage ≤ old.frame ∧ memory.memMap (old.frame - lowMemPage) = 1#8) ∧
        memory.memMap (new.frame - lowMemPage) = 0#8)
  others :
    ∀ slot ∈ userEntries, slot ≠ (dir, index) → after.entryAt slot = memory.entryAt slot
  tables :
    ∀ other, after.tableOf other = memory.tableOf other
  contents :
    after.ram new.frame = memory.ram old.frame
  kernel :
    ∀ page, page < lowMemPage → after.ram page = memory.ram page
  data :
    KeepsData held memory after

theorem Unshared.writable
    {dir index : Nat} {old new : Word} {after : Memory}
    (unshared : Unshared low high held dir index old new memory after) :
    new.writable = true := by
  rcases unshared.shape with ⟨shape, _⟩ | ⟨shape, _⟩
  · rw [shape]
    exact Word.writable_writeEnable old
  · rw [shape]
    exact Word.writable_userEntry _

theorem satisfies_unWpPage
    (accounted : Accounted low high held memory)
    {dir index table : Nat} {entry : Word}
    (slotMember : (dir, index) ∈ userEntries)
    (pointsTo : memory.tableOf dir = some table)
    (mapped : memory.entryAt (dir, index) = some entry)
    (onAbandon : abandoned memory) :
    Satisfies (unWpPage table index) memory
      (fun _ after =>
        ∃ new, Unshared low high held dir index entry new memory after)
      abandoned := by
  have dirMember := Accounted.slotDir slotMember
  have maps := frameAt_of_entry mapped
  have word := mapped
  rw [entryAt_of_table pointsTo] at word
  obtain ⟨isPresent, wordShape⟩ := entryOf_eq_some.mp word
  unfold unWpPage
  rw [satisfies_bind, satisfies_read]
  simp only [wordShape]
  by_cases single :
      lowMemPage ≤ entry.frame ∧ memory.memMap (entry.frame - lowMemPage) = 1#8
  · -- the only reference: the entry becomes writable in place
    rw [if_pos single, satisfies_update]
    rw [wordShape] at isPresent
    have newPresent : entry.writeEnable.present = true := by
      rw [Word.present_writeEnable]
      exact isPresent
    refine ⟨entry.writeEnable, ?_, ?_, Or.inl ⟨rfl, single⟩, ?_, ?_, ?_, ?_, ?_⟩
    · exact accounted.reflag slotMember pointsTo mapped newPresent
        (Word.frame_writeEnable entry) (fun _ => single) rfl
    · rw [accounted.entryAt_store_self dirMember pointsTo rfl]
      exact entryOf_of_present newPresent
    · intro slot member different
      exact accounted.entryAt_store dirMember pointsTo rfl member
        different
    · exact accounted.tableOf_store dirMember pointsTo rfl
    · rw [Word.frame_writeEnable]
      apply ram_store_of_ne
      exact kept_ne_table accounted dirMember pointsTo
        (kept_of_maps slotMember maps)
    · intro page below
      exact accounted.ram_store_low dirMember pointsTo rfl below
    · intro page _ kept
      exact ram_store_of_ne
        (kept_ne_table accounted dirMember pointsTo kept)
  · -- a shared page, or one below 1 MB: the entry gets a copy
    rw [if_neg single]
    refine Satisfies.andThen (satisfies_getFreePage accounted) ?_
    rintro page fresh (⟨rfl, rfl, _⟩ | ⟨inMain, free, rfl⟩)
    · rw [if_pos rfl, satisfies_abandon]
      exact onAbandon
    · have takenAccounted := accounted.taken_accounted inMain free
      have refs := accounted.free_refs inMain free
      have newFrame :=
        Word.frame_userEntry (accounted.page_lt inMain)
      have takenHeld : 0 < Function.update held page 1 page := by
        simp
      have takenPoints :=
        (accounted.tableOf_taken inMain dir).trans pointsTo
      have takenMapped :=
        (accounted.entryAt_taken inMain free slotMember).trans mapped
      have oldNotNew : entry.frame ≠ page := by
        intro same
        rw [same] at maps
        exact Accounted.frameAt_ne_of_refs refs.1 slotMember maps
      have replaced :=
        takenAccounted.replace slotMember takenPoints takenMapped
          (Or.inr ⟨Word.present_userEntry page,
            by rwa [newFrame], rfl⟩) rfl
      rw [newFrame, Accounted.held_restored refs.2.2] at replaced
      rw [if_neg (accounted.ne_zero_of_main inMain), satisfies_bind,
        satisfies_update, satisfies_bind, satisfies_update,
        satisfies_update]
      rw [← uncounted]
      have ram :
          (store table index (Word.userEntry page)
              (uncounted (taken page memory) entry.frame)).ram =
            (store table index (Word.userEntry page)
              (taken page memory)).ram := by
        unfold store
        simp
      have tables :=
        takenAccounted.tableOf_store dirMember takenPoints ram
      have unlinked :
          (store table index (Word.userEntry page)
            (uncounted (taken page memory) entry.frame)).tableRefs
              page = 0 := by
        rw [tableRefs, occurrences_eq_zero_iff]
        intro other member
        rw [tables other, accounted.tableOf_taken inMain]
        exact Accounted.tableOf_ne_of_refs refs.2.1 member
      have aboveLow := accounted.above_low inMain
      have tableKept {other : Nat}
          (kept : Kept held memory other) :
          (store table index (Word.userEntry page)
              (uncounted (taken page memory) entry.frame)).ram other =
            memory.ram other := by
        rw [ram, ram_store_of_ne
            (kept_ne_table accounted dirMember pointsTo kept),
          Accounted.ram_taken,
          if_neg (kept_ne_of_main accounted inMain refs.1 refs.2.2
            kept)]
      have entryKept :=
        tableKept (kept_of_maps slotMember maps)
      refine ⟨Word.userEntry page, ?_, ?_, ?_, ?_, ?_, ?_, ?_, ?_⟩
      · exact replaced.storeContents aboveLow unlinked
      · rw [Accounted.entryAt_storePage aboveLow unlinked slotMember,
          takenAccounted.entryAt_store_self dirMember takenPoints ram]
        exact entryOf_of_present (Word.present_userEntry page)
      · rw [newFrame]
        exact Or.inr ⟨rfl, inMain, single, free⟩
      · intro slot member different
        rw [Accounted.entryAt_storePage aboveLow unlinked member,
          takenAccounted.entryAt_store dirMember takenPoints ram
            member different,
          accounted.entryAt_taken inMain free member]
      · intro other
        rw [Accounted.tableOf_storePage aboveLow, tables,
          accounted.tableOf_taken inMain]
      · rw [newFrame, ram_storePage, if_pos rfl, entryKept]
      · intro other below
        rw [ram_storePage, if_neg (by omega),
          tableKept (Or.inl below)]
      · intro other _ kept
        rw [ram_storePage,
          if_neg (kept_ne_of_main accounted inMain refs.1 refs.2.2
            kept),
          tableKept kept]

/-- `do_wp_page` at the address of a present entry. -/
theorem satisfies_doWpPage
    (accounted : Accounted low high held memory)
    {address : Nat} {entry : Word}
    (slotMember : (dirIndex address, tableIndex address) ∈ userEntries)
    (mapped :
      memory.entryAt (dirIndex address, tableIndex address) = some entry)
    (onAbandon : abandoned memory) :
    Satisfies (doWpPage address) memory
      (fun _ after =>
        ∃ new,
          Unshared low high held (dirIndex address)
            (tableIndex address) entry new memory after)
      abandoned := by
  unfold doWpPage
  rw [satisfies_bind, satisfies_read]
  by_cases isPresent :
      (memory.ram 0 (dirIndex address)).present = true
  · exact satisfies_unWpPage accounted slotMember
      (tableOf_of_present isPresent) mapped onAbandon
  · rw [Bool.not_eq_true] at isPresent
    rw [entryAt_of_no_table (tableOf_of_absent isPresent)] at mapped
    cases mapped

/--
What `write_verify` has done: nothing when the address has no page or a
writable one, and unshared the page otherwise.
-/
inductive Verified
    (low high : Nat)
    (held : Nat → Nat)
    (dir index : Nat)
    (memory : Memory) : Memory → Prop where
  | absent
      (empty : memory.entryAt (dir, index) = none) :
      Verified low high held dir index memory memory
  | writable
      (entry : Word)
      (mapped : memory.entryAt (dir, index) = some entry)
      (isWritable : entry.writable = true) :
      Verified low high held dir index memory memory
  | unshared
      (old new : Word)
      {after : Memory}
      (mapped : memory.entryAt (dir, index) = some old)
      (readOnly : old.writable = false)
      (unshared :
        Unshared low high held dir index old new memory after) :
      Verified low high held dir index memory after

theorem satisfies_writeVerify
    (accounted : Accounted low high held memory)
    {address : Nat}
    (slotMember : (dirIndex address, tableIndex address) ∈ userEntries)
    (onAbandon : abandoned memory) :
    Satisfies (writeVerify address) memory
      (fun _ after =>
        Verified low high held (dirIndex address) (tableIndex address)
          memory after)
      abandoned := by
  unfold writeVerify
  rw [satisfies_bind, satisfies_read]
  by_cases isPresent :
      (memory.ram 0 (dirIndex address)).present = true
  · have pointsTo := tableOf_of_present isPresent
    have word :=
      entryAt_of_table pointsTo (tableIndex address)
    simp only [isPresent, ↓reduceIte]
    split
    · rename_i readOnly
      obtain ⟨entryPresent, notWritable⟩ :=
        (Word.readOnly_iff _).mp readOnly
      rw [entryOf_of_present entryPresent] at word
      refine (satisfies_unWpPage accounted slotMember pointsTo word
        onAbandon).mono ?_ (fun _ same => same)
      rintro _ after ⟨new, unshared⟩
      exact .unshared _ new word notWritable unshared
    · rename_i notReadOnly
      rw [satisfies_pure]
      rw [Word.readOnly_iff] at notReadOnly
      cases entryPresent :
          (memory.ram (memory.ram 0 (dirIndex address)).frame
            (tableIndex address)).present with
      | false =>
        rw [entryOf_of_absent entryPresent] at word
        exact .absent word
      | true =>
        rw [entryOf_of_present entryPresent] at word
        refine .writable _ word ?_
        by_contra notWritable
        rw [Bool.not_eq_true] at notWritable
        exact notReadOnly ⟨entryPresent, notWritable⟩
  · simp only [isPresent, Bool.false_eq_true, ↓reduceIte,
      satisfies_pure]
    rw [Bool.not_eq_true] at isPresent
    exact .absent (entryAt_of_no_table (tableOf_of_absent isPresent))

/-! ## Demand-zero pages -/

/-- A page has been handed back to the allocator. -/
theorem satisfies_freePage_held
    (accounted : Accounted low high held memory)
    {page : Nat}
    (isHeld : 0 < held page) :
    Satisfies (freePage page) memory
      (fun _ after =>
        Accounted low high (Function.update held page 0) after ∧ after.ram = memory.ram)
      abandoned := by
  have inMain := accounted.heldMain page isHeld
  have single := accounted.heldSingle page isHeld
  have referenced :
      memory.memMap (page - lowMemPage) ≠ 0#8 := by
    rw [single]
    decide
  refine (satisfies_freePage accounted
    (Or.inr ⟨inMain, referenced⟩)).mono ?_ (fun _ same => same)
  rintro _ after rfl
  refine ⟨?_, ram_uncounted page⟩
  unfold uncounted
  rw [if_pos (accounted.above_low inMain)]
  exact accounted.drop isHeld

/-- A page has been taken, and there is none left for the page table. -/
theorem short_of_taken
    {dir page : Nat}
    (accounted : Accounted low high held memory)
    (inMain : InMain low high page)
    (noTable : (taken page memory).tableOf dir = none)
    (exhausted :
      ∀ other, InMain low high other →
        (taken page memory).memMap (other - lowMemPage) ≠ 0#8) :
    Short low high dir memory := by
  rw [accounted.tableOf_taken inMain] at noTable
  refine ⟨page, fun other otherMain free => ⟨?_, noTable⟩⟩
  by_contra different
  have otherLow := accounted.above_low otherMain
  have pageLow := accounted.above_low inMain
  have counts : (taken page memory).memMap =
      (setMap (page - lowMemPage) 1#8 memory).memMap :=
    rfl
  apply exhausted other otherMain
  rw [counts, memMap_setMap, if_neg (by omega)]
  exact free

/-- `get_empty_page` at an address without a page. -/
theorem satisfies_getEmptyPage
    (accounted : Accounted low high held memory)
    {address : Nat}
    (slotMember : (dirIndex address, tableIndex address) ∈ userEntries)
    (empty :
      memory.entryAt (dirIndex address, tableIndex address) = none) :
    Satisfies (getEmptyPage address) memory
      (fun _ after =>
        ∃ page, InMain low high page ∧ memory.entryRefs page = 0 ∧
          Placed low high (Function.update held page 1)
            (dirIndex address) (tableIndex address) page
            (taken page memory) after ∧
          memory.memMap (page - lowMemPage) = 0#8 ∧ held page = 0)
      (fun after =>
        Accounted low high held after ∧
          (∀ slot ∈ userEntries, after.entryAt slot = memory.entryAt slot) ∧
          KeepsData held memory after ∧
          Short low high (dirIndex address) memory) := by
  unfold getEmptyPage
  refine Satisfies.andThen (satisfies_getFreePage accounted) ?_
  rintro page fresh (⟨rfl, rfl, exhausted⟩ | ⟨inMain, free, rfl⟩)
  · rw [if_pos rfl]
    refine Satisfies.andThen
      (satisfies_freePage accounted (Or.inl (by decide))) ?_
    rintro _ after rfl
    rw [satisfies_abandon]
    exact ⟨accounted, fun _ _ => rfl, fun _ _ _ => rfl,
      0, fun other otherMain otherFree =>
        absurd otherFree (exhausted other otherMain)⟩
  · have refs := accounted.free_refs inMain free
    have takenAccounted := accounted.taken_accounted inMain free
    have takenHeld : 0 < Function.update held page 1 page := by
      simp
    have stillEmpty :=
      (accounted.entryAt_taken inMain free slotMember).trans empty
    have notZero := accounted.ne_zero_of_main inMain
    rw [if_neg notZero]
    refine Satisfies.andThen
      (satisfies_putPage takenAccounted slotMember stillEmpty
        takenHeld) ?_
    rintro placedPage after (⟨rfl, placed⟩ | ⟨rfl, rfl, noTable, exhausted⟩)
    · rw [if_neg notZero, satisfies_pure]
      exact ⟨placedPage, inMain, refs.1, placed, free, refs.2.2⟩
    · rw [if_pos rfl]
      refine Satisfies.andThen
        (satisfies_freePage_held takenAccounted takenHeld) ?_
      rintro _ freed ⟨freedAccounted, ram⟩
      rw [Accounted.held_restored refs.2.2] at freedAccounted
      rw [satisfies_abandon]
      refine ⟨freedAccounted, ?_, ?_, short_of_taken accounted inMain noTable exhausted⟩
      · intro slot member
        have sameEntries :
            freed.entryAt slot = (taken page memory).entryAt slot := by
          unfold entryAt tableOf
          rw [ram]
        rw [sameEntries, accounted.entryAt_taken inMain free member]
      · intro other _ kept
        rw [ram, Accounted.ram_taken,
          if_neg (kept_ne_of_main accounted inMain refs.1 refs.2.2
            kept)]

/-! ## Sharing a page -/

/-- What `try_to_share` has done when it shared the page of an entry. -/
structure Shared
    (low high : Nat)
    (held : Nat → Nat)
    (source target : Nat × Nat)
    (entry : Word)
    (memory after : Memory) : Prop where
  accounted :
    Accounted low high held after
  mapped :
    memory.entryAt source = some entry
  clean :
    entry.dirty = false
  main :
    InMain low high entry.frame
  sourceEntry :
    after.entryAt source = some entry.writeProtect
  targetEntry :
    after.entryAt target = some entry.writeProtect
  others :
    ∀ slot ∈ userEntries, slot ≠ source → slot ≠ target →
      after.entryAt slot = memory.entryAt slot
  tables :
    ∀ other, other ≠ target.1 → after.tableOf other = memory.tableOf other
  data :
    KeepsData held memory after

/-- The last part of `try_to_share`, once the destination has a page table. -/
theorem shared_in_tables
    (accounted : Accounted low high held memory)
    {fromDir fromTable toDir toTable index : Nat} {entry : Word}
    (fromMember : (fromDir, index) ∈ userEntries)
    (toMember : (toDir, index) ∈ userEntries)
    (fromPoints : memory.tableOf fromDir = some fromTable)
    (toPoints : memory.tableOf toDir = some toTable)
    (different : fromDir ≠ toDir)
    (sameOffset : fromDir % 16 = toDir % 16)
    (mapped : memory.entryAt (fromDir, index) = some entry)
    (empty : memory.entryAt (toDir, index) = none)
    (clean : entry.dirty = false)
    (inMain : InMain low high entry.frame) :
    Shared low high held (fromDir, index) (toDir, index) entry memory
      (setMap (entry.frame - lowMemPage)
        (memory.memMap (entry.frame - lowMemPage) + 1#8)
        (store toTable index entry.writeProtect
          (store fromTable index entry.writeProtect memory))) := by
  have fromDirMember := Accounted.slotDir fromMember
  have toDirMember := Accounted.slotDir toMember
  have protectedPresent : entry.writeProtect.present = true := by
    rw [Word.present_writeProtect]
    exact entryAt_present mapped
  have aboveLow := accounted.above_low inMain
  have differentSlots : (toDir, index) ≠ (fromDir, index) := by
    intro same
    exact different (congrArg Prod.fst same).symm
  obtain ⟨middle, middleShape⟩ :
      ∃ middle, middle = store fromTable index entry.writeProtect memory :=
    ⟨_, rfl⟩
  have ram := congrArg Memory.ram middleShape
  have middleAccounted :=
    accounted.reflag fromMember fromPoints mapped protectedPresent
      (Word.frame_writeProtect entry) (by simp) middleShape
  have toPoints' :=
    (accounted.tableOf_store fromDirMember fromPoints ram toDir).trans
      toPoints
  have mapped' :=
    (accounted.entryAt_store_self fromDirMember fromPoints ram).trans
      (entryOf_of_present protectedPresent)
  have empty' :=
    (accounted.entryAt_store fromDirMember fromPoints ram toMember
      differentSlots).trans empty
  have frameAbove : lowMemPage ≤ entry.writeProtect.frame := by
    rw [Word.frame_writeProtect]
    exact aboveLow
  have shared :=
    middleAccounted.share fromMember mapped'
      (Word.writable_writeProtect entry) frameAbove toMember
      toPoints' empty' ⟨sameOffset, rfl⟩ protectedPresent rfl
      (Word.writable_writeProtect entry) rfl
  have sameCounts : memory.memMap = middle.memMap := by
    rw [middleShape]
    rfl
  rw [Word.frame_writeProtect] at shared
  rw [← middleShape, sameCounts]
  refine ⟨shared, mapped, clean, inMain, ?_, ?_, ?_, ?_, ?_⟩
  · exact (middleAccounted.entryAt_store toDirMember toPoints' rfl
      fromMember (Ne.symm differentSlots)).trans mapped'
  · exact (middleAccounted.entryAt_store_self toDirMember toPoints'
      rfl).trans (entryOf_of_present protectedPresent)
  · intro slot member notSource notTarget
    exact (middleAccounted.entryAt_store toDirMember toPoints' rfl
      member notTarget).trans
      (accounted.entryAt_store fromDirMember fromPoints ram member
        notSource)
  · intro other _
    exact (middleAccounted.tableOf_store toDirMember toPoints' rfl
      other).trans
      (accounted.tableOf_store fromDirMember fromPoints ram other)
  · intro page _ kept
    rw [ram_setMap,
      ram_store_of_ne
        (kept_ne_table accounted toDirMember toPoints kept),
      ram,
      ram_store_of_ne
        (kept_ne_table accounted fromDirMember fromPoints kept)]

/-- The destination's page table, with no entry changed. -/
theorem satisfies_sharingTable
    (accounted : Accounted low high held memory)
    {dir : Nat}
    (dirMember : dir ∈ userDirs)
    (onAbandon : abandoned memory) :
    Satisfies (sharingTable dir) memory
      (fun table after =>
        Accounted low high held after ∧
          after.highMemory = memory.highMemory ∧
          after.tableOf dir = some table ∧
          (∀ other, other ≠ dir → after.tableOf other = memory.tableOf other) ∧
          (∀ slot ∈ userEntries, after.entryAt slot = memory.entryAt slot) ∧
          KeepsData held memory after)
      abandoned := by
  unfold sharingTable
  rw [satisfies_bind, satisfies_read]
  by_cases isPresent : (memory.ram 0 dir).present = true
  · rw [if_pos isPresent, satisfies_pure]
    exact ⟨accounted, rfl, tableOf_of_present isPresent,
      fun _ _ => rfl, fun _ _ => rfl, fun _ _ _ => rfl⟩
  · rw [if_neg isPresent]
    rw [Bool.not_eq_true] at isPresent
    have noTable := tableOf_of_absent isPresent
    refine Satisfies.andThen (satisfies_getFreePage accounted) ?_
    rintro page fresh (⟨rfl, rfl, _⟩ | ⟨inMain, free, rfl⟩)
    · rw [if_pos rfl, satisfies_abandon]
      exact onAbandon
    · rw [if_neg (accounted.ne_zero_of_main inMain), satisfies_bind,
        satisfies_update, satisfies_pure]
      have link :=
        linked_of_taken accounted dirMember noTable inMain free
      have refs := accounted.free_refs inMain free
      refine ⟨link.accounted, rfl, link.table, link.tables,
        fun slot member => link.entries slot (Or.inl member), ?_⟩
      intro other notZero kept
      exact link.ram other notZero
        (kept_ne_of_main accounted inMain refs.1 refs.2.2 kept)

/--
`try_to_share` between the slots of two tasks, at an address where the current
task has no page.
-/
theorem satisfies_tryToShare
    (accounted : Accounted low high held memory)
    {address task current : Nat}
    (inSlot : address < slotSize)
    (taskUser : 0 < task)
    (taskRange : task < 64)
    (currentUser : 0 < current)
    (currentRange : current < 64)
    (different : task ≠ current)
    (empty :
      memory.entryAt
          (current * 16 + dirIndex address, tableIndex address) =
        none)
    (onAbandon : abandoned memory) :
    Satisfies
      (tryToShare address (task * slotSize) (current * slotSize))
      memory
      (fun value after =>
        (value = 0 ∧ after = memory) ∨
          (value = 1 ∧ ∃ entry,
            Shared low high held
              (task * 16 + dirIndex address, tableIndex address)
              (current * 16 + dirIndex address, tableIndex address)
              entry memory after))
      abandoned := by
  unfold slotSize at inSlot ⊢
  have directory (slot : Nat) (inRange : slot < 64) :
      dirIndex address + dirIndex (slot * 0x4000000) =
        slot * 16 + dirIndex address := by
    unfold dirIndex
    omega
  have small : dirIndex address < 16 := by
    unfold dirIndex
    omega
  have indexRange : tableIndex address < 1024 := by
    unfold tableIndex
    omega
  have fromMember :
      (task * 16 + dirIndex address, tableIndex address) ∈
        userEntries := by
    rw [mem_userEntries]
    omega
  have toMember :
      (current * 16 + dirIndex address, tableIndex address) ∈
        userEntries := by
    rw [mem_userEntries]
    omega
  unfold tryToShare
  rw [directory task taskRange, directory current currentRange]
  rw [satisfies_bind, satisfies_read]
  cases fromPresent :
      (memory.ram 0 (task * 16 + dirIndex address)).present with
  | false =>
    simp [fromPresent]
  | true =>
    have fromPoints := tableOf_of_present fromPresent
    have word :=
      entryAt_of_table fromPoints (tableIndex address)
    simp only [fromPresent, Bool.true_eq_false, ↓reduceIte]
    split
    · rw [satisfies_pure]
      exact Or.inl ⟨rfl, rfl⟩
    · rename_i notUnclean
      rw [ne_eq, not_not, Word.clean_iff] at notUnclean
      obtain ⟨entryPresent, clean⟩ := notUnclean
      rw [entryOf_of_present entryPresent] at word
      split
      · rw [satisfies_pure]
        exact Or.inl ⟨rfl, rfl⟩
      · rename_i inBounds
        have inMain :=
          (accounted.entryMain _ fromMember _
            (frameAt_of_entry word)).resolve_left (by omega)
        refine Satisfies.andThen
          (satisfies_sharingTable accounted
            (Accounted.slotDir toMember) onAbandon) ?_
        rintro toTable middle
          ⟨middleAccounted, _, toPoints, tables, entries, data⟩
        have word' := (entries _ fromMember).trans word
        have empty' := (entries _ toMember).trans empty
        have fromPoints' :=
          (tables _ (by omega)).trans fromPoints
        have fromWord :
            middle.ram
                (memory.ram 0 (task * 16 + dirIndex address)).frame
                (tableIndex address) =
              memory.ram
                (memory.ram 0 (task * 16 + dirIndex address)).frame
                (tableIndex address) := by
          rw [entryAt_of_table fromPoints'] at word'
          exact (entryOf_eq_some.mp word').2
        have toWord :
            (middle.ram toTable (tableIndex address)).present =
              false := by
          rw [entryAt_of_table toPoints] at empty'
          exact entryOf_eq_none.mp empty'
        have differentTables :
            (memory.ram 0 (task * 16 + dirIndex address)).frame ≠
              toTable := by
          intro same
          rw [same] at fromPoints'
          have sameDir :=
            middleAccounted.table_injective
              (Accounted.slotDir fromMember)
              (Accounted.slotDir toMember) fromPoints' toPoints
          omega
        have shared :=
          shared_in_tables middleAccounted fromMember toMember
            fromPoints' toPoints (by omega) (by omega) word' empty'
            clean inMain
        rw [satisfies_bind, satisfies_read]
        simp only [toWord, Bool.false_eq_true, ↓reduceIte]
        rw [satisfies_bind, satisfies_update, satisfies_bind,
          satisfies_update, satisfies_bind, satisfies_update,
          satisfies_pure]
        have stored (word : Word) :
            (store
                (memory.ram 0
                  (task * 16 + dirIndex address)).frame
                (tableIndex address) word middle).ram
                  (memory.ram 0
                    (task * 16 + dirIndex address)).frame
                  (tableIndex address) =
              word := by
          rw [ram_store, if_pos ⟨rfl, rfl⟩]
        rw [stored, fromWord]
        refine Or.inr ⟨rfl, _, shared.accounted, word, clean, inMain,
          shared.sourceEntry, shared.targetEntry, ?_, ?_, ?_⟩
        · intro slot member notSource notTarget
          rw [← entries slot member]
          exact shared.others slot member notSource notTarget
        · intro other notTarget
          rw [← tables other notTarget]
          exact shared.tables other notTarget
        · intro page notZero kept
          have keptMiddle : Kept held middle page := by
            have sameRefs :
                middle.entryRefs page = memory.entryRefs page :=
              occurrences_congr
                (fun slot member =>
                  frameAt_congr (entries slot member)) page
            unfold Kept
            rw [sameRefs]
            exact kept
          exact (shared.data page notZero keptMiddle).trans
            (data page notZero kept)

end Memory

end HitOs
