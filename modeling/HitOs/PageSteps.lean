import HitOs.PageTransfer

namespace HitOs

/-!
# The elementary steps of the memory manager

One lemma for each way in which the routines of `mm/memory.c` move a page:
taken from the free pages, handed back, linked as a page table, mapped,
unmapped, shared, unshared, and written by its only owner.  Each says that the
accounting invariant survives.
-/

namespace Memory

namespace Accounted

variable {low high : Nat} {held : Nat → Nat} {memory : Memory}

/-- A witness that the task slots are not empty. -/
private theorem someDir : 16 ∈ userDirs := by
  simp

private theorem someSlot : (16, 0) ∈ userEntries := by
  simp

variable (accounted : Accounted low high held memory)

include accounted

theorem map_index_eq
    {page other : Nat}
    (inMain : InMain low high page)
    (otherMain : InMain low high other)
    (same : other - lowMemPage = page - lowMemPage) :
    other = page := by
  have pageLow := accounted.above_low inMain
  have otherLow := accounted.above_low otherMain
  omega

theorem map_index_outside
    {page index : Nat}
    (inMain : InMain low high page)
    (outside : ¬ InMain low high (index + lowMemPage)) :
    index ≠ page - lowMemPage := by
  intro same
  apply outside
  rw [same, Nat.sub_add_cancel (accounted.above_low inMain)]
  exact inMain

/-- A page of main memory whose counter is zero has no reference. -/
theorem free_refs
    {page : Nat}
    (inMain : InMain low high page)
    (free : memory.memMap (page - lowMemPage) = 0#8) :
    memory.entryRefs page = 0 ∧ memory.tableRefs page = 0 ∧
      held page = 0 := by
  have exact := accounted.exact page inMain
  rw [free] at exact
  simp only [BitVec.toNat_ofNat] at exact
  omega

omit accounted in
theorem frameAt_ne_of_refs
    {page : Nat} {slot : Nat × Nat}
    (unmapped : memory.entryRefs page = 0)
    (member : slot ∈ userEntries) :
    memory.frameAt slot ≠ some page :=
  occurrences_eq_zero_iff.mp unmapped slot member

omit accounted in
theorem tableOf_ne_of_refs
    {page dir : Nat}
    (unlinked : memory.tableRefs page = 0)
    (member : dir ∈ userDirs) :
    memory.tableOf dir ≠ some page :=
  occurrences_eq_zero_iff.mp unlinked dir member

/-! ## Contents of pages that are not tables -/

section Contents

variable {page : Nat} {contents : Page}

omit accounted in
/-- Rewriting a page that is not a table changes no entry. -/
theorem tableOf_storePage
    (above : lowMemPage ≤ page)
    (dir : Nat) :
    (storePage page contents memory).tableOf dir =
      memory.tableOf dir := by
  apply tableOf_congr
  rw [ram_storePage, if_neg]
  intro zero
  subst zero
  exact absurd above (by decide)

omit accounted in
theorem entryAt_storePage
    (above : lowMemPage ≤ page)
    (unlinked : memory.tableRefs page = 0)
    {slot : Nat × Nat}
    (member : slot ∈ userEntries) :
    (storePage page contents memory).entryAt slot =
      memory.entryAt slot := by
  apply entryAt_congr (tableOf_storePage above slot.1)
  intro table pointsTo
  rw [ram_storePage, if_neg]
  rintro rfl
  obtain ⟨dir, index⟩ := slot
  rw [mem_userEntries] at member
  exact tableOf_ne_of_refs unlinked (mem_userDirs.mpr member.1)
    pointsTo

omit accounted in
theorem ram_storePage_low
    (above : lowMemPage ≤ page)
    {other : Nat}
    (below : other < lowMemPage) :
    (storePage page contents memory).ram other = memory.ram other := by
  rw [ram_storePage, if_neg]
  omega

/-- The contents of pages that are not tables are free to change. -/
theorem storeContents
    (above : lowMemPage ≤ page)
    (unlinked : memory.tableRefs page = 0) :
    Accounted low high held (storePage page contents memory) := by
  have tables (dir : Nat) :
      (storePage page contents memory).tableOf dir = memory.tableOf dir :=
    tableOf_storePage above dir
  have entries {slot : Nat × Nat} (member : slot ∈ userEntries) :
      (storePage page contents memory).entryAt slot = memory.entryAt slot :=
    entryAt_storePage above unlinked member
  apply accounted.transfer someSlot someDir
    (fun _ member _ => entries member)
    (fun other _ _ => tables other) rfl (fun _ _ => rfl)
  case balance =>
    intro target _
    rw [frameAt_congr (entries someSlot), tables]
    rfl
  case newTable =>
    intro table pointsTo
    rw [tables] at pointsTo
    exact accounted.tableMain _ someDir table pointsTo
  case singles =>
    intro dir member table pointsTo
    rw [tables] at pointsTo
    exact accounted.tableSingle dir member table pointsTo
  case newEntry =>
    intro target mapped
    rw [frameAt_congr (entries someSlot)] at mapped
    exact accounted.entryMain _ someSlot target mapped
  case newAligned =>
    intro target mapped aboveLow other member _ otherMaps
    rw [frameAt_congr (entries someSlot)] at mapped
    exact accounted.aligned other member _ someSlot target
      otherMaps mapped aboveLow
  case heldMain =>
    exact accounted.heldMain
  case heldSingle =>
    exact accounted.heldSingle
  case writable =>
    intro other member entry entryShape isWritable
    rw [entries member] at entryShape
    exact accounted.writableSingle other member entry entryShape
      isWritable
  case kernelDir =>
    rw [ram_storePage_low above (by decide)]
  case kernelEntries =>
    intro index _
    rw [ram_storePage_low above (by decide)]

end Contents

/-! ## The kernel's own references -/

section Held

variable {page : Nat}

/-- Only counters and the kernel's references change. -/
theorem recount
    {held' : Nat → Nat} {count : Byte}
    (inMain : InMain low high page)
    (unmapped : memory.entryRefs page = 0)
    (unlinked : memory.tableRefs page = 0)
    (counted : count.toNat = held' page)
    (single : held' page ≤ 1)
    (others : ∀ other, other ≠ page → held' other = held other) :
    Accounted low high held' (setMap (page - lowMemPage) count memory) := by
  have countOther {other : Nat}
      (otherMain : InMain low high other)
      (different : other ≠ page) :
      (setMap (page - lowMemPage) count memory).memMap
          (other - lowMemPage) =
        memory.memMap (other - lowMemPage) := by
    rw [memMap_setMap, if_neg]
    intro same
    exact different (accounted.map_index_eq inMain otherMain same)
  have exactPage := accounted.exact page inMain
  have sameEntries :
      ∀ other ∈ userEntries, other ≠ (16, 0) →
        (setMap (page - lowMemPage) count memory).entryAt other =
          memory.entryAt other :=
    fun _ _ _ => rfl
  apply accounted.transfer someSlot someDir sameEntries
    (fun _ _ _ => rfl) rfl
  case reserved =>
    intro index outside
    rw [memMap_setMap, if_neg (accounted.map_index_outside inMain outside)]
  case balance =>
    intro other otherMain
    by_cases same : other = page
    · subst same
      rw [memMap_setMap, if_pos rfl]
      change
        count.toNat + refersTo (memory.frameAt (16, 0)) other +
            refersTo (memory.tableOf 16) other + held other =
          (memory.memMap (other - lowMemPage)).toNat +
            refersTo (memory.frameAt (16, 0)) other +
            refersTo (memory.tableOf 16) other + held' other
      omega
    · rw [countOther otherMain same, others other same]
      rfl
  case newTable =>
    exact accounted.tableMain _ someDir
  case singles =>
    intro dir member table pointsTo
    have tableMain := accounted.tableMain dir member table pointsTo
    rw [countOther tableMain]
    · exact accounted.tableSingle dir member table pointsTo
    · rintro rfl
      exact tableOf_ne_of_refs unlinked member pointsTo
  case newEntry =>
    exact accounted.entryMain _ someSlot
  case newAligned =>
    intro target mapped aboveLow other member _ otherMaps
    exact accounted.aligned other member _ someSlot target
      otherMaps mapped aboveLow
  case heldMain =>
    intro other isHeld
    by_cases same : other = page
    · rw [same]
      exact inMain
    · rw [others other same] at isHeld
      exact accounted.heldMain other isHeld
  case heldSingle =>
    intro other isHeld
    by_cases same : other = page
    · subst same
      rw [memMap_setMap, if_pos rfl]
      apply BitVec.eq_of_toNat_eq
      simp only [BitVec.toNat_ofNat]
      omega
    · rw [others other same] at isHeld
      rw [countOther (accounted.heldMain other isHeld) same]
      exact accounted.heldSingle other isHeld
  case writable =>
    intro other member entry entryShape isWritable
    have old :=
      accounted.writableSingle other member entry entryShape
        isWritable
    refine ⟨old.1, ?_⟩
    have mapped := frameAt_of_entry entryShape
    have frameMain :=
      (accounted.entryMain other member entry.frame mapped)
        |>.resolve_left (by omega)
    rw [countOther frameMain]
    · exact old.2
    · rintro rfl
      exact frameAt_ne_of_refs unmapped member mapped
  case kernelDir =>
    rfl
  case kernelEntries =>
    intro index _
    rfl

/-- The allocator's step: a free page becomes a page held by the kernel. -/
theorem take
    (inMain : InMain low high page)
    (free : memory.memMap (page - lowMemPage) = 0#8) :
    Accounted low high (Function.update held page 1)
      (storePage page (fun _ => 0#32)
        (setMap (page - lowMemPage) 1#8 memory)) := by
  have refs := accounted.free_refs inMain free
  have counted :
      Accounted low high (Function.update held page 1)
        (setMap (page - lowMemPage) 1#8 memory) := by
    apply accounted.recount inMain refs.1 refs.2.1
    · simp
    · simp
    · intro other different
      simp [different]
  exact counted.storeContents (accounted.above_low inMain) refs.2.1

/-- The kernel hands a page back. -/
theorem drop
    (isHeld : 0 < held page) :
    Accounted low high (Function.update held page 0)
      (setMap (page - lowMemPage)
        (memory.memMap (page - lowMemPage) - 1#8) memory) := by
  have refs := accounted.held_refs isHeld
  rw [accounted.heldSingle page isHeld]
  apply accounted.recount (accounted.heldMain page isHeld)
    refs.1 refs.2.1
  · simp
  · simp
  · intro other different
    simp [different]

end Held

/-! ## Page-table entries -/

section Entries

variable {dir index table : Nat}

theorem page_lt
    {page : Nat}
    (inMain : InMain low high page) :
    page < 2 ^ 20 := by
  have below := inMain.2
  have bound := accounted.highBound
  unfold lowMemPage pagingPages at bound
  omega

omit accounted in
theorem slotDir
    (slotMember : (dir, index) ∈ userEntries) :
    dir ∈ userDirs := by
  rw [mem_userEntries] at slotMember
  exact mem_userDirs.mpr slotMember.1

/-- A page that some entry maps without the write bit is nowhere writable. -/
theorem not_writable
    {source other : Nat × Nat} {entry otherEntry : Word}
    (sourceMember : source ∈ userEntries)
    (sourceEntry : memory.entryAt source = some entry)
    (readOnly : entry.writable = false)
    (aboveLow : lowMemPage ≤ entry.frame)
    (otherMember : other ∈ userEntries)
    (otherShape : memory.entryAt other = some otherEntry)
    (sameFrame : otherEntry.frame = entry.frame) :
    otherEntry.writable = false := by
  by_contra isWritable
  rw [Bool.not_eq_false] at isWritable
  have single :=
    (accounted.writableSingle other otherMember otherEntry
      otherShape isWritable).2
  rw [sameFrame] at single
  have sourceMaps := frameAt_of_entry sourceEntry
  have otherMaps := frameAt_of_entry otherShape
  rw [sameFrame] at otherMaps
  have inMain :=
    (accounted.entryMain source sourceMember entry.frame sourceMaps)
      |>.resolve_left (by omega)
  have one := accounted.refs_eq_one inMain single
  by_cases same : other = source
  · subst same
    rw [sourceEntry] at otherShape
    cases otherShape
    rw [readOnly] at isWritable
    exact Bool.noConfusion isWritable
  · have twice : 1 < memory.entryRefs entry.frame :=
      one_lt_occurrences otherMember sourceMember same
        otherMaps sourceMaps
    omega

/-- An entry keeps its page and changes its flags. -/
theorem reflag
    {memory' : Memory} {entry word : Word}
    (slotMember : (dir, index) ∈ userEntries)
    (pointsTo : memory.tableOf dir = some table)
    (mapped : memory.entryAt (dir, index) = some entry)
    (isPresent : word.present = true)
    (sameFrame : word.frame = entry.frame)
    (single :
      word.writable = true →
        lowMemPage ≤ entry.frame ∧ memory.memMap (entry.frame - lowMemPage) = 1#8)
    (shape : memory' = store table index word memory) :
    Accounted low high held memory' := by
  subst shape
  have maps := frameAt_of_entry mapped
  apply accounted.setEntry slotMember pointsTo rfl rfl
    (fun _ _ => rfl)
  case balance =>
    intro page _
    rw [maps, entryOf_of_present isPresent, Option.map_some, sameFrame, memMap_store]
  case tableCounts =>
    exact accounted.tableSingle
  case newEntry =>
    intro _
    rw [sameFrame]
    exact accounted.entryMain _ slotMember _ maps
  case newAligned =>
    intro _ aboveLow other member _ otherMaps
    rw [sameFrame] at aboveLow otherMaps
    exact accounted.aligned other member _ slotMember _
      otherMaps maps aboveLow
  case heldMain =>
    exact accounted.heldMain
  case heldSingle =>
    exact accounted.heldSingle
  case newWritable =>
    intro _ isWritable
    rw [sameFrame]
    exact single isWritable
  case oldWritable =>
    intro other member _ otherEntry otherShape isWritable
    exact (accounted.writableSingle other member otherEntry
      otherShape isWritable).2

/-- A page held by the kernel is mapped into an empty entry. -/
theorem mapHeld
    {page : Nat}
    (slotMember : (dir, index) ∈ userEntries)
    (pointsTo : memory.tableOf dir = some table)
    (empty : memory.entryAt (dir, index) = none)
    (isHeld : 0 < held page) :
    Accounted low high (Function.update held page 0)
      (store table index (Word.userEntry page) memory) := by
  have inMain := accounted.heldMain page isHeld
  have refs := accounted.held_refs isHeld
  have newFrame := Word.frame_userEntry (accounted.page_lt inMain)
  have stillHeld {other : Nat}
      (positive : 0 < Function.update held page 0 other) :
      0 < held other := by
    by_cases same : other = page
    · simp [same] at positive
    · simpa [same] using positive
  apply accounted.setEntry slotMember pointsTo rfl rfl
    (fun _ _ => rfl)
  case balance =>
    intro other _
    have noOld : memory.frameAt (dir, index) = none := by
      simp [frameAt, empty]
    rw [noOld, entryOf_of_present (Word.present_userEntry page),
      Option.map_some, newFrame, memMap_store]
    by_cases same : other = page
    · subst same
      simp
      omega
    · rw [refersTo_of_ne (Ne.symm same)]
      simp [same]
  case tableCounts =>
    exact accounted.tableSingle
  case newEntry =>
    intro _
    rw [newFrame]
    exact Or.inr inMain
  case newAligned =>
    intro _ _ other member _ otherMaps
    rw [newFrame] at otherMaps
    exact (frameAt_ne_of_refs refs.1 member otherMaps).elim
  case heldMain =>
    intro other positive
    exact accounted.heldMain other (stillHeld positive)
  case heldSingle =>
    intro other positive
    exact accounted.heldSingle other (stillHeld positive)
  case newWritable =>
    intro _ _
    rw [newFrame]
    exact ⟨accounted.above_low inMain, accounted.heldSingle page isHeld⟩
  case oldWritable =>
    intro other member _ otherEntry otherShape isWritable
    exact (accounted.writableSingle other member otherEntry
      otherShape isWritable).2

/--
A page that is mapped without the write bit is mapped once more, at the same
offset of another slot.
-/
theorem share
    {memory' : Memory} {source : Nat × Nat} {entry word : Word}
    (sourceMember : source ∈ userEntries)
    (sourceEntry : memory.entryAt source = some entry)
    (readOnly : entry.writable = false)
    (aboveLow : lowMemPage ≤ entry.frame)
    (slotMember : (dir, index) ∈ userEntries)
    (pointsTo : memory.tableOf dir = some table)
    (empty : memory.entryAt (dir, index) = none)
    (sameOffset : source.1 % 16 = dir % 16 ∧ source.2 = index)
    (isPresent : word.present = true)
    (sameFrame : word.frame = entry.frame)
    (newReadOnly : word.writable = false)
    (shape :
      memory' =
        setMap (entry.frame - lowMemPage)
          (memory.memMap (entry.frame - lowMemPage) + 1#8)
          (store table index word memory)) :
    Accounted low high held memory' := by
  subst shape
  have sourceMaps := frameAt_of_entry sourceEntry
  have inMain :=
    (accounted.entryMain source sourceMember entry.frame sourceMaps)
      |>.resolve_left (by omega)
  have refs := accounted.mapped_refs sourceMember sourceMaps
  have counted :=
    accounted.count_add_one sourceMember sourceMaps inMain
  have countOther {other : Nat}
      (otherMain : InMain low high other)
      (different : other ≠ entry.frame) :
      (setMap (entry.frame - lowMemPage)
          (memory.memMap (entry.frame - lowMemPage) + 1#8)
          (store table index word memory)).memMap
            (other - lowMemPage) =
        memory.memMap (other - lowMemPage) := by
    rw [memMap_setMap, if_neg, memMap_store]
    intro same
    exact different (accounted.map_index_eq inMain otherMain same)
  have ram :
      (setMap (entry.frame - lowMemPage)
          (memory.memMap (entry.frame - lowMemPage) + 1#8)
          (store table index word memory)).ram =
        (store table index word memory).ram :=
    rfl
  apply accounted.setEntry slotMember pointsTo ram rfl
  case reserved =>
    intro position outside
    rw [memMap_setMap,
      if_neg (accounted.map_index_outside inMain outside),
      memMap_store]
  case balance =>
    intro other otherMain
    have noOld : memory.frameAt (dir, index) = none := by
      simp [frameAt, empty]
    rw [noOld, entryOf_of_present isPresent, Option.map_some, sameFrame]
    by_cases same : other = entry.frame
    · subst same
      rw [memMap_setMap, if_pos rfl, counted]
      simp
    · rw [countOther otherMain same,
        refersTo_of_ne (Ne.symm same)]
      simp
  case tableCounts =>
    intro other member otherTable points
    have tableMain :=
      accounted.tableMain other member otherTable points
    rw [countOther tableMain]
    · exact accounted.tableSingle other member otherTable points
    · rintro rfl
      exact accounted.frameAt_ne_table member points sourceMember
        sourceMaps
  case newEntry =>
    intro _
    rw [sameFrame]
    exact Or.inr inMain
  case newAligned =>
    intro _ _ other member _ otherMaps
    rw [sameFrame] at otherMaps
    have offsets :=
      accounted.aligned other member source sourceMember _
        otherMaps sourceMaps aboveLow
    omega
  case heldMain =>
    exact accounted.heldMain
  case heldSingle =>
    intro other isHeld
    rw [countOther (accounted.heldMain other isHeld)]
    · exact accounted.heldSingle other isHeld
    · rintro rfl
      omega
  case newWritable =>
    intro _ isWritable
    rw [newReadOnly] at isWritable
    exact Bool.noConfusion isWritable
  case oldWritable =>
    intro other member _ otherEntry otherShape isWritable
    have old :=
      accounted.writableSingle other member otherEntry otherShape
        isWritable
    have otherMain :=
      (accounted.entryMain other member otherEntry.frame
        (frameAt_of_entry otherShape)).resolve_left (by omega)
    rw [countOther otherMain]
    · exact old.2
    · intro same
      have readOnlyToo :=
        accounted.not_writable sourceMember sourceEntry readOnly
          aboveLow member otherShape same
      rw [readOnlyToo] at isWritable
      exact Bool.noConfusion isWritable

/-- A page below 1 MB, which has no counter, is mapped without the write bit. -/
theorem mapLow
    {word : Word}
    (slotMember : (dir, index) ∈ userEntries)
    (pointsTo : memory.tableOf dir = some table)
    (empty : memory.entryAt (dir, index) = none)
    (isPresent : word.present = true)
    (below : word.frame < lowMemPage)
    (readOnly : word.writable = false) :
    Accounted low high held (store table index word memory) := by
  apply accounted.setEntry slotMember pointsTo rfl rfl
    (fun _ _ => rfl)
  case balance =>
    intro page inMain
    have noOld : memory.frameAt (dir, index) = none := by
      simp [frameAt, empty]
    have aboveLow := accounted.above_low inMain
    have different : word.frame ≠ page := by
      omega
    rw [noOld, entryOf_of_present isPresent, Option.map_some,
      refersTo_of_ne different, memMap_store]
    simp
  case tableCounts =>
    exact accounted.tableSingle
  case newEntry =>
    intro _
    exact Or.inl below
  case newAligned =>
    intro _ aboveLow
    omega
  case heldMain =>
    exact accounted.heldMain
  case heldSingle =>
    exact accounted.heldSingle
  case newWritable =>
    intro _ isWritable
    rw [readOnly] at isWritable
    exact Bool.noConfusion isWritable
  case oldWritable =>
    intro other member _ otherEntry otherShape isWritable
    exact (accounted.writableSingle other member otherEntry
      otherShape isWritable).2

/--
An entry is cleared, or replaced by a page that the kernel holds, and the page
it mapped loses one reference.
-/
theorem replace
    {memory' : Memory} {held' : Nat → Nat} {entry word : Word}
    (slotMember : (dir, index) ∈ userEntries)
    (pointsTo : memory.tableOf dir = some table)
    (mapped : memory.entryAt (dir, index) = some entry)
    (newPage :
      (word.present = false ∧ held' = held) ∨
        (word.present = true ∧ 0 < held word.frame ∧
          held' = Function.update held word.frame 0))
    (shape :
      memory' = store table index word (uncounted memory entry.frame)) :
    Accounted low high held' memory' := by
  subst shape
  have maps := frameAt_of_entry mapped
  have inMain (aboveLow : lowMemPage ≤ entry.frame) :
      InMain low high entry.frame :=
    (accounted.entryMain _ slotMember entry.frame maps)
      |>.resolve_left (by omega)
  have refs := accounted.mapped_refs slotMember maps
  have stillHeld {other : Nat} (positive : 0 < held' other) :
      0 < held other := by
    rcases newPage with ⟨_, same⟩ | ⟨_, _, same⟩
    · rwa [same] at positive
    · rw [same] at positive
      by_cases sameFrame : other = word.frame
      · simp [sameFrame] at positive
      · simpa [sameFrame] using positive
  have countOther {other : Nat}
      (otherMain : InMain low high other)
      (different : other ≠ entry.frame) :
      (store table index word
          (uncounted memory entry.frame)).memMap
            (other - lowMemPage) =
        memory.memMap (other - lowMemPage) := by
    rw [memMap_store]
    unfold uncounted
    split
    · rename_i aboveLow
      rw [memMap_setMap, if_neg]
      intro same
      exact different
        (accounted.map_index_eq (inMain aboveLow) otherMain same)
    · rfl
  have entryHeld : held entry.frame = 0 := refs.2
  have ram :
      (store table index word
          (uncounted memory entry.frame)).ram =
        (store table index word memory).ram := by
    unfold store
    simp
  apply accounted.setEntry slotMember pointsTo ram
  case highMemory =>
    simp
  case reserved =>
    intro position outside
    rw [memMap_store]
    unfold uncounted
    split
    · rename_i aboveLow
      rw [memMap_setMap,
        if_neg (accounted.map_index_outside
          (inMain aboveLow) outside)]
    · rfl
  case balance =>
    intro other otherMain
    have incoming :
        refersTo ((entryOf word).map Word.frame) other +
            held' other =
          held other := by
      rcases newPage with ⟨absent, same⟩ | ⟨isPresent, isHeld, same⟩
      · rw [entryOf_of_absent absent, same]
        simp
      · rw [entryOf_of_present isPresent, same, Option.map_some]
        by_cases sameFrame : other = word.frame
        · have one := (accounted.held_refs isHeld).2.2
          rw [sameFrame]
          simp [one]
        · rw [refersTo_of_ne (Ne.symm sameFrame)]
          simp [sameFrame]
    rw [maps]
    by_cases same : other = entry.frame
    · subst same
      have aboveLow := accounted.above_low otherMain
      have nonzero :=
        accounted.count_ne_zero slotMember maps otherMain
      have counted := count_sub_one nonzero
      rw [memMap_store]
      unfold uncounted
      rw [if_pos aboveLow, memMap_setMap, if_pos rfl]
      rw [refersTo_self]
      omega
    · rw [countOther otherMain same,
        refersTo_of_ne (Ne.symm same)]
      omega
  case tableCounts =>
    intro other member otherTable points
    have tableMain :=
      accounted.tableMain other member otherTable points
    rw [countOther tableMain]
    · exact accounted.tableSingle other member otherTable points
    · rintro rfl
      exact accounted.frameAt_ne_table member points slotMember maps
  case newEntry =>
    intro isPresent
    rcases newPage with ⟨absent, _⟩ | ⟨_, isHeld, _⟩
    · rw [absent] at isPresent
      exact Bool.noConfusion isPresent
    · exact Or.inr (accounted.heldMain _ isHeld)
  case newAligned =>
    intro isPresent _ other member _ otherMaps
    rcases newPage with ⟨absent, _⟩ | ⟨_, isHeld, _⟩
    · rw [absent] at isPresent
      exact Bool.noConfusion isPresent
    · exact (frameAt_ne_of_refs (accounted.held_refs isHeld).1
        member otherMaps).elim
  case heldMain =>
    intro other positive
    exact accounted.heldMain other (stillHeld positive)
  case heldSingle =>
    intro other positive
    have wasHeld := stillHeld positive
    rw [countOther (accounted.heldMain other wasHeld)]
    · exact accounted.heldSingle other wasHeld
    · rintro rfl
      omega
  case newWritable =>
    intro isPresent _
    rcases newPage with ⟨absent, _⟩ | ⟨_, isHeld, _⟩
    · rw [absent] at isPresent
      exact Bool.noConfusion isPresent
    · have newMain := accounted.heldMain _ isHeld
      refine ⟨accounted.above_low newMain, ?_⟩
      rw [countOther newMain]
      · exact accounted.heldSingle _ isHeld
      · intro same
        rw [same] at isHeld
        omega
  case oldWritable =>
    intro other member different otherEntry otherShape isWritable
    have old :=
      accounted.writableSingle other member otherEntry otherShape
        isWritable
    have otherMaps := frameAt_of_entry otherShape
    have otherMain :=
      (accounted.entryMain other member otherEntry.frame otherMaps)
        |>.resolve_left (by omega)
    rw [countOther otherMain]
    · exact old.2
    · intro same
      have one := accounted.refs_eq_one otherMain old.2
      rw [same] at one otherMaps
      have twice : 1 < memory.entryRefs entry.frame :=
        one_lt_occurrences member slotMember different
          otherMaps maps
      omega

end Entries

/-! ## Directory entries -/

section Directory

variable {dir : Nat}

omit accounted in
/-- A store to a task's directory entry changes that entry only. -/
theorem tableOf_store_dir
    {word : Word} {other : Nat}
    (different : other ≠ dir) :
    (store 0 dir word memory).tableOf other = memory.tableOf other := by
  apply tableOf_congr
  rw [ram_store, if_neg]
  exact fun same => different same.2

omit accounted in
theorem tableOf_store_dir_self
    (word : Word) :
    (store 0 dir word memory).tableOf dir =
      (entryOf word).map Word.frame := by
  unfold tableOf
  rw [ram_store, if_pos ⟨rfl, rfl⟩]

theorem entryAt_store_dir
    {word : Word} {slot : Nat × Nat}
    (slotMember : slot ∈ userEntries)
    (different : slot.1 ≠ dir) :
    (store 0 dir word memory).entryAt slot = memory.entryAt slot := by
  apply entryAt_congr (tableOf_store_dir different)
  intro table pointsTo
  rw [ram_store, if_neg]
  rintro ⟨zero, _⟩
  obtain ⟨slotDir, slotIndex⟩ := slot
  exact accounted.table_ne_zero (Accounted.slotDir slotMember)
    pointsTo zero

/-- A page held by the kernel becomes the page table of an empty directory entry. -/
theorem link
    {page : Nat}
    (dirMember : dir ∈ userDirs)
    (empty : memory.tableOf dir = none)
    (isHeld : 0 < held page)
    (noEntries :
      ∀ index, index < 1024 → (memory.ram page index).present = false) :
    Accounted low high (Function.update held page 0)
        (store 0 dir (Word.userEntry page) memory) ∧
      (store 0 dir (Word.userEntry page) memory).tableOf dir = some page ∧
      ∀ slot ∈ userEntries,
        (store 0 dir (Word.userEntry page) memory).entryAt slot =
          memory.entryAt slot := by
  have inMain := accounted.heldMain page isHeld
  have refs := accounted.held_refs isHeld
  have newTable :
      (store 0 dir (Word.userEntry page) memory).tableOf dir =
        some page := by
    rw [tableOf_store_dir_self,
      entryOf_of_present (Word.present_userEntry page),
      Option.map_some,
      Word.frame_userEntry (accounted.page_lt inMain)]
  have entries :
      ∀ slot ∈ userEntries,
        (store 0 dir (Word.userEntry page) memory).entryAt slot =
          memory.entryAt slot := by
    rintro ⟨slotDir, slotIndex⟩ slotMember
    by_cases same : slotDir = dir
    · subst same
      rw [entryAt_of_table newTable, entryAt_of_no_table empty, entryOf_eq_none]
      rw [ram_store_of_ne]
      · rw [mem_userEntries] at slotMember
        exact noEntries slotIndex slotMember.2
      · have aboveLow := accounted.above_low inMain
        unfold lowMemPage at aboveLow
        omega
    · exact accounted.entryAt_store_dir slotMember same
  have stillHeld {other : Nat}
      (positive : 0 < Function.update held page 0 other) :
      0 < held other := by
    by_cases same : other = page
    · simp [same] at positive
    · simpa [same] using positive
  refine ⟨?_, newTable, entries⟩
  apply accounted.transfer someSlot dirMember
    (fun other member _ => entries other member)
    (fun other _ different => tableOf_store_dir different)
    rfl (fun _ _ => rfl)
  case balance =>
    intro other _
    rw [frameAt_congr (entries _ someSlot), newTable, empty, memMap_store]
    by_cases same : other = page
    · subst same
      simp
      omega
    · rw [refersTo_of_ne (Ne.symm same)]
      simp [same]
  case newTable =>
    intro table pointsTo
    rw [newTable] at pointsTo
    cases pointsTo
    exact inMain
  case singles =>
    intro other member table pointsTo
    by_cases same : other = dir
    · subst same
      rw [newTable] at pointsTo
      cases pointsTo
      exact accounted.heldSingle page isHeld
    · rw [tableOf_store_dir same] at pointsTo
      exact accounted.tableSingle other member table pointsTo
  case newEntry =>
    intro target mapped
    rw [frameAt_congr (entries _ someSlot)] at mapped
    exact accounted.entryMain _ someSlot target mapped
  case newAligned =>
    intro target mapped aboveLow other member _ otherMaps
    rw [frameAt_congr (entries _ someSlot)] at mapped
    exact accounted.aligned other member _ someSlot target
      otherMaps mapped aboveLow
  case heldMain =>
    intro other positive
    exact accounted.heldMain other (stillHeld positive)
  case heldSingle =>
    intro other positive
    exact accounted.heldSingle other (stillHeld positive)
  case writable =>
    intro other member entry entryShape isWritable
    rw [entries other member] at entryShape
    exact accounted.writableSingle other member entry entryShape
      isWritable
  case kernelDir =>
    rw [ram_store, if_neg]
    rintro ⟨_, zero⟩
    rw [mem_userDirs] at dirMember
    omega
  case kernelEntries =>
    intro index _
    rw [ram_store_of_ne (by decide)]

/-- An empty page table is unlinked and freed. -/
theorem unlink
    {memory' : Memory} {table : Nat}
    (dirMember : dir ∈ userDirs)
    (pointsTo : memory.tableOf dir = some table)
    (noEntries :
      ∀ index, index < 1024 → memory.entryAt (dir, index) = none)
    (shape :
      memory' =
        store 0 dir 0#32
          (setMap (table - lowMemPage)
            (memory.memMap (table - lowMemPage) - 1#8) memory)) :
    Accounted low high held memory' ∧
      memory'.tableOf dir = none ∧
      ∀ slot ∈ userEntries,
        memory'.entryAt slot = memory.entryAt slot := by
  subst shape
  have inMain := accounted.tableMain dir dirMember table pointsTo
  have refs := accounted.table_refs dirMember pointsTo
  have newTable :
      (store 0 dir 0#32
          (setMap (table - lowMemPage)
            (memory.memMap (table - lowMemPage) - 1#8)
            memory)).tableOf dir =
        none := by
    rw [tableOf_store_dir_self]
    rfl
  have otherTables {other : Nat} (different : other ≠ dir) :
      (store 0 dir 0#32
          (setMap (table - lowMemPage)
            (memory.memMap (table - lowMemPage) - 1#8)
            memory)).tableOf other =
        memory.tableOf other :=
    tableOf_store_dir different
  have entries :
      ∀ slot ∈ userEntries,
        (store 0 dir 0#32
            (setMap (table - lowMemPage)
              (memory.memMap (table - lowMemPage) - 1#8)
              memory)).entryAt slot =
          memory.entryAt slot := by
    rintro ⟨slotDir, slotIndex⟩ slotMember
    by_cases same : slotDir = dir
    · subst same
      rw [mem_userEntries] at slotMember
      rw [entryAt_of_no_table newTable, noEntries slotIndex slotMember.2]
    · exact accounted.entryAt_store_dir slotMember same
  have countOther {other : Nat}
      (otherMain : InMain low high other)
      (different : other ≠ table) :
      (setMap (table - lowMemPage)
          (memory.memMap (table - lowMemPage) - 1#8) memory).memMap
            (other - lowMemPage) =
        memory.memMap (other - lowMemPage) := by
    rw [memMap_setMap, if_neg]
    intro same
    exact different (accounted.map_index_eq inMain otherMain same)
  refine ⟨?_, newTable, entries⟩
  apply accounted.transfer someSlot dirMember
    (fun other member _ => entries other member)
    (fun other _ different => otherTables different)
    rfl
  case reserved =>
    intro index outside
    rw [memMap_store, memMap_setMap,
      if_neg (accounted.map_index_outside inMain outside)]
  case balance =>
    intro other otherMain
    rw [frameAt_congr (entries _ someSlot), newTable, pointsTo, memMap_store]
    by_cases same : other = table
    · subst same
      have single :=
        accounted.tableSingle dir dirMember other pointsTo
      rw [memMap_setMap, if_pos rfl, single]
      simp
      omega
    · rw [countOther otherMain same,
        refersTo_of_ne (Ne.symm same)]
      simp
  case newTable =>
    intro other points
    rw [newTable] at points
    cases points
  case singles =>
    intro other member otherTable points
    by_cases same : other = dir
    · subst same
      rw [newTable] at points
      cases points
    · rw [otherTables same] at points
      rw [memMap_store, countOther
        (accounted.tableMain other member otherTable points)]
      · exact accounted.tableSingle other member otherTable points
      · rintro rfl
        exact same
          (accounted.table_injective member dirMember points pointsTo)
  case newEntry =>
    intro target mapped
    rw [frameAt_congr (entries _ someSlot)] at mapped
    exact accounted.entryMain _ someSlot target mapped
  case newAligned =>
    intro target mapped aboveLow other member _ otherMaps
    rw [frameAt_congr (entries _ someSlot)] at mapped
    exact accounted.aligned other member _ someSlot target
      otherMaps mapped aboveLow
  case heldMain =>
    exact accounted.heldMain
  case heldSingle =>
    intro other isHeld
    rw [memMap_store, countOther (accounted.heldMain other isHeld)]
    · exact accounted.heldSingle other isHeld
    · rintro rfl
      omega
  case writable =>
    intro other member entry entryShape isWritable
    rw [entries other member] at entryShape
    have old :=
      accounted.writableSingle other member entry entryShape
        isWritable
    have mapped := frameAt_of_entry entryShape
    have frameMain :=
      (accounted.entryMain other member entry.frame mapped)
        |>.resolve_left (by omega)
    refine ⟨old.1, ?_⟩
    rw [memMap_store, countOther frameMain]
    · exact old.2
    · rintro rfl
      exact accounted.frameAt_ne_table dirMember pointsTo member
        mapped
  case kernelDir =>
    rw [ram_store, if_neg]
    · rfl
    · rintro ⟨_, zero⟩
      rw [mem_userDirs] at dirMember
      omega
  case kernelEntries =>
    intro index _
    rw [ram_store_of_ne (by decide)]
    rfl

end Directory

end Accounted

end Memory

end HitOs
