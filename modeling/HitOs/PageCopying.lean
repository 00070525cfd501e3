import HitOs.PageRoutines

namespace HitOs

/-!
# Copying page tables

The specification of `copy_page_tables` and of its caller `copy_mem`.  Every
present entry of the source slot is repeated, without its write bit, at the same
offset of the destination slot; the source entries of counted pages lose their
write bit too.  When memory runs out, a first part of the directory entries has
been copied in this way and the rest of the destination is still empty.
-/

namespace Memory

open Routine

variable {low high : Nat} {held : Nat → Nat} {memory : Memory}
variable {abandoned : Memory → Prop}

/-! ## One entry -/

/-- What copying leaves in the entry copied from: pages below 1 MB keep theirs. -/
def protectMain (entry : Word) : Word :=
  if lowMemPage ≤ entry.frame then entry.writeProtect else entry

@[simp] theorem frame_protectMain
    (entry : Word) :
    (protectMain entry).frame = entry.frame := by
  unfold protectMain
  split <;> simp

@[simp] theorem dirty_protectMain
    (entry : Word) :
    (protectMain entry).dirty = entry.dirty := by
  unfold protectMain
  split <;> simp

/-- What copying one entry has done. -/
structure EntryCopied
    (low high : Nat)
    (held : Nat → Nat)
    (fromDir fromTable toDir toTable index : Nat)
    (memory after : Memory) : Prop where
  accounted :
    Accounted low high held after
  tables :
    ∀ other, after.tableOf other = memory.tableOf other
  copied :
    after.entryAt (toDir, index) =
      (memory.entryAt (fromDir, index)).map Word.writeProtect
  source :
    after.entryAt (fromDir, index) = (memory.entryAt (fromDir, index)).map protectMain
  others :
    ∀ slot, Copyable slot.1 slot.2 →
      slot ≠ (toDir, index) → slot ≠ (fromDir, index) →
      after.entryAt slot = memory.entryAt slot
  ram :
    ∀ page, page ≠ toTable → (page = fromTable → fromDir = 0) →
      after.ram page = memory.ram page

section Copy

variable {fromDir fromTable toDir toTable index : Nat}

theorem store_comm
    {page other index position : Nat} {word otherWord : Word}
    (different : page ≠ other) :
    store page index word (store other position otherWord memory) =
      store other position otherWord (store page index word memory) := by
  unfold store
  simp only [Memory.mk.injEq, and_true]
  rw [Function.update_of_ne different,
    Function.update_of_ne (Ne.symm different),
    Function.update_comm different]

theorem satisfies_copyEntry
    (accounted : Accounted low high held memory)
    (slotMember : (toDir, index) ∈ userEntries)
    (toPoints : memory.tableOf toDir = some toTable)
    (fromPoints : memory.tableOf fromDir = some fromTable)
    (origin : Copyable fromDir index)
    (different : fromDir ≠ toDir)
    (sameOffset : fromDir % 16 = toDir % 16)
    (empty : memory.entryAt (toDir, index) = none) :
    Satisfies (copyEntry fromTable toTable index) memory
      (fun _ after =>
        EntryCopied low high held fromDir fromTable toDir toTable
          index memory after)
      abandoned := by
  have toMember := Accounted.slotDir slotMember
  have source := entryAt_of_table fromPoints index
  unfold copyEntry
  rw [satisfies_bind, satisfies_read]
  cases isPresent : (memory.ram fromTable index).present with
  | false =>
    rw [entryOf_of_absent isPresent] at source
    simp only [isPresent, Bool.false_eq_true, ↓reduceIte, satisfies_pure]
    refine ⟨accounted, fun _ => rfl, ?_, ?_, fun _ _ _ _ => rfl, fun _ _ _ => rfl⟩
    · rw [source, empty]
      rfl
    · rw [source]
      rfl
  | true =>
    rw [entryOf_of_present isPresent] at source
    have protectedPresent :
        (memory.ram fromTable index).writeProtect.present =
          true := by
      rw [Word.present_writeProtect]
      exact isPresent
    simp only [isPresent, ↓reduceIte]
    rw [satisfies_bind, satisfies_update]
    have aboveIff := Word.lowMem_lt_iff protectedPresent
    rw [Word.frame_writeProtect] at aboveIff
    by_cases main :
        0x100000#32 < (memory.ram fromTable index).writeProtect
    · -- a counted page: both entries lose the write bit
      have aboveLow :
          lowMemPage ≤ (memory.ram fromTable index).frame :=
        aboveIff.mp main
      have fromMember : (fromDir, index) ∈ userEntries := by
        rcases origin with user | ⟨rfl, inRange⟩
        · exact user
        · exfalso
          have kernelEntry := accounted.kernelEntry inRange
          rw [source] at kernelEntry
          have shape := Option.some.inj kernelEntry
          rw [shape, Word.frame_userEntry (by omega)] at aboveLow
          unfold lowMemPage at aboveLow
          omega
      have fromDirMember := Accounted.slotDir fromMember
      have differentTables : fromTable ≠ toTable := by
        rintro rfl
        exact different
          (accounted.table_injective fromDirMember toMember
            fromPoints toPoints)
      have differentSlots : (toDir, index) ≠ (fromDir, index) := by
        intro same
        exact different (congrArg Prod.fst same).symm
      obtain ⟨middle, middleShape⟩ :
          ∃ middle, middle =
            store fromTable index
              (memory.ram fromTable index).writeProtect memory :=
        ⟨_, rfl⟩
      have ram := congrArg Memory.ram middleShape
      have protectedAccounted :=
        accounted.reflag fromMember fromPoints source
          protectedPresent (Word.frame_writeProtect _)
          (by simp) middleShape
      have toPoints' :=
        (accounted.tableOf_store fromDirMember fromPoints ram
          toDir).trans toPoints
      have source' :=
        (accounted.entryAt_store_self fromDirMember fromPoints
          ram).trans (entryOf_of_present protectedPresent)
      have empty' :=
        (accounted.entryAt_store fromDirMember fromPoints ram
          slotMember differentSlots).trans empty
      have frameAbove :
          lowMemPage ≤
            (memory.ram fromTable index).writeProtect.frame := by
        rw [Word.frame_writeProtect]
        exact aboveLow
      have shared :=
        protectedAccounted.share fromMember source'
          (Word.writable_writeProtect _) frameAbove slotMember
          toPoints' empty' ⟨sameOffset, rfl⟩ protectedPresent rfl
          (Word.writable_writeProtect _) rfl
      simp only [main, ↓reduceIte]
      rw [satisfies_bind, satisfies_update, satisfies_update,
        store_comm differentTables, Word.mapNr_eq frameAbove,
        ← middleShape]
      refine ⟨shared, ?_, ?_, ?_, ?_, ?_⟩
      · intro other
        exact (protectedAccounted.tableOf_store toMember toPoints'
            rfl other).trans
          (accounted.tableOf_store fromDirMember fromPoints ram
            other)
      · rw [source, Option.map_some]
        exact (protectedAccounted.entryAt_store_self toMember
          toPoints' rfl).trans (entryOf_of_present protectedPresent)
      · rw [source, Option.map_some, protectMain, if_pos aboveLow]
        exact (protectedAccounted.entryAt_store toMember toPoints'
          rfl fromMember (Ne.symm differentSlots)).trans source'
      · rintro ⟨slotDir, slotIndex⟩ copyable notCopied notSource
        rcases copyable with user | ⟨rfl, _⟩
        · exact (protectedAccounted.entryAt_store toMember toPoints'
            rfl user notCopied).trans
            (accounted.entryAt_store fromDirMember fromPoints ram
              user notSource)
        · exact (protectedAccounted.kernelRow_store toMember
            toPoints' rfl).trans
            (accounted.kernelRow_store fromDirMember fromPoints ram)
      · intro page notTo onlySwapper
        have notFrom : page ≠ fromTable := by
          intro same
          rw [onlySwapper same, mem_userDirs] at fromDirMember
          omega
        rw [ram_setMap, ram_store_of_ne notTo, ram, ram_store_of_ne notFrom]
    · -- a page below 1 MB: only the new entry is write-protected
      have below :
          (memory.ram fromTable index).frame < lowMemPage :=
        Nat.not_le.mp fun aboveLow => main (aboveIff.mpr aboveLow)
      have mapped :=
        accounted.mapLow slotMember toPoints empty
          protectedPresent
          (by rw [Word.frame_writeProtect]; exact below)
          (Word.writable_writeProtect _)
      simp only [main, ↓reduceIte, satisfies_pure]
      have fromNotTo : (fromDir, index) ≠ (toDir, index) := by
        intro same
        exact different (congrArg Prod.fst same)
      have others :
          ∀ slot, Copyable slot.1 slot.2 →
            slot ≠ (toDir, index) →
            (store toTable index
                (memory.ram fromTable index).writeProtect
                memory).entryAt slot =
              memory.entryAt slot := by
        rintro ⟨slotDir, slotIndex⟩ copyable notCopied
        rcases copyable with user | ⟨rfl, _⟩
        · exact accounted.entryAt_store toMember toPoints rfl user
            notCopied
        · exact accounted.kernelRow_store toMember toPoints rfl
      refine ⟨mapped, ?_, ?_, ?_, ?_, ?_⟩
      · exact accounted.tableOf_store toMember toPoints rfl
      · rw [source, Option.map_some]
        exact (accounted.entryAt_store_self toMember toPoints
          rfl).trans (entryOf_of_present protectedPresent)
      · rw [others (fromDir, index) origin fromNotTo, source,
          Option.map_some, protectMain, if_neg]
        exact Nat.not_le.mpr below
      · intro slot copyable notCopied _
        exact others slot copyable notCopied
      · intro page notTo _
        exact ram_store_of_ne notTo

/-! ## One page table -/

/-- Inside the inner loop: the first `count` entries have been copied. -/
structure RowCopied
    (low high : Nat)
    (held : Nat → Nat)
    (fromDir fromTable toDir toTable count : Nat)
    (memory after : Memory) : Prop where
  accounted :
    Accounted low high held after
  tables :
    ∀ other, after.tableOf other = memory.tableOf other
  copied :
    ∀ index, index < 1024 →
      after.entryAt (toDir, index) =
        if index < count then
          (memory.entryAt (fromDir, index)).map Word.writeProtect
        else none
  source :
    ∀ index, Copyable fromDir index →
      after.entryAt (fromDir, index) =
        if index < count then
          (memory.entryAt (fromDir, index)).map protectMain
        else memory.entryAt (fromDir, index)
  others :
    ∀ slot, Copyable slot.1 slot.2 →
      slot.1 ≠ toDir → slot.1 ≠ fromDir →
      after.entryAt slot = memory.entryAt slot
  ram :
    ∀ page, page ≠ toTable → (page = fromTable → fromDir = 0) →
      after.ram page = memory.ram page

theorem satisfies_copyEntries
    {entries : Nat}
    (accounted : Accounted low high held memory)
    (toMember : toDir ∈ userDirs)
    (toPoints : memory.tableOf toDir = some toTable)
    (fromPoints : memory.tableOf fromDir = some fromTable)
    (inTable : entries ≤ 1024)
    (origin : ∀ index, index < entries → Copyable fromDir index)
    (different : fromDir ≠ toDir)
    (sameOffset : fromDir % 16 = toDir % 16)
    (empty :
      ∀ index, index < 1024 → memory.entryAt (toDir, index) = none) :
    Satisfies (forUp (copyEntry fromTable toTable) entries 0) memory
      (fun _ after =>
        RowCopied low high held fromDir fromTable toDir toTable
          entries memory after)
      abandoned := by
  have start :
      RowCopied low high held fromDir fromTable toDir toTable 0
        memory memory := by
    refine ⟨accounted, fun _ => rfl, ?_, ?_, fun _ _ _ _ => rfl, fun _ _ _ => rfl⟩
    · intro index inRange
      rw [if_neg (Nat.not_lt_zero index)]
      exact empty index inRange
    · intro index _
      rw [if_neg (Nat.not_lt_zero index)]
  refine (satisfies_forUp
    (fun count s =>
      RowCopied low high held fromDir fromTable toDir toTable count
        memory s)
    start ?_).mono ?_ (fun _ same => same)
  · intro index s _ upper row
    have below : index < entries := by
      omega
    have slotMember : (toDir, index) ∈ userEntries := by
      rw [mem_userEntries]
      exact ⟨mem_userDirs.mp toMember, by omega⟩
    have stillEmpty : s.entryAt (toDir, index) = none := by
      rw [row.copied index (by omega), if_neg (Nat.lt_irrefl index)]
    refine (satisfies_copyEntry row.accounted slotMember
      ((row.tables toDir).trans toPoints)
      ((row.tables fromDir).trans fromPoints)
      (origin index below) different sameOffset stillEmpty).mono ?_
      (fun _ same => same)
    intro _ after step
    refine ⟨step.accounted, ?_, ?_, ?_, ?_, ?_⟩
    · intro other
      rw [step.tables, row.tables]
    · intro other inRange
      by_cases same : other = index
      · subst same
        rw [step.copied, row.source other (origin other below),
          if_neg (Nat.lt_irrefl other),
          if_pos (Nat.lt_succ_self other)]
      · have notCopied : (toDir, other) ≠ (toDir, index) := by
          intro sameSlot
          exact same (congrArg Prod.snd sameSlot)
        have notSource : (toDir, other) ≠ (fromDir, index) := by
          intro sameSlot
          exact different (congrArg Prod.fst sameSlot).symm
        have otherMember : (toDir, other) ∈ userEntries := by
          rw [mem_userEntries]
          exact ⟨mem_userDirs.mp toMember, inRange⟩
        rw [step.others _ (Or.inl otherMember) notCopied notSource,
          row.copied other inRange]
        congr 1
        simp only [eq_iff_iff]
        omega
    · intro other copyable
      by_cases same : other = index
      · subst same
        rw [step.source, row.source other copyable,
          if_neg (Nat.lt_irrefl other),
          if_pos (Nat.lt_succ_self other)]
      · have notCopied : (fromDir, other) ≠ (toDir, index) := by
          intro sameSlot
          exact different (congrArg Prod.fst sameSlot)
        have notSource : (fromDir, other) ≠ (fromDir, index) := by
          intro sameSlot
          exact same (congrArg Prod.snd sameSlot)
        rw [step.others _ copyable notCopied notSource, row.source other copyable]
        congr 1
        simp only [eq_iff_iff]
        omega
    · intro slot member notTo notFrom
      have notCopied : slot ≠ (toDir, index) := by
        rintro rfl
        exact notTo rfl
      have notSource : slot ≠ (fromDir, index) := by
        rintro rfl
        exact notFrom rfl
      rw [step.others slot member notCopied notSource,
        row.others slot member notTo notFrom]
    · intro page notTo onlySwapper
      rw [step.ram page notTo onlySwapper, row.ram page notTo onlySwapper]
  · intro _ after row
    rwa [Nat.zero_add] at row

end Copy

/-! ## The directory entries of a slot -/

/-- What copying the first `size` directory entries has done. -/
structure DirsCopied
    (low high : Nat)
    (held : Nat → Nat)
    (entries fromDir toDir size : Nat)
    (memory after : Memory) : Prop where
  accounted :
    Accounted low high held after
  copied :
    ∀ offset index, offset < size → index < 1024 →
      after.entryAt (toDir + offset, index) =
        if index < entries then
          (memory.entryAt (fromDir + offset, index)).map
            Word.writeProtect
        else none
  source :
    ∀ offset index, offset < size →
      Copyable (fromDir + offset) index →
      after.entryAt (fromDir + offset, index) =
        if index < entries then
          (memory.entryAt (fromDir + offset, index)).map protectMain
        else memory.entryAt (fromDir + offset, index)
  others :
    ∀ slot, Copyable slot.1 slot.2 →
      ¬ (toDir ≤ slot.1 ∧ slot.1 < toDir + size) →
      ¬ (fromDir ≤ slot.1 ∧ slot.1 < fromDir + size) →
      after.entryAt slot = memory.entryAt slot
  tables :
    ∀ dir, ¬ (toDir ≤ dir ∧ dir < toDir + size) → after.tableOf dir = memory.tableOf dir
  data :
    KeepsData held memory after

namespace DirsCopied

variable {entries fromDir toDir size : Nat} {middle after : Memory}

/-- Outside the destination every entry keeps its page and its dirty bit. -/
theorem place_kept
    (copied :
      DirsCopied low high held entries fromDir toDir size memory after)
    {slot : Nat × Nat}
    (copyable : Copyable slot.1 slot.2)
    (notDest : ¬ (toDir ≤ slot.1 ∧ slot.1 < toDir + size)) :
    after.placeAt slot = memory.placeAt slot := by
  obtain ⟨dir, index⟩ := slot
  simp only at copyable notDest
  by_cases inSource : fromDir ≤ dir ∧ dir < fromDir + size
  · have shape : fromDir + (dir - fromDir) = dir := by
      omega
    have kept :=
      copied.source (dir - fromDir) index (by omega)
        (by rw [shape]; exact copyable)
    rw [shape] at kept
    rw [placeAt, kept, placeAt]
    split
    · rw [Option.map_map]
      congr 1
      funext entry
      exact Prod.ext (frame_protectMain entry) (dirty_protectMain entry)
    · rfl
  · exact placeAt_congr (copied.others _ copyable notDest inSource)

theorem frame_kept
    (copied :
      DirsCopied low high held entries fromDir toDir size memory after)
    {slot : Nat × Nat}
    (copyable : Copyable slot.1 slot.2)
    (notDest : ¬ (toDir ≤ slot.1 ∧ slot.1 < toDir + size)) :
    after.frameAt slot = memory.frameAt slot := by
  rw [frameAt_eq_place, frameAt_eq_place, copied.place_kept copyable notDest]

/-- A page mapped before the copy is still mapped after it. -/
theorem still_mapped
    (copied :
      DirsCopied low high held entries fromDir toDir size memory after)
    (empty :
      ∀ offset, offset < size → memory.tableOf (toDir + offset) = none)
    {page : Nat}
    (mapped : 0 < memory.entryRefs page) :
    0 < after.entryRefs page := by
  have positive := Nat.ne_of_gt mapped
  rw [entryRefs, Ne, occurrences_eq_zero_iff] at positive
  push Not at positive
  obtain ⟨⟨slotDir, slotIndex⟩, member, maps⟩ := positive
  apply occurrences_pos member
  by_cases inDest : toDir ≤ slotDir ∧ slotDir < toDir + size
  · exfalso
    have noTable := empty (slotDir - toDir) (by omega)
    rw [Nat.add_sub_cancel' inDest.1] at noTable
    rw [frameAt, entryAt_of_no_table noTable] at maps
    cases maps
  · rw [copied.frame_kept (Or.inl member) inDest]
    exact maps

/-- A page whose contents are kept stays one. -/
theorem still_kept
    (copied :
      DirsCopied low high held entries fromDir toDir size memory after)
    (empty :
      ∀ offset, offset < size → memory.tableOf (toDir + offset) = none)
    {page : Nat}
    (kept : Kept held memory page) :
    Kept held after page := by
  rcases kept with below | mapped | isHeld
  · exact Or.inl below
  · exact Or.inr (Or.inl (copied.still_mapped empty mapped))
  · exact Or.inr (Or.inr isHeld)

/-- Copying nothing. -/
theorem none_copied
    (accounted : Accounted low high held memory) :
    DirsCopied low high held entries fromDir toDir 0 memory memory := by
  refine ⟨accounted, ?_, ?_, fun _ _ _ _ => rfl, fun _ _ => rfl, fun _ _ _ => rfl⟩
  · intro offset index below
    omega
  · intro offset index below
    omega

/-- A source directory entry that is absent has nothing to copy. -/
theorem absent
    (accounted : Accounted low high held memory)
    (noSource : memory.tableOf fromDir = none)
    (noDest : memory.tableOf toDir = none) :
    DirsCopied low high held entries fromDir toDir 1 memory memory := by
  refine ⟨accounted, ?_, ?_, fun _ _ _ _ => rfl, fun _ _ => rfl, fun _ _ _ => rfl⟩
  · intro offset index below _
    obtain rfl : offset = 0 := by
      omega
    rw [Nat.add_zero, Nat.add_zero, entryAt_of_no_table noDest,
      entryAt_of_no_table noSource]
    simp
  · intro offset index below _
    obtain rfl : offset = 0 := by
      omega
    rw [Nat.add_zero, entryAt_of_no_table noSource]
    simp

/-- A source page table copied into a freshly linked one. -/
theorem linked
    {fromTable toTable : Nat}
    (accounted : Accounted low high held memory)
    (inMain : InMain low high toTable)
    (free : memory.memMap (toTable - lowMemPage) = 0#8)
    (fromPoints : memory.tableOf fromDir = some fromTable)
    (fromSource : fromDir ∈ userDirs ∨ fromDir = 0)
    (link : Linked low high held toDir toTable memory middle)
    (row :
      RowCopied low high held fromDir fromTable toDir toTable entries
        middle after)
    (origin : ∀ index, index < entries → Copyable fromDir index) :
    DirsCopied low high held entries fromDir toDir 1 memory after := by
  have refs := accounted.free_refs inMain free
  refine ⟨row.accounted, ?_, ?_, ?_, ?_, ?_⟩
  · intro offset index below inRange
    obtain rfl : offset = 0 := by
      omega
    rw [Nat.add_zero, Nat.add_zero, row.copied index inRange]
    split
    · rename_i inEntries
      rw [link.entries _ (origin index inEntries)]
    · rfl
  · intro offset index below copyable
    obtain rfl : offset = 0 := by
      omega
    rw [Nat.add_zero] at copyable ⊢
    rw [row.source index copyable, link.entries _ copyable]
  · intro slot copyable notTo notFrom
    rw [row.others slot copyable (by omega) (by omega),
      link.entries slot copyable]
  · intro dir notTo
    rw [row.tables dir, link.tables dir (by omega)]
  · intro page notZero mapped
    unfold Kept at mapped
    have notTo : page ≠ toTable := by
      rintro rfl
      have aboveLow := accounted.above_low inMain
      omega
    have onlySwapper : page = fromTable → fromDir = 0 := by
      rintro rfl
      rcases fromSource with fromMember | zero
      · exfalso
        have table := accounted.table_refs fromMember fromPoints
        have aboveLow :=
          accounted.above_low
            (accounted.tableMain fromDir fromMember page fromPoints)
        omega
      · exact zero
    rw [row.ram page notTo onlySwapper, link.ram page notZero notTo]

/-- The first directory entry is copied, then the others. -/
theorem cons
    (empty :
      ∀ offset, offset < size + 1 → memory.tableOf (toDir + offset) = none)
    (apart :
      ∀ offset other, offset < size + 1 → other < size + 1 →
        fromDir + offset ≠ toDir + other)
    (first :
      DirsCopied low high held entries fromDir toDir 1 memory middle)
    (rest :
      DirsCopied low high held entries (fromDir + 1) (toDir + 1) size
        middle after)
    (rows :
      ∀ offset index, offset < size → index < entries →
        Copyable (fromDir + 1 + offset) index)
    (toUser : ∀ offset, offset < size + 1 → toDir + offset ∈ userDirs) :
    DirsCopied low high held entries fromDir toDir (size + 1)
      memory after := by
  have toMember {offset index : Nat}
      (below : offset < size + 1)
      (inRange : index < 1024) :
      (toDir + offset, index) ∈ userEntries := by
    rw [mem_userEntries]
    exact ⟨mem_userDirs.mp (toUser offset below), inRange⟩
  refine ⟨rest.accounted, ?_, ?_, ?_, ?_, ?_⟩
  · intro offset index below inRange
    cases offset with
    | zero =>
      rw [rest.others (toDir + 0, index)
        (Or.inl (toMember below inRange)) (by omega)
        (by
          rintro ⟨lower, upper⟩
          exact apart (toDir - fromDir) 0 (by omega) (by omega)
            (by omega))]
      exact first.copied 0 index (by omega) inRange
    | succ offset =>
      have shape : toDir + (offset + 1) = toDir + 1 + offset := by
        omega
      have sourceShape :
          fromDir + (offset + 1) = fromDir + 1 + offset := by
        omega
      rw [shape, sourceShape, rest.copied offset index (by omega) inRange]
      split
      · rename_i inEntries
        rw [first.others (fromDir + 1 + offset, index)
          (rows offset index (by omega) inEntries)
          (by
            rintro ⟨lower, upper⟩
            exact apart (offset + 1) 0 (by omega) (by omega)
              (by omega))
          (by omega)]
      · rfl
  · intro offset index below copyable
    cases offset with
    | zero =>
      rw [rest.others (fromDir + 0, index) copyable
        (by
          rintro ⟨lower, upper⟩
          exact apart 0 (fromDir - toDir) (by omega) (by omega)
            (by omega))
        (by omega)]
      exact first.source 0 index (by omega) copyable
    | succ offset =>
      have shape :
          fromDir + (offset + 1) = fromDir + 1 + offset := by
        omega
      rw [shape] at copyable ⊢
      rw [rest.source offset index (by omega) copyable,
        first.others (fromDir + 1 + offset, index) copyable
          (by
            rintro ⟨lower, upper⟩
            exact apart (offset + 1) 0 (by omega) (by omega)
              (by omega))
          (by omega)]
  · intro slot copyable notTo notFrom
    rw [rest.others slot copyable (by omega) (by omega),
      first.others slot copyable (by omega) (by omega)]
  · intro dir notTo
    rw [rest.tables dir (by omega), first.tables dir (by omega)]
  · intro page notZero mapped
    have stillMapped : Kept held middle page :=
      first.still_kept
        (fun offset below => empty offset (by omega)) mapped
    rw [rest.data page notZero stillMapped, first.data page notZero mapped]

end DirsCopied

/-! ## The routines -/

theorem satisfies_copyDirs
    {entries size fromDir toDir : Nat}
    (accounted : Accounted low high held memory)
    (inTable : entries ≤ 1024)
    (fromSource :
      ∀ offset, offset < size → fromDir + offset ∈ userDirs ∨ fromDir + offset = 0)
    (fromRows :
      ∀ offset index, offset < size → index < entries →
        Copyable (fromDir + offset) index)
    (toUser : ∀ offset, offset < size → toDir + offset ∈ userDirs)
    (sameOffset : fromDir % 16 = toDir % 16)
    (apart :
      ∀ offset other, offset < size → other < size → fromDir + offset ≠ toDir + other)
    (empty :
      ∀ offset, offset < size → memory.tableOf (toDir + offset) = none) :
    Satisfies (copyDirs entries size fromDir toDir) memory
      (fun value after =>
        (value = 0 ∧
            DirsCopied low high held entries fromDir toDir size
              memory after) ∨
          (value = -1 ∧
            ∃ done, done < size ∧
              DirsCopied low high held entries fromDir toDir done
                memory after))
      abandoned := by
  induction size generalizing memory fromDir toDir with
  | zero =>
    exact Or.inl ⟨rfl, DirsCopied.none_copied accounted⟩
  | succ size inductionHypothesis =>
    have toMember : toDir ∈ userDirs :=
      toUser 0 (Nat.succ_pos size)
    have noDest : memory.tableOf toDir = none :=
      empty 0 (Nat.succ_pos size)
    have destAbsent : (memory.ram 0 toDir).present ≠ true := by
      intro isPresent
      rw [tableOf_of_present isPresent] at noDest
      cases noDest
    have laterRows :
        ∀ offset index, offset < size → index < entries →
          Copyable (fromDir + 1 + offset) index := by
      intro offset index below inEntries
      have copyable :=
        fromRows (offset + 1) index (by omega) inEntries
      rwa [show fromDir + (offset + 1) = fromDir + 1 + offset by
        omega] at copyable
    -- the recursive call, from any state that agrees on the destination
    have recurse {middle : Memory}
        (first :
          DirsCopied low high held entries fromDir toDir 1
            memory middle) :
        Satisfies (copyDirs entries size (fromDir + 1) (toDir + 1))
          middle
          (fun value after =>
            (value = 0 ∧
                DirsCopied low high held entries fromDir toDir
                  (size + 1) memory after) ∨
              (value = -1 ∧
                ∃ done, done < size + 1 ∧
                  DirsCopied low high held entries fromDir toDir
                    done memory after))
          abandoned := by
      refine (inductionHypothesis first.accounted ?_ laterRows ?_
        (by omega) ?_ ?_).mono ?_ (fun _ same => same)
      · intro offset below
        have source := fromSource (offset + 1) (by omega)
        rwa [show fromDir + (offset + 1) = fromDir + 1 + offset by
          omega] at source
      · intro offset below
        have member := toUser (offset + 1) (by omega)
        rwa [show toDir + (offset + 1) = toDir + 1 + offset by
          omega] at member
      · intro offset other below otherBelow
        have different :=
          apart (offset + 1) (other + 1) (by omega) (by omega)
        omega
      · intro offset below
        rw [first.tables _ (by omega)]
        have noTable := empty (offset + 1) (by omega)
        rwa [show toDir + (offset + 1) = toDir + 1 + offset by
          omega] at noTable
      · rintro value after (⟨zero, rest⟩ | ⟨failed, done, below, rest⟩)
        · exact Or.inl ⟨zero, DirsCopied.cons empty apart first rest laterRows toUser⟩
        · refine Or.inr ⟨failed, done + 1, by omega, ?_⟩
          exact DirsCopied.cons
            (fun offset small => empty offset (by omega))
            (fun offset other small otherSmall =>
              apart offset other (by omega) (by omega))
            first rest
            (fun offset index small =>
              laterRows offset index (by omega))
            (fun offset small => toUser offset (by omega))
    unfold copyDirs
    rw [satisfies_bind, satisfies_read, if_neg destAbsent]
    by_cases isPresent : (memory.ram 0 fromDir).present = true
    · have fromPoints := tableOf_of_present isPresent
      rw [if_pos isPresent]
      refine Satisfies.andThen
        (satisfies_getFreePage accounted) ?_
      rintro toTable taken' (⟨rfl, rfl, _⟩ | ⟨inMain, free, rfl⟩)
      · rw [if_pos rfl, satisfies_pure]
        exact Or.inr ⟨rfl, 0, Nat.succ_pos size, DirsCopied.none_copied accounted⟩
      · rw [if_neg (accounted.ne_zero_of_main inMain),
          satisfies_bind, satisfies_update]
        have link :=
          linked_of_taken accounted toMember noDest inMain free
        have fromNotTo : fromDir ≠ toDir :=
          apart 0 0 (Nat.succ_pos size) (Nat.succ_pos size)
        have emptyRow :
            ∀ index, index < 1024 →
              (store 0 toDir (Word.userEntry toTable)
                  (taken toTable memory)).entryAt (toDir, index) =
                none := by
          intro index inRange
          have member : (toDir, index) ∈ userEntries := by
            rw [mem_userEntries]
            exact ⟨mem_userDirs.mp toMember, inRange⟩
          rw [link.entries _ (Or.inl member)]
          exact entryAt_of_no_table noDest
        have origin :
            ∀ index, index < entries → Copyable fromDir index :=
          fun index inEntries =>
            fromRows 0 index (Nat.succ_pos size) inEntries
        refine Satisfies.andThen
          (satisfies_copyEntries link.accounted toMember link.table
            ((link.tables fromDir fromNotTo).trans fromPoints)
            inTable origin fromNotTo sameOffset emptyRow) ?_
        intro _ middle row
        apply recurse
        exact DirsCopied.linked accounted inMain free fromPoints
          (fromSource 0 (Nat.succ_pos size)) link row origin
    · rw [if_neg isPresent]
      rw [Bool.not_eq_true] at isPresent
      exact recurse
        (DirsCopied.absent accounted (tableOf_of_absent isPresent)
          noDest)

/-- The number of entries that `copy_page_tables` copies of each table. -/
def copiedEntries (task : Nat) : Nat :=
  if task = 0 then 0xA0 else 1024

/-- When directory entries can be copied. -/
structure DirsCopyable
    (memory : Memory)
    (entries size fromDir toDir : Nat) : Prop where
  inTable :
    entries ≤ 1024
  fromSource :
    ∀ offset, offset < size → fromDir + offset ∈ userDirs ∨ fromDir + offset = 0
  fromRows :
    ∀ offset index, offset < size → index < entries → Copyable (fromDir + offset) index
  toUser :
    ∀ offset, offset < size → toDir + offset ∈ userDirs
  sameOffset :
    fromDir % 16 = toDir % 16
  apart :
    ∀ offset other, offset < size → other < size → fromDir + offset ≠ toDir + other
  empty :
    ∀ offset, offset < size → memory.tableOf (toDir + offset) = none

section Tasks

variable {parent child size : Nat}

/-- The directory entries of the slots of two tasks. -/
theorem dirsCopyable_of_tasks
    (notSwapper : 0 < child)
    (childRange : child < 64)
    (parentRange : parent < 64)
    (different : parent ≠ child)
    (inSlot : size ≤ slotSize)
    (firstFork : parent = 0 → size ≤ 0x400000)
    (empty :
      ∀ dir, child * 16 ≤ dir → dir < child * 16 + 16 → memory.tableOf dir = none) :
    DirsCopyable memory (copiedEntries parent)
      ((size + 0x3fffff) / 0x400000) (parent * 16) (child * 16) := by
  unfold slotSize at inSlot
  have sourceDir :
      ∀ offset, offset < (size + 0x3fffff) / 0x400000 →
        parent * 16 + offset ∈ userDirs ∨
          parent * 16 + offset = 0 := by
    intro offset below
    rw [mem_userDirs]
    by_cases zero : parent = 0
    · have small := firstFork zero
      omega
    · omega
  constructor
  · unfold copiedEntries
    split <;> omega
  · exact sourceDir
  · intro offset index below inEntries
    unfold copiedEntries at inEntries
    rcases sourceDir offset below with member | zero
    · refine Or.inl ?_
      rw [mem_userEntries]
      refine ⟨mem_userDirs.mp member, ?_⟩
      split at inEntries <;> omega
    · refine Or.inr ⟨zero, ?_⟩
      rwa [if_pos (by omega)] at inEntries
  · intro offset below
    rw [mem_userDirs]
    omega
  · omega
  · intro offset other below otherBelow
    omega
  · intro offset below
    exact empty _ (by omega) (by omega)

theorem copyPageTables_eq_copyDirs
    (parentRange : parent < 64)
    (childRange : child < 64)
    (inSlot : size ≤ slotSize) :
    copyPageTables (parent * slotSize) (child * slotSize) size =
      copyDirs (copiedEntries parent) ((size + 0x3fffff) / 0x400000)
        (parent * 16) (child * 16) := by
  unfold slotSize at inSlot ⊢
  have directory (task : Nat) (inRange : task < 64) :
      dirIndex (task * 0x4000000) = task * 16 := by
    unfold dirIndex
    omega
  have count :
      (size + 0x3fffff) % 2 ^ 32 / 0x400000 =
        (size + 0x3fffff) / 0x400000 := by
    omega
  have entriesShape :
      (if parent * 0x4000000 = 0 then 0xA0 else 1024) =
        copiedEntries parent := by
    unfold copiedEntries
    congr 1
    simp only [eq_iff_iff]
    omega
  unfold copyPageTables
  rw [if_neg (by omega), entriesShape, count,
    directory parent parentRange, directory child childRange]

/--
`copy_page_tables` between the slots of two tasks.  Task 0 copies its 640 kB,
any other task at most its whole slot.
-/
theorem satisfies_copyPageTables
    (accounted : Accounted low high held memory)
    (notSwapper : 0 < child)
    (childRange : child < 64)
    (parentRange : parent < 64)
    (different : parent ≠ child)
    (inSlot : size ≤ slotSize)
    (firstFork : parent = 0 → size ≤ 0x400000)
    (empty :
      ∀ dir, child * 16 ≤ dir → dir < child * 16 + 16 → memory.tableOf dir = none) :
    Satisfies
      (copyPageTables (parent * slotSize) (child * slotSize) size)
      memory
      (fun value after =>
        (value = 0 ∧
            DirsCopied low high held (copiedEntries parent)
              (parent * 16) (child * 16)
              ((size + 0x3fffff) / 0x400000) memory after) ∨
          (value = -1 ∧
            ∃ done, done < (size + 0x3fffff) / 0x400000 ∧
              DirsCopied low high held (copiedEntries parent)
                (parent * 16) (child * 16) done memory after))
      abandoned := by
  have copyable :=
    dirsCopyable_of_tasks notSwapper childRange parentRange different
      inSlot firstFork empty
  rw [copyPageTables_eq_copyDirs parentRange childRange inSlot]
  exact satisfies_copyDirs accounted copyable.inTable
    copyable.fromSource copyable.fromRows copyable.toUser
    copyable.sameOffset copyable.apart copyable.empty

end Tasks

/-- Whether a directory index belongs to a task's slot. -/
def InSlot (task dir : Nat) : Prop :=
  task * 16 ≤ dir ∧ dir < task * 16 + 16

instance (task dir : Nat) : Decidable (InSlot task dir) :=
  inferInstanceAs
    (Decidable (task * 16 ≤ dir ∧ dir < task * 16 + 16))

/-- What `copy_mem` relies on: the segments of the parent, and an empty slot. -/
structure MemCopyable
    (segments : Segments)
    (parent child : Nat)
    (memory : Memory) : Prop where
  notSwapper : 0 < child
  childRange : child < 64
  parentRange : parent < 64
  different : parent ≠ child
  dataBase : segments.dataBase = parent * slotSize
  codeBase : segments.codeBase = parent * slotSize
  limits : segments.codeLimit ≤ segments.dataLimit
  inSlot : segments.dataLimit ≤ slotSize
  firstFork : parent = 0 → segments.dataLimit ≤ 0x400000
  empty : ∀ dir, InSlot child dir → memory.tableOf dir = none

/-- What `copy_mem` leaves behind. -/
structure MemCopied
    (low high : Nat)
    (held : Nat → Nat)
    (parent child size : Nat)
    (value : Int)
    (memory after : Memory) : Prop where
  accounted :
    Accounted low high held after
  places :
    ∀ slot ∈ userEntries, ¬ InSlot child slot.1 →
      after.placeAt slot = memory.placeAt slot
  data :
    KeepsData held memory after
  result :
    (value = 0 ∧
        DirsCopied low high held (copiedEntries parent)
          (parent * 16) (child * 16)
          ((size + 0x3fffff) / 0x400000) memory after) ∨
      (value = -12 ∧ ∀ dir, InSlot child dir → after.tableOf dir = none)

/-- `copy_mem`: on failure the destination slot is empty again. -/
theorem satisfies_copyMem
    {segments : Segments} {parent child : Nat}
    (accounted : Accounted low high held memory)
    (copyable : MemCopyable segments parent child memory) :
    Satisfies (copyMem segments child) memory
      (fun value after =>
        MemCopied low high held parent child segments.dataLimit value
          memory after)
      abandoned := by
  obtain ⟨notSwapper, childRange, parentRange, different, dataBase, codeBase,
    limits, inSlot, firstFork, empty⟩ := copyable
  have dirs : (segments.dataLimit + 0x3fffff) / 0x400000 ≤ 16 := by
    unfold slotSize at inSlot
    omega
  unfold copyMem
  rw [if_neg (by omega), if_neg (by omega), dataBase]
  refine Satisfies.andThen
    (satisfies_copyPageTables accounted notSwapper childRange
      parentRange different inSlot firstFork
      (fun dir lower upper => empty dir ⟨lower, upper⟩)) ?_
  rintro value middle (⟨rfl, copied⟩ | ⟨rfl, done, below, copied⟩)
  · rw [if_pos rfl, satisfies_pure]
    refine ⟨copied.accounted, ?_, copied.data, Or.inl ⟨rfl, copied⟩⟩
    intro slot member outside
    apply copied.place_kept (Or.inl member)
    unfold InSlot at outside
    omega
  · rw [if_neg (by decide)]
    refine Satisfies.andThen
      (satisfies_freePageTables copied.accounted notSwapper childRange
        inSlot) ?_
    rintro _ after ⟨_, released⟩
    rw [satisfies_pure]
    refine ⟨released.accounted, ?_, ?_, Or.inr ⟨rfl, ?_⟩⟩
    · intro slot member outside
      unfold InSlot at outside
      have entry := released.entries slot member
      rw [if_neg (by omega)] at entry
      rw [placeAt_congr entry]
      apply copied.place_kept (Or.inl member)
      omega
    · have noTable :
          ∀ offset, offset < done → memory.tableOf (child * 16 + offset) = none :=
        fun offset below => empty _ ⟨by omega, by omega⟩
      intro page notZero kept
      rw [released.keepsData copied.accounted page notZero
          (copied.still_kept noTable kept),
        copied.data page notZero kept]
    rintro dir ⟨lower, upper⟩
    have dirMember : dir ∈ userDirs := by
      rw [mem_userDirs]
      omega
    rw [released.tables dir dirMember]
    split
    · rfl
    · rename_i outside
      rw [copied.tables dir (by omega)]
      exact empty dir ⟨lower, upper⟩

end Memory

end HitOs
