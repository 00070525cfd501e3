import HitOs.PageAccess

namespace HitOs

/-!
# The kernel's stores to user memory

`put_fs_byte` and `put_fs_long` of `include/asm/segment.h` store through the
segment of the calling task, in supervisor mode.  `verify_area` unshares the
pages of a range beforehand.
-/

namespace Memory

open Routine

/-! ## The routines -/

/--
`put_fs_byte`.  A store to an absent page runs the page-fault handler first;
the write bit of a present one is ignored.
-/
def putFsByte
    (fault : Nat → Routine Memory Unit)
    (task offset : Nat)
    (value : Byte) : Routine Memory Unit := do
  let memory ← read
  if memory.entryAt (slotOf task offset) = none then
    fault (task * slotSize + offset)
    storeByte (task * slotSize + offset) value
  else
    storeByte (task * slotSize + offset) value

/-- Bytes stored at successive offsets. -/
def putFsBytes
    (fault : Nat → Routine Memory Unit)
    (task : Nat) :
    Nat → List Byte → Routine Memory Unit
  | _, [] => pure ()
  | offset, value :: values => do
      putFsByte fault task offset value
      putFsBytes fault task (offset + 1) values

/-- The bytes of an `unsigned long`, lowest first. -/
def longBytes (word : Word) : List Byte :=
  (List.range 4).map word.byte

/-- `put_fs_long` -/
def putFsLong
    (fault : Nat → Routine Memory Unit)
    (task offset : Nat)
    (word : Word) : Routine Memory Unit :=
  putFsBytes fault task offset (longBytes word)

theorem putFsBytes_append
    (fault : Nat → Routine Memory Unit)
    (task offset : Nat)
    (first second : List Byte) :
    putFsBytes fault task offset (first ++ second) =
      (do
        putFsBytes fault task offset first
        putFsBytes fault task (offset + first.length) second) := by
  induction first generalizing offset with
  | nil =>
    rfl
  | cons value values inductionHypothesis =>
    rw [List.cons_append, putFsBytes, putFsBytes, bind_assoc]
    congr 1
    funext _
    rw [inductionHypothesis, List.length_cons, Nat.add_right_comm, Nat.add_assoc offset]

variable {low high : Nat} {held : Nat → Nat} {memory after : Memory}

/-! ## Stores and views -/

/-- An address of a task whose page is one of main memory. -/
def Mapped
    (low high : Nat)
    (memory : Memory)
    (task offset : Nat) : Prop :=
  ∃ entry, memory.entryAt (slotOf task offset) = some entry ∧
    InMain low high entry.frame

/-- Every page that is mapped anywhere keeps its place. -/
def SameFrames (memory after : Memory) : Prop :=
  ∀ slot ∈ userEntries, after.frameAt slot = memory.frameAt slot

theorem Stored.sameFrames
    {slot : Nat × Nat} {entry : Word} {offset : Nat} {value : Byte}
    (mapped : memory.entryAt slot = some entry)
    (stored : Stored low high held slot entry offset value memory after) :
    SameFrames memory after := by
  intro other member
  by_cases same : other = slot
  · rw [same, frameAt_of_entry stored.self, frameAt_of_entry mapped,
      Word.frame_markDirty]
  · exact frameAt_congr (stored.others other member same)

/--
A store is seen at the same offset by every task that maps the page, and nowhere
else.
-/
theorem Stored.view
    (accounted : Accounted low high held memory)
    {task offset other otherOffset : Nat} {entry : Word} {value : Byte}
    (taskUser : 0 < task)
    (taskRange : task < 64)
    (inSlot : offset < slotSize)
    (otherUser : 0 < other)
    (otherRange : other < 64)
    (otherInSlot : otherOffset < slotSize)
    (mapped : memory.entryAt (slotOf task offset) = some entry)
    (inMain : InMain low high entry.frame)
    (stored :
      Stored low high held (slotOf task offset) entry (offset % 4096)
        value memory after) :
    after.view other otherOffset =
      if otherOffset = offset ∧
          memory.frameAt (slotOf other offset) = some entry.frame then
        some value
      else memory.view other otherOffset := by
  have member := slotOf_mem taskUser taskRange inSlot
  have otherMember := slotOf_mem otherUser otherRange otherInSlot
  have sameFrame := stored.sameFrames mapped _ otherMember
  have maps := frameAt_of_entry mapped
  by_cases mapsPage :
      memory.frameAt (slotOf other otherOffset) = some entry.frame
  · have offsets :=
      accounted.aligned _ otherMember _ member _ mapsPage maps
        (accounted.above_low inMain)
    have samePage : otherOffset / 4096 = offset / 4096 := by
      unfold slotOf dirIndex tableIndex at offsets
      unfold slotSize at inSlot otherInSlot
      simp only at offsets
      omega
    have seen :
        after.view other otherOffset =
          some (pageByte (setPageByte (memory.ram entry.frame)
            (offset % 4096) value) (otherOffset % 4096)) := by
      rw [Memory.view, sameFrame, mapsPage, Option.map_some, stored.contents]
    rw [seen, pageByte_setPageByte]
    by_cases sameOffset : otherOffset = offset
    · subst sameOffset
      rw [if_pos rfl, if_pos ⟨rfl, mapsPage⟩]
    · rw [if_neg (by omega), if_neg (fun both => sameOffset both.1),
        Memory.view, mapsPage, Option.map_some]
  · rw [if_neg]
    · apply view_congr sameFrame
      intro page otherMaps
      apply stored.ram page
      · rintro rfl
        exact mapsPage otherMaps
      · intro dir dirMember pointsTo
        exact accounted.frameAt_ne_table dirMember pointsTo otherMember
          otherMaps
    · rintro ⟨rfl, same⟩
      exact mapsPage same

/-- Every task reads the same bytes. -/
def SameViews (memory after : Memory) : Prop :=
  ∀ task offset, 0 < task → task < 64 → offset < slotSize →
    after.view task offset = memory.view task offset

theorem SameViews.trans
    {middle : Memory}
    (first : SameViews memory middle)
    (second : SameViews middle after) :
    SameViews memory after := by
  intro task offset user range inSlot
  rw [second task offset user range inSlot, first task offset user range inSlot]

/-- Unsharing a page changes no task's view, not even its own. -/
theorem Unshared.sameViews
    {dir index : Nat} {old new : Word}
    (mapped : memory.entryAt (dir, index) = some old)
    (unshared : Unshared low high held dir index old new memory after) :
    SameViews memory after := by
  intro task offset user range inSlot
  have member := slotOf_mem user range inSlot
  by_cases same : slotOf task offset = (dir, index)
  · rw [← same] at mapped
    have newEntry := unshared.self
    rw [← same] at newEntry
    rw [view_of_entry newEntry, view_of_entry mapped, unshared.contents]
  · apply view_congr (frameAt_congr (unshared.others _ member same))
    intro page maps
    rcases Nat.lt_or_ge page lowMemPage with below | aboveLow
    · exact unshared.kernel page below
    · refine unshared.data page ?_ (kept_of_maps member maps)
      unfold lowMemPage at aboveLow
      omega

/-! ## Storing bytes -/

/-- The byte that a run of stores puts at an offset, if any. -/
def storedAt (offset : Nat) (values : List Byte) (position : Nat) :
    Option Byte :=
  if position < offset then none else values[position - offset]?

theorem storedAt_cons
    (offset position : Nat)
    (value : Byte)
    (values : List Byte) :
    storedAt offset (value :: values) position =
      if position = offset then some value
      else storedAt (offset + 1) values position := by
  unfold storedAt
  by_cases same : position = offset
  · subst same
    simp
  · by_cases below : position < offset
    · rw [if_pos below, if_neg same, if_pos (by omega)]
    · have shift : position - offset = position - (offset + 1) + 1 := by
        omega
      rw [if_neg below, if_neg same, if_neg (by omega), shift,
        List.getElem?_cons_succ]

/-- What a run of stores to mapped addresses has done. -/
structure BytesStored
    (low high : Nat)
    (held : Nat → Nat)
    (task offset : Nat)
    (values : List Byte)
    (memory after : Memory) : Prop where
  accounted :
    Accounted low high held after
  sameFrames :
    SameFrames memory after
  views :
    ∀ other otherOffset,
      0 < other → other < 64 → otherOffset < slotSize →
        after.view other otherOffset =
          match storedAt offset values otherOffset with
          | none => memory.view other otherOffset
          | some value =>
            if memory.frameAt (slotOf other otherOffset) =
                memory.frameAt (slotOf task otherOffset) then
              some value
            else memory.view other otherOffset

theorem satisfies_putFsByte
    {abandoned : Memory → Prop}
    (accounted : Accounted low high held memory)
    {fault : Nat → Routine Memory Unit}
    {task offset : Nat} {value : Byte} {entry : Word}
    (taskUser : 0 < task)
    (taskRange : task < 64)
    (inSlot : offset < slotSize)
    (mapped : memory.entryAt (slotOf task offset) = some entry)
    (inMain : InMain low high entry.frame) :
    Satisfies (putFsByte fault task offset value) memory
      (fun _ after =>
        Stored low high held (slotOf task offset) entry (offset % 4096)
          value memory after)
      abandoned := by
  have sameSlot := slotOf_address taskRange inSlot
  have member := slotOf_mem taskUser taskRange inSlot
  have sameByte :
      (task * slotSize + offset) % 4096 = offset % 4096 := by
    unfold slotSize
    omega
  have present : memory.entryAt (slotOf task offset) ≠ none := by
    rw [mapped]
    exact Option.some_ne_none entry
  unfold putFsByte
  rw [satisfies_bind, satisfies_read, if_neg present, ← sameSlot, ← sameByte]
  rw [← sameSlot] at member mapped
  exact satisfies_storeByte accounted member mapped
    (accounted.above_low inMain)

theorem satisfies_putFsBytes
    {abandoned : Memory → Prop}
    (accounted : Accounted low high held memory)
    {fault : Nat → Routine Memory Unit}
    {task offset : Nat} {values : List Byte}
    (taskUser : 0 < task)
    (taskRange : task < 64)
    (inSlot : offset + values.length ≤ slotSize)
    (mapped :
      ∀ position, offset ≤ position → position < offset + values.length →
        Mapped low high memory task position) :
    Satisfies (putFsBytes fault task offset values) memory
      (fun _ after =>
        BytesStored low high held task offset values memory after)
      abandoned := by
  induction values generalizing offset memory with
  | nil =>
    refine ⟨accounted, fun _ _ => rfl, ?_⟩
    intro other otherOffset _ _ _
    have nothing : storedAt offset [] otherOffset = none := by
      unfold storedAt
      split <;> simp
    rw [nothing]
  | cons value values inductionHypothesis =>
    rw [List.length_cons] at inSlot mapped
    have here : offset < slotSize := by
      omega
    obtain ⟨entry, entryShape, inMain⟩ :=
      mapped offset (Nat.le_refl _) (by omega)
    unfold putFsBytes
    refine Satisfies.andThen
      (satisfies_putFsByte accounted taskUser taskRange here
        entryShape inMain) ?_
    intro _ middle stored
    have frames := stored.sameFrames entryShape
    have stillMapped :
        ∀ position, offset + 1 ≤ position → position < offset + 1 + values.length →
          Mapped low high middle task position := by
      intro position lower upper
      obtain ⟨other, otherShape, otherMain⟩ :=
        mapped position (by omega) (by omega)
      have same :=
        frames _ (slotOf_mem taskUser taskRange
          (show position < slotSize by omega))
      rw [frameAt_of_entry otherShape, frameAt_eq_some] at same
      obtain ⟨kept, keptShape, keptFrame⟩ := same
      refine ⟨kept, keptShape, ?_⟩
      rw [keptFrame]
      exact otherMain
    refine (inductionHypothesis stored.accounted (by omega)
      stillMapped).mono ?_ (fun _ same => same)
    intro _ after rest
    refine ⟨rest.accounted, ?_, ?_⟩
    · intro slot member
      rw [rest.sameFrames slot member, frames slot member]
    · intro other otherOffset otherUser otherRange otherInSlot
      have first :=
        stored.view accounted taskUser taskRange here otherUser
          otherRange otherInSlot entryShape inMain
      have otherFrame :=
        frames _ (slotOf_mem otherUser otherRange otherInSlot)
      have taskFrame :=
        frames _ (slotOf_mem taskUser taskRange otherInSlot)
      rw [rest.views other otherOffset otherUser otherRange
        otherInSlot, storedAt_cons, otherFrame, taskFrame, first]
      by_cases same : otherOffset = offset
      · subst same
        have before :
            storedAt (otherOffset + 1) values otherOffset = none := by
          unfold storedAt
          rw [if_pos (by omega)]
        rw [before, if_pos rfl, frameAt_of_entry entryShape]
        simp
      · rw [if_neg same, if_neg (fun both => same both.1)]

/-! ## Verifying an area -/

/-- A slot has 16384 pages. -/
theorem page_in_slot
    {page : Nat}
    (inSlot : page < 16384) :
    page * 4096 < slotSize := by
  unfold slotSize
  omega

/-- What `verify_area` has done to `count` pages of a task's slot. -/
structure AreaVerified
    (low high : Nat)
    (held : Nat → Nat)
    (task first count : Nat)
    (memory after : Memory) : Prop where
  accounted :
    Accounted low high held after
  views :
    SameViews memory after
  present :
    ∀ slot ∈ userEntries, after.entryAt slot = none ↔ memory.entryAt slot = none
  others :
    ∀ slot ∈ userEntries,
      (∀ page, first ≤ page → page < first + count → slot ≠ slotOf task (page * 4096)) →
      after.entryAt slot = memory.entryAt slot
  writable :
    ∀ page, first ≤ page → page < first + count → ∀ entry,
      after.entryAt (slotOf task (page * 4096)) = some entry →
      entry.writable = true

theorem Unshared.present
    {dir index : Nat} {old new : Word}
    (mapped : memory.entryAt (dir, index) = some old)
    (unshared : Unshared low high held dir index old new memory after)
    {slot : Nat × Nat}
    (member : slot ∈ userEntries) :
    after.entryAt slot = none ↔ memory.entryAt slot = none := by
  by_cases same : slot = (dir, index)
  · rw [same, unshared.self, mapped]
    simp
  · rw [unshared.others slot member same]

/-- One page has been verified. -/
theorem Verified.area
    (accounted : Accounted low high held memory)
    {task page : Nat}
    (verified :
      Verified low high held (slotOf task (page * 4096)).1
        (slotOf task (page * 4096)).2 memory after) :
    AreaVerified low high held task page 1 memory after := by
  have onlyPage {other : Nat}
      (lower : page ≤ other)
      (upper : other < page + 1) :
      other = page := by
    omega
  cases verified with
  | absent empty =>
    refine ⟨accounted, fun _ _ _ _ _ => rfl, fun _ _ => Iff.rfl, fun _ _ _ => rfl, ?_⟩
    intro other lower upper entry mapped
    rw [onlyPage lower upper, empty] at mapped
    cases mapped
  | writable found mapped isWritable =>
    refine ⟨accounted, fun _ _ _ _ _ => rfl, fun _ _ => Iff.rfl, fun _ _ _ => rfl, ?_⟩
    intro other lower upper entry entryShape
    rw [onlyPage lower upper, mapped] at entryShape
    cases entryShape
    exact isWritable
  | unshared old new mapped readOnly unshared =>
    refine ⟨unshared.accounted, unshared.sameViews mapped,
      fun _ member => unshared.present mapped member, ?_, ?_⟩
    · intro slot member outside
      exact unshared.others slot member
        (outside page (Nat.le_refl _) (Nat.lt_succ_self _))
    · intro other lower upper entry entryShape
      have self := unshared.self
      rw [onlyPage lower upper] at entryShape
      rw [entryShape] at self
      cases self
      exact unshared.writable

/-- Verifying more pages after some. -/
theorem AreaVerified.cons
    {task first count : Nat} {middle : Memory}
    (inSlot : first + (count + 1) ≤ 16384)
    (taskUser : 0 < task)
    (taskRange : task < 64)
    (head : AreaVerified low high held task first 1 memory middle)
    (rest :
      AreaVerified low high held task (first + 1) count middle after) :
    AreaVerified low high held task first (count + 1) memory after := by
  refine ⟨rest.accounted, head.views.trans rest.views, ?_, ?_, ?_⟩
  · intro slot member
    rw [rest.present slot member, head.present slot member]
  · intro slot member outside
    rw [rest.others slot member
        (fun page lower upper => outside page (by omega) (by omega)),
      head.others slot member
        (fun page lower upper => outside page (by omega) (by omega))]
  · intro page lower upper entry mapped
    by_cases isFirst : page = first
    · subst isFirst
      have firstInSlot := page_in_slot (show page < 16384 by omega)
      have untouched :=
        rest.others _ (slotOf_mem taskUser taskRange firstInSlot)
          (by
            intro other otherLower otherUpper same
            have otherInSlot :=
              page_in_slot (show other < 16384 by omega)
            have parts :=
              (slotOf_eq_iff firstInSlot otherInSlot).mp same
            omega)
      rw [untouched] at mapped
      exact head.writable page (Nat.le_refl _) (by omega) entry mapped
    · exact rest.writable page (by omega) (by omega) entry mapped

/-- `verify_area` over whole pages; when memory runs out nothing is lost. -/
theorem satisfies_verifyPages
    (accounted : Accounted low high held memory)
    {task first count : Nat}
    (taskUser : 0 < task)
    (taskRange : task < 64)
    (inSlot : first + count ≤ 16384) :
    Satisfies (verifyPages count (first * 4096 + task * slotSize)) memory
      (fun _ after =>
        AreaVerified low high held task first count memory after)
      (fun after =>
        Accounted low high held after ∧ SameViews memory after) := by
  induction count generalizing first memory with
  | zero =>
    exact ⟨accounted, fun _ _ _ _ _ => rfl, fun _ _ => Iff.rfl,
      fun _ _ _ => rfl, fun _ _ _ => by omega⟩
  | succ count inductionHypothesis =>
    have here := page_in_slot (show first < 16384 by omega)
    have sameSlot :
        (dirIndex (first * 4096 + task * slotSize),
            tableIndex (first * 4096 + task * slotSize)) =
          slotOf task (first * 4096) := by
      rw [Nat.add_comm]
      exact slotOf_address taskRange here
    have member := slotOf_mem taskUser taskRange here
    unfold verifyPages
    refine Satisfies.andThen
      ((satisfies_writeVerify accounted (sameSlot ▸ member)
        (show Accounted low high held memory ∧
          SameViews memory memory from
          ⟨accounted, fun _ _ _ _ _ => rfl⟩))) ?_
    intro _ middle verified
    have dirShape := congrArg Prod.fst sameSlot
    have indexShape := congrArg Prod.snd sameSlot
    simp only at dirShape indexShape
    rw [dirShape, indexShape] at verified
    have head := verified.area accounted
    have shift :
        first * 4096 + task * slotSize + 4096 =
          (first + 1) * 4096 + task * slotSize := by
      omega
    rw [shift]
    refine (inductionHypothesis head.accounted (by omega)).mono ?_ ?_
    · intro _ after rest
      exact AreaVerified.cons inSlot taskUser taskRange head rest
    · rintro after ⟨restAccounted, views⟩
      exact ⟨restAccounted, head.views.trans views⟩

/-- The pages of a range of bytes. -/
theorem satisfies_verifyArea
    (accounted : Accounted low high held memory)
    {task offset size : Nat}
    (taskUser : 0 < task)
    (taskRange : task < 64)
    (inSlot : offset + size ≤ slotSize) :
    Satisfies (verifyArea (task * slotSize) offset size) memory
      (fun _ after =>
        AreaVerified low high held task (offset / 4096)
          ((size + offset % 4096 + 4095) / 4096) memory after)
      (fun after =>
        Accounted low high held after ∧ SameViews memory after) := by
  unfold verifyArea
  apply satisfies_verifyPages accounted taskUser taskRange
  unfold slotSize at inSlot
  omega

end Memory

end HitOs
