import HitOs.MachineInts
import HitOs.PageRoots
import HitOs.StoreIsolation

namespace HitOs

/-!
# Which pages `verify_area` reaches

`verify_area` adds the offset in the first page to a signed count, and steps through
linear addresses that wrap.  Whatever range it is given, the contents of all tasks stay
as they are; the pages of the range are unshared unless the count has become negative.
In the slot it is the `verifyArea` of whole pages (`verifyAreaInt_eq_verifyArea`).
-/

namespace Memory

open Routine

variable {low high : Nat} {held : Nat → Nat} {memory middle after : Memory}

/-! ## The routine -/

/-- The loop of `verify_area`.  A positive `size` loses 4096 without wrapping. -/
def verifyFrom (size : Int) (start : Nat) : Routine Memory Unit :=
  if 0 < size then do
    writeVerify start
    verifyFrom (size - 4096) ((start + 4096) % 2 ^ 32)
  else
    pure ()
termination_by size.toNat
decreasing_by omega

/-- `verify_area` with the arithmetic of `int` and of `unsigned long` -/
def verifyAreaInt (base addr : Nat) (size : Int) : Routine Memory Unit :=
  verifyFrom (int32 (size + (addr % 4096 : Nat)))
    ((addr / 4096 * 4096 + base) % 2 ^ 32)

/-! ## What it does to the page tables -/

/-- The place of a linear address in the page tables. -/
def placeOf (address : Nat) : Nat × Nat :=
  (dirIndex address, tableIndex address)

/-- The page at this place, if there is one, can be written. -/
def Writable (memory : Memory) (slot : Nat × Nat) : Prop :=
  ∀ entry, memory.entryAt slot = some entry → entry.writable = true

/-- No page of main memory is free. -/
def Exhausted (low high : Nat) (memory : Memory) : Prop :=
  ∀ page, InMain low high page → memory.memMap (page - lowMemPage) ≠ 0#8

/-- The pages at some places are unshared, and nothing else can be observed. -/
structure Swept
    (low high : Nat)
    (held : Nat → Nat)
    (places : Nat × Nat → Prop)
    (memory after : Memory) : Prop where
  accounted :
    Accounted low high held after
  kernel :
    ∀ page, page < lowMemPage → after.ram page = memory.ram page
  views :
    SameViews memory after
  stays :
    ∀ slot ∈ userEntries, Writable memory slot → Writable after slot
  unshared :
    ∀ slot ∈ userEntries, places slot → Writable after slot

/-- Nothing is done where there is nothing to do. -/
theorem Swept.refl
    {places : Nat × Nat → Prop}
    (accounted : Accounted low high held memory)
    (writable : ∀ slot ∈ userEntries, places slot → Writable memory slot) :
    Swept low high held places memory memory where
  accounted := accounted
  kernel := fun _ _ => rfl
  views := fun _ _ _ _ _ => rfl
  stays := fun _ _ writable => writable
  unshared := writable

theorem Swept.trans
    {first second : Nat × Nat → Prop}
    (head : Swept low high held first memory middle)
    (rest : Swept low high held second middle after) :
    Swept low high held (fun slot => first slot ∨ second slot) memory after where
  accounted := rest.accounted
  kernel := fun page below => (rest.kernel page below).trans (head.kernel page below)
  views := head.views.trans rest.views
  stays := fun slot member writable =>
    rest.stays slot member (head.stays slot member writable)
  unshared := by
    rintro slot member (isFirst | isSecond)
    · exact rest.stays slot member (head.unshared slot member isFirst)
    · exact rest.unshared slot member isSecond

theorem Swept.mono
    {places fewer : Nat × Nat → Prop}
    (swept : Swept low high held places memory after)
    (covers : ∀ slot, fewer slot → places slot) :
    Swept low high held fewer memory after :=
  { swept with
    unshared := fun slot member isPlace =>
      swept.unshared slot member (covers slot isPlace) }

theorem Verified.swept
    (accounted : Accounted low high held memory)
    {address : Nat}
    (verified :
      Verified low high held (dirIndex address) (tableIndex address)
        memory after) :
    Swept low high held (· = placeOf address) memory after := by
  cases verified with
  | absent empty =>
    apply Swept.refl accounted
    rintro slot _ rfl entry mapped
    cases empty.symm.trans mapped
  | writable found mapped isWritable =>
    apply Swept.refl accounted
    rintro slot _ rfl entry mappedToo
    cases mapped.symm.trans mappedToo
    exact isWritable
  | unshared old new mapped readOnly unshared =>
    have own : Writable after (placeOf address) := by
      intro entry mappedAfter
      cases unshared.self.symm.trans mappedAfter
      exact unshared.writable
    refine ⟨unshared.accounted, unshared.kernel, unshared.sameViews mapped, ?_, ?_⟩
    · intro slot member writable
      by_cases same : slot = placeOf address
      · rw [same]
        exact own
      · intro entry mappedAfter
        rw [unshared.others slot member same] at mappedAfter
        exact writable entry mappedAfter
    · rintro slot _ rfl
      exact own

/-- `write_verify` at any linear address. -/
theorem satisfies_writeVerify_swept
    (accounted : Accounted low high held memory)
    (kernelMapped : KernelMapped memory)
    (address : Nat) :
    Satisfies (writeVerify address) memory
      (fun _ after => Swept low high held (· = placeOf address) memory after)
      (fun after => after = memory) := by
  have bounds : dirIndex address < 1024 ∧ tableIndex address < 1024 := by
    unfold dirIndex tableIndex
    omega
  by_cases user : 16 ≤ dirIndex address
  · have member : (dirIndex address, tableIndex address) ∈ userEntries :=
      mem_userEntries.mpr ⟨⟨user, bounds.1⟩, bounds.2⟩
    have verifies :
        Satisfies (writeVerify address) memory _ (fun after => after = memory) :=
      satisfies_writeVerify accounted member rfl
    exact verifies.mono
      (fun _ _ verified => verified.swept accounted) (fun _ same => same)
  · have nothing : Swept low high held (· = placeOf address) memory memory := by
      apply Swept.refl accounted
      rintro ⟨dir, index⟩ member same
      cases same
      exact absurd (mem_userEntries.mp member).1.1 user
    unfold writeVerify
    rw [satisfies_bind, satisfies_read]
    dsimp only
    split
    · rename_i isPresent
      have writable :=
        (kernelMapped _ (Nat.lt_of_not_le user) isPresent).2 _ bounds.2
      rw [if_neg writable]
      exact nothing
    · exact nothing

/-- `un_wp_page` gives up only when there is no page for the copy. -/
theorem satisfies_unWpPage_exhausted
    (accounted : Accounted low high held memory)
    (table index : Nat) :
    Satisfies (unWpPage table index) memory (fun _ _ => True)
      (Exhausted low high) := by
  unfold unWpPage
  rw [satisfies_bind, satisfies_read]
  dsimp only
  split
  · trivial
  · refine Satisfies.andThen (satisfies_getFreePage accounted) ?_
    rintro page fresh (⟨rfl, rfl, exhausted⟩ | ⟨inMain, _, _⟩)
    · rw [if_pos rfl]
      exact exhausted
    · rw [if_neg (accounted.ne_zero_of_main inMain)]
      trivial

theorem satisfies_writeVerify_exhausted
    (accounted : Accounted low high held memory)
    (address : Nat) :
    Satisfies (writeVerify address) memory (fun _ _ => True)
      (Exhausted low high) := by
  unfold writeVerify
  rw [satisfies_bind, satisfies_read]
  dsimp only
  split
  · split
    · exact satisfies_unWpPage_exhausted accounted _ _
    · trivial
  · trivial

/-- The places that the loop comes to. -/
def Reached (size : Int) (start : Nat) (slot : Nat × Nat) : Prop :=
  ∃ turn : Nat, 4096 * (turn : Int) < size ∧
    slot = placeOf ((start + 4096 * turn) % 2 ^ 32)

theorem Reached.cases
    {size : Int} {start : Nat} {slot : Nat × Nat}
    (inRange : start < 2 ^ 32)
    (reached : Reached size start slot) :
    slot = placeOf start ∨
      Reached (size - 4096) ((start + 4096) % 2 ^ 32) slot := by
  obtain ⟨turn, below, same⟩ := reached
  cases turn with
  | zero =>
    left
    rw [same]
    congr 1
    omega
  | succ turn =>
    right
    have sameAddress :
        (start + 4096 * (turn + 1)) % 2 ^ 32 =
          ((start + 4096) % 2 ^ 32 + 4096 * turn) % 2 ^ 32 := by
      omega
    exact ⟨turn, by omega, by rw [same, sameAddress]⟩

/-- The loop unshares the pages it comes to, as far as there are pages for copies. -/
theorem satisfies_verifyFrom
    (accounted : Accounted low high held memory)
    (kernelMapped : KernelMapped memory)
    (size : Int)
    {start : Nat}
    (inRange : start < 2 ^ 32) :
    Satisfies (verifyFrom size start) memory
      (fun _ after => Swept low high held (Reached size start) memory after)
      (fun after => SameViews memory after ∧ Exhausted low high after) := by
  induction size, start using verifyFrom.induct generalizing memory with
  | case1 size start positive inductionHypothesis =>
    unfold verifyFrom
    rw [if_pos positive, satisfies_bind]
    refine ((satisfies_writeVerify_swept accounted kernelMapped start).both
      (satisfies_writeVerify_exhausted accounted start)).mono ?_ ?_
    · rintro _ middle ⟨head, _⟩
      refine (inductionHypothesis head.accounted (kernelMapped.kept (KernelKept.of_ram head.kernel))
        (Nat.mod_lt _ (by decide))).mono ?_ ?_
      · intro _ after rest
        exact (head.trans rest).mono fun slot => Reached.cases inRange
      · rintro after ⟨views, exhausted⟩
        exact ⟨head.views.trans views, exhausted⟩
    · rintro after ⟨rfl, exhausted⟩
      exact ⟨fun _ _ _ _ _ => rfl, exhausted⟩
  | case2 size start done =>
    unfold verifyFrom
    rw [if_neg done]
    apply Swept.refl accounted
    rintro slot _ ⟨turn, below, _⟩
    omega

/-! ## The range of a buffer -/

/-- The page at an offset of the segment holds a byte of the buffer. -/
def Overlaps (addr : Nat) (size : Int) (offset : Nat) : Prop :=
  ∃ i : Nat, (i : Int) < size ∧ (addr + i) % 2 ^ 32 / 4096 = offset / 4096

/-- The pages of the buffer in the caller's data segment can be written. -/
def Unlocked (memory : Memory) (task addr : Nat) (size : Int) : Prop :=
  ∀ offset, offset < slotSize → Overlaps addr size offset →
    Writable memory (slotOf task offset)

/-- The loop comes to every page of the buffer. -/
theorem reached_of_overlaps
    {task addr offset : Nat} {size : Int}
    (taskRange : task < 64)
    (inSlot : offset < slotSize)
    (overlaps : Overlaps addr size offset) :
    Reached (size + (addr % 4096 : Nat))
      ((addr / 4096 * 4096 + task * slotSize) % 2 ^ 32) (slotOf task offset) := by
  obtain ⟨i, below, samePage⟩ := overlaps
  refine ⟨(addr % 4096 + i) / 4096, by omega, ?_⟩
  have sameAddress :
      ((addr / 4096 * 4096 + task * slotSize) % 2 ^ 32 +
          4096 * ((addr % 4096 + i) / 4096)) % 2 ^ 32 =
        task * slotSize + offset / 4096 * 4096 := by
    unfold slotSize at inSlot ⊢
    omega
  rw [sameAddress]
  have pageInSlot : offset / 4096 * 4096 < slotSize := by
    omega
  have samePlace : slotOf task (offset / 4096 * 4096) = slotOf task offset :=
    (slotOf_eq_iff pageInSlot inSlot).mpr ⟨rfl, by omega⟩
  rw [← samePlace]
  exact (slotOf_address taskRange pageInSlot).symm

/-- The pages of the buffer have one user each, and all contents are as before. -/
structure Covered
    (task addr : Nat)
    (size : Int)
    (memory after : Memory) : Prop where
  single :
    ∀ offset, offset < slotSize → Overlaps addr size offset →
      ∀ entry, after.entryAt (slotOf task offset) = some entry →
        entry.writable = true ∧ lowMemPage ≤ entry.frame ∧
          after.memMap (entry.frame - lowMemPage) = 1#8
  kernel :
    ∀ page, page < lowMemPage → after.ram page = memory.ram page
  views :
    SameViews memory after

/--
A call covers the buffer, or ends the process with all contents as before, since no
page is free for a copy.
-/
def Covers
    (low high task addr : Nat)
    (size : Int)
    (memory : Memory) : Prop :=
  Satisfies (verifyAreaInt (task * slotSize) addr size) memory
    (fun _ after => Covered task addr size memory after)
    (fun after => SameViews memory after ∧ Exhausted low high after)

section Buffer

variable {task addr : Nat} {size : Int}

theorem Swept.covered
    {places : Nat × Nat → Prop}
    (taskUser : 0 < task)
    (taskRange : task < 64)
    (swept : Swept low high held places memory after)
    (unlocked : Unlocked after task addr size) :
    Covered task addr size memory after where
  single := by
    intro offset inSlot overlaps entry mapped
    have isWritable := unlocked offset inSlot overlaps entry mapped
    exact ⟨isWritable, swept.accounted.writableSingle _
      (slotOf_mem taskUser taskRange inSlot) entry mapped isWritable⟩
  kernel := swept.kernel
  views := swept.views

/-- Without overflow every page of the buffer is reached. -/
theorem covers_of_fits
    (consistent : ConsistentPaging low high held memory)
    (taskUser : 0 < task)
    (taskRange : task < 64)
    (positive : 0 < size)
    (fits : size + (addr % 4096 : Nat) < 2 ^ 31) :
    Covers low high task addr size memory := by
  unfold Covers verifyAreaInt
  rw [int32_of_fits ⟨by omega, fits⟩]
  refine (satisfies_verifyFrom consistent.accounted consistent.kernelMapped _
    (Nat.mod_lt _ (by decide))).mono ?_ (fun _ same => same)
  intro _ after swept
  apply swept.covered taskUser taskRange
  intro offset inSlot overlaps
  exact swept.unshared _ (slotOf_mem taskUser taskRange inSlot)
    (reached_of_overlaps taskRange inSlot overlaps)

/-- With overflow no page is reached. -/
theorem verifyAreaInt_of_overflow
    (task : Nat)
    (memory : Memory)
    (small : size < 2 ^ 31)
    (overflow : 2 ^ 31 ≤ size + (addr % 4096 : Nat)) :
    verifyAreaInt (task * slotSize) addr size memory = .ret () memory := by
  unfold verifyAreaInt
  rw [int32_of_large overflow (by omega)]
  unfold verifyFrom
  rw [if_neg (by omega)]
  rfl

/--
`verify_area` covers a buffer of positive size if and only if the size and the offset in
the first page do not overflow, or there is nothing to do.
-/
theorem verifyArea_covers_iff
    (low high : Nat)
    (held : Nat → Nat)
    (memory : Memory)
    (task addr : Nat)
    (size : Int)
    (consistent : ConsistentPaging low high held memory)
    (taskUser : 0 < task)
    (taskRange : task < 64)
    (positive : 0 < size)
    (small : size < 2 ^ 31) :
    Covers low high task addr size memory ↔
      size + (addr % 4096 : Nat) < 2 ^ 31 ∨ Unlocked memory task addr size := by
  by_cases fits : size + (addr % 4096 : Nat) < 2 ^ 31
  · exact ⟨fun _ => Or.inl fits,
      fun _ => covers_of_fits consistent taskUser taskRange positive fits⟩
  · have nothing :=
      verifyAreaInt_of_overflow task memory small (Int.not_lt.mp fits)
    constructor
    · intro covers
      right
      intro offset inSlot overlaps entry mapped
      exact ((covers.of_ret nothing).single offset inSlot overlaps entry mapped).1
    · rintro (fitsToo | unlocked)
      · exact absurd fitsToo fits
      · unfold Covers Satisfies
        rw [nothing]
        have swept : Swept low high held (fun _ => False) memory memory :=
          Swept.refl consistent.accounted fun _ _ isNone => isNone.elim
        exact swept.covered taskUser taskRange unlocked

/-- Without wrapping the loop is the one over whole pages. -/
theorem verifyFrom_eq_verifyPages
    {size start : Nat}
    (inRange : start + size ≤ 2 ^ 32) :
    verifyFrom size start = verifyPages ((size + 4095) / 4096) start := by
  induction turns : (size + 4095) / 4096 generalizing size start with
  | zero =>
    unfold verifyFrom verifyPages
    rw [if_neg (by omega)]
  | succ count inductionHypothesis =>
    unfold verifyFrom verifyPages
    rw [if_pos (by omega)]
    by_cases last : size ≤ 4096
    · have isZero : count = 0 := by
        omega
      subst isZero
      unfold verifyFrom verifyPages
      rw [if_neg (by omega)]
    · rw [Nat.mod_eq_of_lt (by omega),
        show (size : Int) - 4096 = ((size - 4096 : Nat) : Int) by omega,
        inductionHypothesis (by omega) (by omega)]

/-- For a buffer inside the slot nothing wraps. -/
theorem verifyAreaInt_eq_verifyArea
    {size : Nat}
    (taskRange : task < 64)
    (positive : 0 < size)
    (inSlot : addr + size ≤ slotSize) :
    verifyAreaInt (task * slotSize) addr size =
      verifyArea (task * slotSize) addr size := by
  unfold slotSize at *
  unfold verifyAreaInt verifyArea
  have start :
      (addr / 4096 * 4096 + task * 0x4000000) % 2 ^ 32 =
        addr / 4096 * 4096 + task * 0x4000000 :=
    Nat.mod_eq_of_lt (by omega)
  rw [int32_of_fits ⟨by omega, by omega⟩, start, ← Int.natCast_add]
  have inRange :
      addr / 4096 * 4096 + task * 0x4000000 + (size + addr % 4096) ≤ 2 ^ 32 := by
    omega
  exact verifyFrom_eq_verifyPages inRange

end Buffer

/-! ## A buffer as long as `int` allows -/

section Example

/-- Two tasks share the first page of their slots, in a consistent state. -/
theorem sharing_consistent :
    ∃ held memory entry,
      ConsistentPaging (mainMemoryStart 15360 / 4096) (memoryEnd 15360 / 4096)
        held memory ∧
      memory.entryAt (slotOf 1 0) = some entry ∧ entry.writable = false := by
  obtain ⟨start, reached, shared, _⟩ := sharing_reachable
  obtain ⟨entry, through, _⟩ := shared 0 (by decide)
  exact ⟨start.held, start.memory, entry, consistent_of_reachable reached,
    through.mapped, through.readOnly⟩

/-- The shared page is unshared for a buffer of one byte. -/
theorem verifyArea_covers_iff_byte :
    ∃ held memory entry,
      ConsistentPaging (mainMemoryStart 15360 / 4096) (memoryEnd 15360 / 4096)
        held memory ∧
      memory.entryAt (slotOf 1 0) = some entry ∧ entry.writable = false ∧
      Covers (mainMemoryStart 15360 / 4096) (memoryEnd 15360 / 4096) 1 1 1 memory := by
  obtain ⟨held, memory, entry, consistent, mapped, readOnly⟩ := sharing_consistent
  exact ⟨held, memory, entry, consistent, mapped, readOnly,
    (verifyArea_covers_iff _ _ held memory 1 1 1 consistent (by decide) (by decide)
      (by decide) (by decide)).mpr (Or.inl (by decide))⟩

/-- A read of the largest size into address 1 leaves the shared page shared. -/
theorem verifyArea_misses :
    ∃ held memory,
      ConsistentPaging (mainMemoryStart 15360 / 4096) (memoryEnd 15360 / 4096)
        held memory ∧
      ¬ Covers (mainMemoryStart 15360 / 4096) (memoryEnd 15360 / 4096) 1 1
        0x7fffffff memory := by
  obtain ⟨held, memory, entry, consistent, mapped, readOnly⟩ := sharing_consistent
  refine ⟨held, memory, consistent, fun covers => ?_⟩
  have nothing :=
    verifyAreaInt_of_overflow 1 memory (show (0x7fffffff : Int) < 2 ^ 31 by decide)
      (show (2 : Int) ^ 31 ≤ 0x7fffffff + (1 % 4096 : Nat) by decide)
  have overlaps : Overlaps 1 0x7fffffff 0 :=
    ⟨0, by decide, by decide⟩
  have single :=
    (covers.of_ret nothing).single 0 (by decide) overlaps entry mapped
  rw [readOnly] at single
  cases single.1

end Example

end Memory

end HitOs
