import HitOs.PageRoots
import HitOs.UserStores

namespace HitOs

/-!
# A fork that fails

`copy_process` can run out of memory before it has copied anything, or after any number
of page tables.  Then `free_page_tables` takes back the references that the copied tables
held, and the page of the new task is given back.  The contents of that page are the
record in `task`; the descriptors in the GDT and the state of the coprocessor are left
out.
-/

namespace Forks

open Routine Memory

/-! ## The routine -/

/-- The registers of a task. -/
structure Registers where
  ebx : Word
  ecx : Word
  edx : Word
  esp : Word
  ebp : Word
  esi : Word
  edi : Word
  eip : Word
  eflags : Word
  es : Word
  cs : Word
  ss : Word
  ds : Word
  fs : Word
  gs : Word

/-- `tss_struct`, without what `copy_process` copies from the parent -/
structure Tss extends Registers where
  backLink : Word
  esp0 : Nat
  ss0 : Word
  eax : Word
  ldt : Nat
  traceBitmap : Word

/-- The fields of `task_struct` that `copy_process` reads or sets. -/
structure Task where
  state : Int
  pid : Int
  father : Int
  counter : Int
  priority : Int
  signal : BitVec 32
  alarm : Int
  leader : Bool
  utime : Int
  stime : Int
  cutime : Int
  cstime : Int
  startTime : Int
  startCode : Nat
  segments : Segments
  tss : Tss
  filp : Nat → Option Nat
  pwd : Option Nat
  root : Option Nat
  executable : Option Nat

/-- What the kernel has for a fork; files and inodes by the index in their table. -/
structure Kernel where
  memory : Memory
  task : Fin 64 → Option Task
  fCount : Nat → Nat
  iCount : Nat → Nat
  lastPid : Int
  jiffies : Int

def eagain : Int := 11

def nrOpen : Nat := 20

namespace Kernel

def setTask (nr : Fin 64) (p : Option Task) (kernel : Kernel) : Kernel :=
  { kernel with task := Function.update kernel.task nr p }

def changeTask (nr : Fin 64) (change : Task → Task) (kernel : Kernel) : Kernel :=
  kernel.setTask nr ((kernel.task nr).map change)

/-- `f->f_count++` -/
def raiseFile (index : Nat) (kernel : Kernel) : Kernel :=
  { kernel with
    fCount := Function.update kernel.fCount index (kernel.fCount index + 1) }

/-- `inode->i_count++`, if there is one -/
def raiseInode : Option Nat → Kernel → Kernel
  | none, kernel => kernel
  | some index, kernel =>
    { kernel with
      iCount := Function.update kernel.iCount index (kernel.iCount index + 1) }

/-- Run a routine of `mm/memory.c`. -/
def onMemory {α : Type} (routine : Routine Memory α) : Routine Kernel α :=
  zoom Kernel.memory
    (fun memory kernel => { kernel with memory := memory }) routine

end Kernel

/-- The record that `copy_process` makes in the page `p`. -/
def child
    (current : Task)
    (nr : Fin 64)
    (frame : Registers)
    (p : Nat)
    (kernel : Kernel) : Task :=
  { current with
    state := 2
    pid := kernel.lastPid
    father := current.pid
    counter := current.priority
    signal := 0
    alarm := 0
    leader := false
    utime := 0
    stime := 0
    cutime := 0
    cstime := 0
    startTime := kernel.jiffies
    tss :=
      { frame with
        es := frame.es &&& 0xffff#32
        cs := frame.cs &&& 0xffff#32
        ss := frame.ss &&& 0xffff#32
        ds := frame.ds &&& 0xffff#32
        fs := frame.fs &&& 0xffff#32
        gs := frame.gs &&& 0xffff#32
        backLink := 0
        esp0 := 4096 + p * 4096
        ss0 := 0x10#32
        eax := 0
        ldt := nr * 16 + 40
        traceBitmap := 0x80000000#32 } }

/-- `copy_mem`, with what it sets in the record of the new task -/
def copyMem (current : Task) (nr : Fin 64) : Routine Kernel Int := do
  update (Kernel.changeTask nr fun p =>
    { p with
      startCode := nr * slotSize
      segments :=
        { p.segments with codeBase := nr * slotSize, dataBase := nr * slotSize } })
  Kernel.onMemory (Memory.copyMem current.segments nr)

/-- `copy_process` -/
def copyProcess
    (current : Task)
    (nr : Fin 64)
    (frame : Registers) :
    Routine Kernel Int := do
  let p ← Kernel.onMemory getFreePage
  if p = 0 then
    pure (-eagain)
  else
    let kernel ← read
    update (Kernel.setTask nr (some (child current nr frame p kernel)))
    let failed ← copyMem current nr
    if failed ≠ 0 then
      update (Kernel.setTask nr none)
      Kernel.onMemory (freePage p)
      pure (-eagain)
    else
      forUp
        (fun i =>
          match current.filp i with
          | none => pure ()
          | some f => update (Kernel.raiseFile f))
        nrOpen 0
      update (Kernel.raiseInode current.pwd)
      update (Kernel.raiseInode current.root)
      update (Kernel.raiseInode current.executable)
      update (Kernel.changeTask nr fun p => { p with state := 0 })
      pure kernel.lastPid

/-! ## What a failure leaves behind -/

/-- The segments of the task in this slot of the task table. -/
structure Segmented (parent : Fin 64) (segments : Segments) : Prop where
  dataBase :
    segments.dataBase = parent * slotSize
  codeBase :
    segments.codeBase = parent * slotSize
  limits :
    segments.codeLimit ≤ segments.dataLimit
  inSlot :
    segments.dataLimit ≤ slotSize
  /-- Task 0 has the 640 kB segments of `INIT_TASK`. -/
  swapper :
    parent = 0 → segments.dataLimit ≤ 0xA0000

/-- Nothing that can be observed is different. -/
structure Untouched (kernel after : Kernel) : Prop where
  memMap :
    ∀ index, index < pagingPages →
      after.memory.memMap index = kernel.memory.memMap index
  directory :
    after.memory.ram 0 = kernel.memory.ram 0
  task :
    after.task = kernel.task
  fCount :
    after.fCount = kernel.fCount
  iCount :
    after.iCount = kernel.iCount
  low :
    ∀ page, page < lowMemPage → after.memory.ram page = kernel.memory.ram page
  views :
    SameViews kernel.memory after.memory

section Failure

variable {low high : Nat} {held : Nat → Nat} {memory after : Memory}

/-- The counters follow from what refers to the pages. -/
theorem memMap_of_same
    (before : Accounted low high held memory)
    (later : Accounted low high held after)
    (places :
      ∀ slot ∈ userEntries, after.placeAt slot = memory.placeAt slot)
    (tables : ∀ dir ∈ userDirs, after.tableOf dir = memory.tableOf dir)
    {index : Nat}
    (inRange : index < pagingPages) :
    after.memMap index = memory.memMap index := by
  by_cases inMain : InMain low high (index + lowMemPage)
  · have exact := before.exact _ inMain
    have exactLater := later.exact _ inMain
    have sameEntries :
        after.entryRefs (index + lowMemPage) = memory.entryRefs (index + lowMemPage) :=
      occurrences_congr
        (fun slot member => by
          rw [frameAt_eq_place, frameAt_eq_place, places slot member]) _
    have sameTables :
        after.tableRefs (index + lowMemPage) = memory.tableRefs (index + lowMemPage) :=
      occurrences_congr tables _
    rw [Nat.add_sub_cancel] at exact exactLater
    apply BitVec.eq_of_toNat_eq
    omega
  · rw [before.reserved index inRange inMain, later.reserved index inRange inMain]

/-- A page is taken for the new task, nothing is left of the copy, and it is given back. -/
theorem untouched_of_restored
    {child page : Nat} {middle freed : Memory}
    (consistent : ConsistentPaging low high held memory)
    (notSwapper : 0 < child)
    (childRange : child < 64)
    (empty : ∀ dir, InSlot child dir → memory.tableOf dir = none)
    (inMain : InMain low high page)
    (free : memory.memMap (page - lowMemPage) = 0#8)
    (restored :
      Restored low high (Function.update held page 1) child (taken page memory)
        middle)
    (accounted :
      Accounted low high (Function.update (Function.update held page 1) page 0) freed)
    (ram : freed.ram = middle.ram) :
    (∀ index, index < pagingPages → freed.memMap index = memory.memMap index) ∧
      freed.ram 0 = memory.ram 0 ∧
      (∀ other, other < lowMemPage → freed.ram other = memory.ram other) ∧
      SameViews memory freed := by
  have before := consistent.accounted
  have refs := before.free_refs inMain free
  rw [Accounted.held_restored refs.2.2] at accounted
  have tables :
      ∀ dir ∈ userDirs, freed.tableOf dir = memory.tableOf dir := by
    intro dir member
    rw [← before.tableOf_taken inMain dir, ← restored.tables dir member, tableOf,
      tableOf, ram]
  have entries (slot : Nat × Nat) : freed.entryAt slot = middle.entryAt slot := by
    unfold entryAt tableOf
    rw [ram]
  have places :
      ∀ slot ∈ userEntries, freed.placeAt slot = memory.placeAt slot := by
    intro slot member
    rw [placeAt_congr (entries slot), restored.places slot member]
    exact placeAt_congr (before.entryAt_taken inMain free member)
  have data {other : Nat} (notZero : other ≠ 0) (kept : Kept held memory other) :
      freed.ram other = memory.ram other := by
    have different :=
      kept_ne_of_main before inMain refs.1 refs.2.2 kept
    have keptTaken :
        Kept (Function.update held page 1) (taken page memory) other := by
      rcases kept with below | mapped | isHeld
      · exact Or.inl below
      · have sameRefs :
            (taken page memory).entryRefs other = memory.entryRefs other :=
          occurrences_congr
            (fun slot member =>
              frameAt_congr (before.entryAt_taken inMain free member)) _
        exact Or.inr (Or.inl (by rw [sameRefs]; exact mapped))
      · refine Or.inr (Or.inr ?_)
        rw [Function.update_of_ne different]
        exact isHeld
    rw [ram, restored.data other notZero keptTaken, Accounted.ram_taken,
      if_neg different]
  have directory : freed.ram 0 = memory.ram 0 := by
    funext dir
    rw [ram]
    have sameRoot : (taken page memory).ram 0 = memory.ram 0 := by
      rw [Accounted.ram_taken, if_neg (Ne.symm (before.ne_zero_of_main inMain))]
    rcases restored.root dir with same | ⟨inChild, zero⟩
    · rw [same, sameRoot]
    · have member : dir ∈ userDirs := by
        obtain ⟨lower, upper⟩ := inChild
        rw [mem_userDirs]
        omega
      rw [zero, consistent.cleared dir member (empty dir inChild)]
  have lowPages :
      ∀ other, other < lowMemPage → freed.ram other = memory.ram other := by
    intro other below
    by_cases zero : other = 0
    · rw [zero]
      exact directory
    · exact data zero (Or.inl below)
  refine ⟨fun index => memMap_of_same before accounted places tables, directory,
    lowPages, ?_⟩
  intro task offset user range inSlot
  have member := slotOf_mem user range inSlot
  have sameFrame :
      freed.frameAt (slotOf task offset) = memory.frameAt (slotOf task offset) := by
    rw [frameAt_eq_place, frameAt_eq_place, places _ member]
  apply view_congr sameFrame
  intro other maps
  by_cases zero : other = 0
  · rw [zero]
    exact directory
  · exact data zero (kept_of_maps member maps)

end Failure

/-- When the memory is copied the fork returns the new process number. -/
theorem satisfies_raiseCounts
    (current : Task)
    (nr : Fin 64)
    (lastPid : Int)
    (valid : lastPid ≠ -eagain)
    {kernel : Kernel} {untouched : Kernel → Prop} :
    Satisfies
      (do
        forUp
          (fun i =>
            match current.filp i with
            | none => pure ()
            | some f => update (Kernel.raiseFile f))
          nrOpen 0
        update (Kernel.raiseInode current.pwd)
        update (Kernel.raiseInode current.root)
        update (Kernel.raiseInode current.executable)
        update (Kernel.changeTask nr fun p => { p with state := 0 })
        pure lastPid)
      kernel
      (fun value after => value = -eagain → untouched after) (fun _ => False) := by
  have counts :
      Satisfies
        (forUp
          (fun i =>
            match current.filp i with
            | none => pure ()
            | some f => update (Kernel.raiseFile f))
          nrOpen 0)
        kernel (fun _ _ => True) (fun _ => False) := by
    refine satisfies_forUp (fun _ _ => True) trivial fun i state _ _ _ => ?_
    split <;> trivial
  refine Satisfies.andThen counts fun _ _ _ => ?_
  rw [satisfies_bind, satisfies_update, satisfies_bind, satisfies_update,
    satisfies_bind, satisfies_update, satisfies_bind, satisfies_update, satisfies_pure]
  exact fun same => absurd same valid

/--
A fork does not panic, and one that returns `-EAGAIN` leaves everything as it was,
whichever page could not be had.
-/
theorem copyProcess_untouched
    (low high : Nat)
    (held : Nat → Nat)
    (kernel : Kernel)
    (current : Task)
    (parent nr : Fin 64)
    (frame : Registers)
    (consistent : ConsistentPaging low high held kernel.memory)
    (segmented : Segmented parent current.segments)
    (notSwapper : nr ≠ 0)
    (different : parent ≠ nr)
    (vacant : kernel.task nr = none)
    (pid : 0 < kernel.lastPid)
    (empty : ∀ dir, InSlot nr dir → kernel.memory.tableOf dir = none) :
    Satisfies (copyProcess current nr frame) kernel
      (fun value after => value = -eagain → Untouched kernel after)
      (fun _ => False) := by
  have accounted := consistent.accounted
  have user : 0 < nr.val := Nat.pos_of_ne_zero fun zero => notSwapper (Fin.ext zero)
  have apart : parent.val ≠ nr.val := fun same => different (Fin.ext same)
  have firstFork : parent.val = 0 → current.segments.dataLimit ≤ 0x400000 := by
    intro zero
    have small := segmented.swapper (Fin.ext zero)
    omega
  unfold copyProcess Kernel.onMemory
  rw [satisfies_bind, satisfies_zoom]
  refine (satisfies_getFreePage accounted).mono ?_ (fun _ isNone => isNone)
  rintro p fresh (⟨rfl, rfl, _⟩ | ⟨inMain, free, rfl⟩)
  · rw [if_pos rfl, satisfies_pure]
    exact fun _ => ⟨fun _ _ => rfl, rfl, rfl, rfl, rfl, fun _ _ => rfl,
      fun _ _ _ _ _ => rfl⟩
  · have takenAccounted := accounted.taken_accounted inMain free
    have takenHeld : 0 < Function.update held p 1 p := by
      simp
    have stillEmpty :
        ∀ dir, InSlot nr dir → (taken p kernel.memory).tableOf dir = none :=
      fun dir inChild => (accounted.tableOf_taken inMain dir).trans (empty dir inChild)
    rw [if_neg (accounted.ne_zero_of_main inMain), satisfies_bind, satisfies_read,
      satisfies_bind, satisfies_update, satisfies_bind]
    unfold copyMem Kernel.onMemory
    rw [satisfies_bind, satisfies_update, satisfies_zoom]
    refine (satisfies_copyMem_root takenAccounted ⟨user, nr.isLt, parent.isLt, apart,
      segmented.dataBase, segmented.codeBase, segmented.limits, segmented.inSlot,
      firstFork, stillEmpty⟩).mono ?_ (fun _ isNone => isNone)
    intro failed middle outcome
    by_cases copied : failed = 0
    · rw [if_neg fun isFailed => isFailed copied]
      exact satisfies_raiseCounts current nr kernel.lastPid (by unfold eagain; omega)
    · have restored := outcome.resolve_left fun success => copied success.1
      rw [if_pos copied, satisfies_bind, satisfies_update, satisfies_bind,
        satisfies_zoom]
      refine (satisfies_freePage_held restored.accounted takenHeld).mono ?_
        (fun _ isNone => isNone)
      rintro _ freed ⟨freedAccounted, ram⟩
      rw [satisfies_pure]
      intro _
      obtain ⟨memMap, directory, lowPages, views⟩ :=
        untouched_of_restored consistent user nr.isLt empty inMain free restored
          freedAccounted ram
      refine ⟨memMap, directory, ?_, rfl, rfl, lowPages, views⟩
      change Function.update (Function.update (Function.update kernel.task nr _) nr _)
        nr none = kernel.task
      rw [Function.update_idem, Function.update_idem, ← vacant, Function.update_eq_self]

/-! ## One page left -/

section Example

/-- A machine with three pages of main memory, before the first fork. -/
def threePages : Memory.Kernel where
  memory := booted 12 ⟨fun _ _ => 0#32, fun _ => 0#8, 0⟩
  held := fun _ => 0

/-- A page of task 1, which takes a table too. -/
def onePage : PageCall :=
  .getEmptyPage slotSize

/-- Registers that do not matter. -/
def noRegisters : Registers :=
  ⟨0, 0, 0, 0, 0, 0, 0, 0, 0, 0, 0, 0, 0, 0, 0⟩

/-- Task 1, with one file and its directories. -/
def taskOne : Task where
  state := 0
  pid := 1
  father := 0
  counter := 15
  priority := 15
  signal := 0
  alarm := 0
  leader := false
  utime := 0
  stime := 0
  cutime := 0
  cstime := 0
  startTime := 0
  startCode := slotSize
  segments := ⟨slotSize, slotSize, slotSize, slotSize⟩
  tss := { noRegisters with
    backLink := 0, esp0 := 0, ss0 := 0, eax := 0, ldt := 0, traceBitmap := 0 }
  filp i := if i = 0 then some 0 else none
  pwd := some 0
  root := some 0
  executable := none

/-- The kernel when task 1 forks. -/
def forking (memory : Memory) : Kernel where
  memory := memory
  task slot := if slot = 1 then some taskOne else none
  fCount _ := 1
  iCount _ := 2
  lastPid := 2
  jiffies := 0

/-- The last page is taken for the new task, and there is none for a table. -/
def failingTest : Bool :=
  (onePage.perform threePages).passes fun _ kernel =>
    (List.range 16).all (fun dir => kernel.memory.tableOf (32 + dir) == none) &&
    (kernel.memory.tableOf 16).isSome &&
    (copyProcess taskOne 2 noRegisters (forking kernel.memory)).passes
      fun value _ => value == -eagain

theorem failing_passes :
    failingTest = true := by
  decide +kernel

/-- The fork fails at the first table, and the page of the task is given back. -/
theorem copyProcess_untouched_last :
    ∃ memory after,
      (memory.tableOf 16).isSome ∧
      copyProcess taskOne 2 noRegisters (forking memory) = .ret (-eagain) after ∧
      Untouched (forking memory) after := by
  have passed := failing_passes
  unfold failingTest at passed
  obtain ⟨_, kernel, placed, passed⟩ := Outcome.passes_iff.mp passed
  simp only [Bool.and_eq_true, List.all_eq_true, List.mem_range, beq_iff_eq] at passed
  obtain ⟨⟨empty, table⟩, passed⟩ := passed
  obtain ⟨value, after, forked, failed⟩ := Outcome.passes_iff.mp passed
  have reached : (pageMachine 12).Reachable threePages :=
    .start ⟨⟨_, rfl⟩, fun _ => rfl⟩
  have enabled : onePage.Enabled threePages := by
    have member : (dirIndex slotSize, tableIndex slotSize) ∈ userEntries := by
      rw [mem_userEntries]
      decide
    exact ⟨member, entryAt_booted _ _ member⟩
  have consistent := consistent_of_reachable (reachable_call reached enabled placed)
  have noTable :
      ∀ dir, InSlot (2 : Fin 64) dir → kernel.memory.tableOf dir = none := by
    rintro dir ⟨lower, upper⟩
    change 32 ≤ dir at lower
    change dir < 48 at upper
    have isNone := empty (dir - 32) (by omega)
    rwa [Nat.add_sub_cancel' lower] at isNone
  have segmented : Segmented 1 taskOne.segments :=
    ⟨rfl, rfl, Nat.le_refl _, Nat.le_refl _, fun zero => absurd zero (by decide)⟩
  have two : (0 : Int) < 2 := by
    decide
  have satisfied :=
    copyProcess_untouched _ _ kernel.held (forking kernel.memory) taskOne 1 2
      noRegisters consistent segmented (by decide) (by decide) rfl two noTable
  have isFailure : value = -eagain := by
    simpa using failed
  rw [isFailure] at forked
  exact ⟨kernel.memory, after, table, forked, satisfied.of_ret forked rfl⟩

end Example

end Forks

end HitOs
