import HitOs.EagerCopy
import HitOs.PageRuns

namespace HitOs

/-!
# Copy-on-write refines eager copying

Forks share the pages of the parent and write-protect both entries; the first
store to a shared page makes a copy.  Here this machine is compared with the one
of `EagerCopy`, whose forks copy every byte at once.  The pages below `LOW_MEM` hold
the page directory, `mem_map`, the tasks and what else the kernel changes by itself;
of them, and of copies of them, nothing is said.
-/

namespace Memory

open Routine

/-- What the tasks do to each other's memory. -/
inductive TaskAction where
  | fork (parent child size : Nat)
  | write (task offset : Nat) (value : Byte)
  | exit (task size : Nat)

/-- The addresses of a task: a 64 MB slot, and task 0's 640 kB. -/
def Addressable (task offset : Nat) : Prop :=
  0 < task ∧ task < 64 ∧ offset < slotSize ∨ task = 0 ∧ offset < 0xA0000

namespace TaskAction

/-- The bytes that a routine of `mm/memory.c` moves with a size argument. -/
def inTables (size offset : Nat) : Bool :=
  decide (offset / 0x400000 < (size + 0x3fffff) / 0x400000)

/-- One action of a run in which memory does not run out. -/
inductive Runs : TaskAction → Memory → Memory → Prop where
  | fork
      {parent child size : Nat} {memory after : Memory}
      (parentUser : 0 < parent)
      (parentRange : parent < 64)
      (childUser : 0 < child)
      (childRange : child < 64)
      (different : parent ≠ child)
      (inSlot : size ≤ slotSize)
      (empty : ∀ dir, InSlot child dir → memory.tableOf dir = none)
      (copied :
        copyPageTables (parent * slotSize) (child * slotSize) size
          memory = .ret 0 after) :
      Runs (fork parent child size) memory after
  | write
      {task offset : Nat} {value : Byte} {memory after : Memory}
      (addressable : Addressable task offset)
      (isPresent : memory.view task offset ≠ none)
      (written :
        userWrite (task * slotSize + offset) value memory = .ret () after) :
      Runs (write task offset value) memory after
  | exit
      {task size : Nat} {memory after : Memory}
      (taskUser : 0 < task)
      (taskRange : task < 64)
      (inSlot : size ≤ slotSize)
      (freed :
        freePageTables (task * slotSize) size memory = .ret 0 after) :
      Runs (exit task size) memory after

/-- The same action on private copies; `made` is what a stored byte becomes. -/
def eager
    {β : Type}
    (made : Byte → β) :
    TaskAction → EagerCopy.Views Nat Nat β → EagerCopy.Views Nat Nat β
  | fork parent child size => EagerCopy.fork parent child (inTables size)
  | write task offset value => EagerCopy.write task offset (made value)
  | exit task size => EagerCopy.exit task (inTables size)

/-- Any action but a store by task 0, whose pages are the kernel's. -/
def ByUser : TaskAction → Prop
  | write task _ _ => 0 < task
  | _ => True

end TaskAction

/-- What the tasks would read if every fork had copied all pages at once. -/
def eagerly
    {β : Type}
    (made : Byte → β)
    (actions : List TaskAction)
    (views : EagerCopy.Views Nat Nat β) :
    EagerCopy.Views Nat Nat β :=
  actions.foldl (fun reached action => action.eager made reached) views

/-! ## Bytes of the kernel's pages are not specified -/

/--
A task's view with the bytes of the pages below `LOW_MEM` left open: `some none` is
a byte about which nothing is said.
-/
def known (memory : Memory) (task offset : Nat) :
    Option (Option Byte) :=
  (memory.frameAt (slotOf task offset)).map fun page =>
    if page < lowMemPage then none
    else some (pageByte (memory.ram page) (offset % 4096))

/-- What a specified cell says about the byte that a task reads. -/
def Agrees : Option (Option Byte) → Option Byte → Prop
  | none, seen => seen = none
  | some none, seen => seen ≠ none
  | some (some value), seen => seen = some value

/-- A cell is right, and a specified byte is not in one of the kernel's pages. -/
def Holds
    (cell : Option (Option Byte))
    (memory : Memory)
    (task offset : Nat) : Prop :=
  Agrees cell (memory.view task offset) ∧
    ∀ value, cell = some (some value) →
      ∀ page, memory.frameAt (slotOf task offset) = some page → lowMemPage ≤ page

/-- The simulation relation. -/
def Refines
    (low high : Nat)
    (held : Nat → Nat)
    (memory : Memory)
    (views : EagerCopy.Views Nat Nat (Option Byte)) : Prop :=
  Accounted low high held memory ∧
    ∀ task offset, Addressable task offset →
      Holds (views task offset) memory task offset

variable {low high : Nat} {held : Nat → Nat} {memory after : Memory}

theorem view_eq_none
    {task offset : Nat} :
    memory.view task offset = none ↔
      memory.frameAt (slotOf task offset) = none := by
  unfold view
  exact Option.map_eq_none_iff

theorem known_holds
    (task offset : Nat) :
    Holds (memory.known task offset) memory task offset := by
  unfold Holds known view
  cases maps : memory.frameAt (slotOf task offset) with
  | none =>
    exact ⟨rfl, fun _ same => nomatch same⟩
  | some page =>
    by_cases low : page < lowMemPage
    · simp [low, Agrees]
    · simp [low, Agrees, Nat.le_of_not_lt low]

/-- Page 0, the page directory, is one of the kernel's pages. -/
theorem ne_zero_of_above
    {page : Nat}
    (above : lowMemPage ≤ page) :
    page ≠ 0 := by
  rintro rfl
  exact absurd above (by decide)

/-- A cell stays right when the entry keeps its page and the page its bytes. -/
theorem Holds.transfer
    {cell : Option (Option Byte)} {task other offset : Nat}
    (right : Holds cell memory task offset)
    (sameFrame :
      after.frameAt (slotOf other offset) = memory.frameAt (slotOf task offset))
    (sameContents :
      ∀ page, lowMemPage ≤ page →
        memory.frameAt (slotOf task offset) = some page →
        after.ram page = memory.ram page) :
    Holds cell after other offset := by
  obtain ⟨agrees, specified⟩ := right
  refine ⟨?_, ?_⟩
  · rcases cell with _ | _ | value
    · have empty := view_eq_none.mp agrees
      rw [← sameFrame] at empty
      exact view_eq_none.mpr empty
    · intro empty
      rw [view_eq_none, sameFrame, ← view_eq_none] at empty
      exact agrees empty
    · have sameView : after.view other offset = memory.view task offset := by
        apply view_congr sameFrame
        intro page maps
        exact sameContents page (specified value rfl page maps) maps
      exact sameView.trans agrees
  · intro value shape
    rw [sameFrame]
    exact specified value shape

/-! ## The addresses of a task -/

/-- Task 0 sees the pages of low memory at their own addresses. -/
theorem kernelFrame
    (accounted : Accounted low high held memory)
    {offset : Nat}
    (inKernel : offset < 0xA0000) :
    memory.frameAt (slotOf 0 offset) = some (offset / 4096) := by
  have shape : slotOf 0 offset = (0, offset / 4096) := by
    unfold slotOf dirIndex tableIndex
    refine Prod.ext ?_ ?_
    · simp only
      omega
    · simp only
      omega
  have inRange : offset / 4096 < 0xA0 := by
    omega
  rw [shape, frameAt_of_entry (accounted.kernelEntry inRange),
    Word.frame_userEntry (by omega)]

theorem Addressable.copyable
    {task offset : Nat}
    (addressable : Addressable task offset) :
    Copyable (slotOf task offset).1 (slotOf task offset).2 := by
  rcases addressable with ⟨user, range, inSlot⟩ | ⟨rfl, inKernel⟩
  · exact Or.inl (slotOf_mem user range inSlot)
  · refine Or.inr ?_
    unfold slotOf dirIndex tableIndex
    omega

/-- The pages behind a task's addresses are among those whose bytes are kept. -/
theorem Addressable.kept
    (accounted : Accounted low high held memory)
    {task offset page : Nat}
    (addressable : Addressable task offset)
    (maps : memory.frameAt (slotOf task offset) = some page) :
    Kept held memory page := by
  rcases addressable with ⟨user, range, inSlot⟩ | ⟨rfl, inKernel⟩
  · exact kept_of_maps (slotOf_mem user range inSlot) maps
  · rw [kernelFrame accounted inKernel] at maps
    cases maps
    refine Or.inl ?_
    unfold lowMemPage
    omega

/-! ## One action -/

/-- A fork gives the child the parent's cells. -/
theorem refines_fork
    {parent child size : Nat}
    {views : EagerCopy.Views Nat Nat (Option Byte)}
    (refines : Refines low high held memory views)
    (parentUser : 0 < parent)
    (parentRange : parent < 64)
    (childUser : 0 < child)
    (childRange : child < 64)
    (different : parent ≠ child)
    (withinSlot : size ≤ slotSize)
    (empty : ∀ dir, InSlot child dir → memory.tableOf dir = none)
    (copied :
      DirsCopied low high held 1024 (parent * 16) (child * 16)
        ((size + 0x3fffff) / 0x400000) memory after) :
    Refines low high held after
      (EagerCopy.fork parent child (TaskAction.inTables size) views) := by
  obtain ⟨accounted, cells⟩ := refines
  refine ⟨copied.accounted, ?_⟩
  intro task offset addressable
  have contents (source : Nat)
      (reads : Addressable source offset)
      (page : Nat)
      (above : lowMemPage ≤ page)
      (maps : memory.frameAt (slotOf source offset) = some page) :
      after.ram page = memory.ram page :=
    copied.data page (ne_zero_of_above above) (reads.kept accounted maps)
  by_cases isChild : task = child
  · subst isChild
    rw [EagerCopy.fork, Function.update_self]
    rcases addressable with ⟨_, _, inSlot⟩ | ⟨zero, _⟩
    · have small : dirIndex offset < 16 := by
        unfold slotSize at inSlot
        unfold dirIndex
        omega
      have indexRange : tableIndex offset < 1024 := by
        unfold tableIndex
        omega
      have sameDir : offset / 0x400000 = dirIndex offset := by
        unfold slotSize at inSlot
        unfold dirIndex
        omega
      unfold TaskAction.inTables
      rw [sameDir]
      by_cases inRange : dirIndex offset < (size + 0x3fffff) / 0x400000
      · rw [if_pos (decide_eq_true inRange)]
        have reads : Addressable parent offset :=
          Or.inl ⟨parentUser, parentRange, inSlot⟩
        apply (cells parent offset reads).transfer
        · have child :=
            copied.copied (dirIndex offset) (tableIndex offset) inRange
              indexRange
          rw [if_pos indexRange] at child
          unfold frameAt slotOf
          rw [child, Option.map_map]
          congr 1
          funext entry
          exact Word.frame_writeProtect entry
        · exact contents parent reads
      · rw [if_neg (by simpa using inRange)]
        have noTable :
            after.tableOf (task * 16 + dirIndex offset) = none := by
          rw [copied.tables _ (by omega)]
          refine empty _ ?_
          unfold InSlot
          omega
        refine ⟨view_of_empty (entryAt_of_no_table noTable), ?_⟩
        intro value shape
        cases shape
    · omega
  · rw [EagerCopy.fork, Function.update_of_ne isChild]
    apply (cells task offset addressable).transfer
    · apply copied.frame_kept addressable.copyable
      unfold slotOf
      unfold slotSize at withinSlot
      rcases addressable with ⟨_, _, inSlot⟩ | ⟨zero, inKernel⟩
      · unfold slotSize at inSlot
        unfold dirIndex
        omega
      · unfold dirIndex
        omega
    · exact contents task addressable

/-- A user program's store changes one cell. -/
theorem refines_write
    {task offset : Nat} {value : Byte} {old new : Word}
    {views : EagerCopy.Views Nat Nat (Option Byte)}
    (refines : Refines low high held memory views)
    (taskUser : 0 < task)
    (taskRange : task < 64)
    (inSlot : offset < slotSize)
    (mapped : memory.entryAt (slotOf task offset) = some old)
    (written :
      UserWritten low high held (slotOf task offset) old new
        (offset % 4096) value memory after) :
    Refines low high held after
      (EagerCopy.write task offset (some value) views) := by
  obtain ⟨accounted, cells⟩ := refines
  refine ⟨written.accounted, ?_⟩
  intro other otherOffset addressable
  have aboveLow := written.above
  unfold lowMemPage at aboveLow
  have cell :
      EagerCopy.write task offset (some value) views other otherOffset =
        if other = task ∧ otherOffset = offset then some (some value)
        else views other otherOffset := by
    unfold EagerCopy.write
    by_cases sameTask : other = task
    · subst sameTask
      rw [Function.update_self, Function.update_apply]
      simp
    · rw [Function.update_of_ne sameTask, if_neg (fun same =>
        sameTask same.1)]
  rw [cell]
  rcases addressable with ⟨otherUser, otherRange, otherInSlot⟩ | kernel
  · have seen :=
      written.view mapped inSlot otherUser otherRange otherInSlot
    have above :
        (∀ value, views other otherOffset = some (some value) →
          ∀ page, memory.frameAt (slotOf other otherOffset) = some page →
            lowMemPage ≤ page) →
        ∀ value, views other otherOffset = some (some value) →
          ∀ page, after.frameAt (slotOf other otherOffset) = some page →
            lowMemPage ≤ page := by
      intro before value shape
      by_cases sameSlot : slotOf other otherOffset = slotOf task offset
      · rw [sameSlot, frameAt_of_entry written.self]
        rintro page ⟨⟩
        exact written.above
      · rw [frameAt_congr (written.others _
          (slotOf_mem otherUser otherRange otherInSlot) sameSlot)]
        exact before value shape
    obtain ⟨agrees, specified⟩ :=
      cells other otherOffset
        (Or.inl ⟨otherUser, otherRange, otherInSlot⟩)
    unfold Holds
    rw [seen]
    by_cases same : other = task ∧ otherOffset = offset
    · rw [if_pos same, if_pos same]
      obtain ⟨rfl, rfl⟩ := same
      refine ⟨rfl, ?_⟩
      rw [frameAt_of_entry written.self]
      rintro _ _ page ⟨⟩
      exact written.above
    · rw [if_neg same, if_neg same]
      exact ⟨agrees, above specified⟩
  · have addressable : Addressable other otherOffset := Or.inr kernel
    obtain ⟨rfl, inKernel⟩ := kernel
    rw [if_neg (by omega)]
    apply (cells 0 otherOffset addressable).transfer
    · rw [kernelFrame written.accounted inKernel, kernelFrame accounted inKernel]
    · intro page _ maps
      rw [kernelFrame accounted inKernel] at maps
      cases maps
      apply written.ram _ (by omega)
      refine Or.inl ?_
      unfold lowMemPage
      omega

/-- An exit empties the released part of the task's slot. -/
theorem refines_exit
    {task size : Nat}
    {views : EagerCopy.Views Nat Nat (Option Byte)}
    (refines : Refines low high held memory views)
    (taskUser : 0 < task)
    (taskRange : task < 64)
    (inSlot : size ≤ slotSize)
    (released :
      Released low high held (task * 16) ((size + 0x3fffff) / 0x400000)
        memory after) :
    Refines low high held after
      (EagerCopy.exit task (TaskAction.inTables size) views) := by
  obtain ⟨accounted, cells⟩ := refines
  refine ⟨released.accounted, ?_⟩
  intro other offset addressable
  have contents (page : Nat)
      (above : lowMemPage ≤ page)
      (maps : memory.frameAt (slotOf other offset) = some page) :
      after.ram page = memory.ram page :=
    released.keepsData accounted page (ne_zero_of_above above)
      (addressable.kept accounted maps)
  have cell :
      EagerCopy.exit task (TaskAction.inTables size) views other offset =
        if other = task ∧ TaskAction.inTables size offset = true then none
        else views other offset := by
    unfold EagerCopy.exit
    by_cases sameTask : other = task
    · subst sameTask
      rw [Function.update_self]
      simp
    · rw [Function.update_of_ne sameTask, if_neg (fun same =>
        sameTask same.1)]
  rw [cell]
  rcases addressable with ⟨otherUser, otherRange, otherInSlot⟩ | kernel
  · have member := slotOf_mem otherUser otherRange otherInSlot
    have entry := released.entries _ member
    have range :
        (task * 16 ≤ (slotOf other offset).1 ∧
            (slotOf other offset).1 < task * 16 + (size + 0x3fffff) / 0x400000) ↔
          other = task ∧ TaskAction.inTables size offset = true := by
      unfold TaskAction.inTables slotOf dirIndex
      unfold slotSize at inSlot otherInSlot
      rw [decide_eq_true_iff]
      simp only
      omega
    by_cases inRange :
        other = task ∧ TaskAction.inTables size offset = true
    · rw [if_pos inRange]
      rw [if_pos (range.mpr inRange)] at entry
      refine ⟨view_of_empty entry, ?_⟩
      intro value shape
      cases shape
    · rw [if_neg inRange]
      rw [if_neg (fun within => inRange (range.mp within))] at entry
      exact (cells other offset
        (Or.inl ⟨otherUser, otherRange, otherInSlot⟩)).transfer
        (frameAt_congr entry) contents
  · have addressable : Addressable other offset := Or.inr kernel
    obtain ⟨rfl, inKernel⟩ := kernel
    rw [if_neg (by omega)]
    apply (cells 0 offset addressable).transfer ?_ contents
    rw [kernelFrame released.accounted inKernel, kernelFrame accounted inKernel]

/-! ## Runs -/

/-- What a user program's store has done, in terms of its slot. -/
theorem written_by_user
    (accounted : Accounted low high held memory)
    {task offset : Nat} {value : Byte}
    (taskUser : 0 < task)
    (ran : (TaskAction.write task offset value).Runs memory after) :
    task < 64 ∧ offset < slotSize ∧
      ∃ old new,
        memory.entryAt (slotOf task offset) = some old ∧
          UserWritten low high held (slotOf task offset) old new
            (offset % 4096) value memory after := by
  cases ran with
  | write addressable isPresent written =>
    rcases addressable with ⟨_, taskRange, inSlot⟩ | ⟨zero, _⟩
    · have slotMember := slotOf_mem taskUser taskRange inSlot
      rw [Ne, view_eq_none, frameAt, Option.map_eq_none_iff,
        ← Ne, Option.ne_none_iff_exists'] at isPresent
      obtain ⟨old, mapped⟩ := isPresent
      have sameSlot := slotOf_address taskRange inSlot
      have satisfied :
          (userWrite _ value).Satisfies memory _ fun _ => True :=
        satisfies_userWrite accounted (sameSlot ▸ slotMember)
          (sameSlot ▸ mapped) trivial
      obtain ⟨new, result⟩ := satisfied.of_ret written
      have sameByte :
          (task * slotSize + offset) % 4096 = offset % 4096 := by
        unfold slotSize
        omega
      rw [sameSlot, sameByte] at result
      exact ⟨taskRange, inSlot, old, new, mapped, result⟩
    · omega

/-- One action keeps the refinement. -/
theorem refines_action
    {action : TaskAction}
    {views : EagerCopy.Views Nat Nat (Option Byte)}
    (byUser : action.ByUser)
    (refines : Refines low high held memory views)
    (ran : action.Runs memory after) :
    Refines low high held after (action.eager some views) := by
  have accounted := refines.1
  cases action with
  | fork parent child size =>
    cases ran with
    | fork parentUser parentRange childUser childRange different
        inSlot empty copied =>
        have satisfied :
            (copyPageTables _ _ _).Satisfies memory _ fun _ => True :=
          satisfies_copyPageTables accounted childUser childRange
            parentRange different inSlot
            (fun zero => absurd zero (Nat.ne_of_gt parentUser))
            (fun dir lower upper => empty dir ⟨lower, upper⟩)
        rcases satisfied.of_ret copied with ⟨_, dirs⟩ | ⟨failed, _⟩
        · rw [copiedEntries, if_neg (Nat.ne_of_gt parentUser)] at dirs
          exact refines_fork refines parentUser parentRange childUser
            childRange different inSlot empty dirs
        · exact absurd failed (by decide)
  | write task offset value =>
    obtain ⟨taskRange, inSlot, old, new, mapped, written⟩ :=
      written_by_user accounted byUser ran
    exact refines_write refines byUser taskRange inSlot mapped written
  | exit task size =>
    cases ran with
    | exit taskUser taskRange inSlot freed =>
      have satisfied :
          (freePageTables _ _).Satisfies memory _ fun _ => True :=
        satisfies_freePageTables accounted taskUser taskRange inSlot
      exact refines_exit refines taskUser taskRange inSlot
        (satisfied.of_ret freed).2

/-- A user program's store is invisible to the other tasks. -/
theorem view_of_other
    (accounted : Accounted low high held memory)
    {writer address task offset : Nat} {value : Byte}
    (writerUser : 0 < writer)
    (ran : (TaskAction.write writer address value).Runs memory after)
    (addressable : Addressable task offset)
    (different : task ≠ writer) :
    after.view task offset = memory.view task offset := by
  obtain ⟨writerRange, inSlot, old, new, mapped, written⟩ :=
    written_by_user accounted writerUser ran
  rcases addressable with ⟨user, range, taskInSlot⟩ | ⟨rfl, inKernel⟩
  · rw [written.view mapped inSlot user range taskInSlot,
      if_neg fun same => different same.1]
  · apply view_congr
    · rw [kernelFrame written.accounted inKernel, kernelFrame accounted inKernel]
    · intro page maps
      rw [kernelFrame accounted inKernel] at maps
      cases maps
      have aboveLow := written.above
      unfold lowMemPage at aboveLow
      apply written.ram _ (by omega)
      refine Or.inl ?_
      unfold lowMemPage
      omega

/--
After any run from a reachable state, every byte that a task reads is the byte
of the machine whose forks copy at once, unless it stems from a page below
`LOW_MEM`; and of the other bytes a store changes no other task's view.  Stores by
task 0 go to the kernel's own pages.
-/
theorem copyOnWrite_refines
    {extMemK : Nat} {kernel : Kernel} {actions : List TaskAction}
    (reached : (pageMachine extMemK).Reachable kernel)
    (byUser : ∀ action ∈ actions, action.ByUser)
    (run : Traces TaskAction.Runs actions kernel.memory after) :
    (∀ task offset, Addressable task offset →
        Agrees (eagerly some actions kernel.memory.known task offset)
          (after.view task offset)) ∧
      ∀ writer address value last, 0 < writer →
        (TaskAction.write writer address value).Runs after last →
          ∀ task offset, Addressable task offset → task ≠ writer →
            eagerly some actions kernel.memory.known task offset ≠ some none →
              last.view task offset = after.view task offset := by
  have accounted : kernel.Accounted extMemK :=
    reached.invariant (fun _ => initial_accounted)
      (preserves_accounted extMemK)
  have initially :
      Refines (mainMemoryStart extMemK / 4096)
        (memoryEnd extMemK / 4096) kernel.held kernel.memory
        kernel.memory.known :=
    ⟨accounted, fun task offset _ => known_holds task offset⟩
  have finally' :
      Refines (mainMemoryStart extMemK / 4096)
        (memoryEnd extMemK / 4096) kernel.held after
        (eagerly some actions kernel.memory.known) :=
    run.simulation
      (fun _ _ _ _ allowed related stepped =>
        refines_action allowed related stepped)
      byUser initially
  refine ⟨?_, ?_⟩
  · intro task offset addressable
    exact (finally'.2 task offset addressable).1
  · intro writer address value last writerUser ran task offset
      addressable different _
    exact view_of_other finally'.1 writerUser ran addressable different

/-! ## The first 640 kB are shared with the kernel -/

/-- Eager copying as it stands, for the bytes of the kernel's pages too. -/
def CopiesEagerly (memory : Memory) : Prop :=
  ∀ actions after,
    Traces TaskAction.Runs actions memory after →
      ∀ task offset, Addressable task offset →
        after.view task offset = eagerly id actions memory.view task offset

/-- What the first fork leaves, and what a second fork or a store then does. -/
def firstForkTest (value : Int) (memory : Memory) : Bool :=
  value == 0 &&
    (List.range 16).all (fun dir =>
      memory.tableOf (32 + dir) == none) &&
    memory.view 1 128 == some 0#8 &&
    (copyPageTables (1 * slotSize) (2 * slotSize) 0xA0000
        memory).passes (fun value after =>
      value == 0 && after.view 1 128 == some 7#8) &&
    memory.view 1 0x5000 == some 0#8 &&
    memory.view 0 0x5000 != none &&
    (userWrite (0 * slotSize + 0x5000) 1#8 memory).passes
      (fun _ after => after.view 1 0x5000 == some 1#8)

set_option maxRecDepth 100000 in
theorem firstFork_passes :
    firstFork.passes firstForkTest = true := by
  decide +kernel

/-- `init`'s state, its first fork, and a store by task 0. -/
theorem init_forks :
    ∃ kernel, (pageMachine 15360).Reachable kernel ∧
      (∃ after,
        Traces TaskAction.Runs [.fork 1 2 0xA0000] kernel.memory after ∧
          kernel.memory.view 1 128 = some 0#8 ∧
          after.view 1 128 = some 7#8) ∧
      ∃ after,
        (TaskAction.write 0 0x5000 1#8).Runs kernel.memory after ∧
          kernel.memory.view 1 0x5000 = some 0#8 ∧
          after.view 1 0x5000 = some 1#8 := by
  obtain ⟨value, memory, forked, passed⟩ :=
    Outcome.passes_iff.mp firstFork_passes
  unfold firstForkTest at passed
  simp only [Bool.and_eq_true, beq_iff_eq, List.all_eq_true,
    List.mem_range, bne_iff_ne, Outcome.passes_iff] at passed
  obtain ⟨⟨⟨⟨⟨⟨_, empty⟩, byte⟩, ⟨_, after, copied, copyZero,
    changed⟩⟩, clear⟩, isPresent⟩, ⟨_, stored, written, seen⟩⟩ := passed
  rw [copyZero] at copied
  have noTable : ∀ dir, InSlot 2 dir → memory.tableOf dir = none := by
    rintro dir ⟨lower, upper⟩
    have nothing := empty (dir - 32) (by omega)
    rwa [Nat.add_sub_cancel' (by omega)] at nothing
  have forks :
      (TaskAction.fork 1 2 0xA0000).Runs memory after :=
    .fork (by decide) (by decide) (by decide) (by decide) (by decide)
      (by decide) noTable copied
  have writes :
      (TaskAction.write 0 0x5000 1#8).Runs memory stored :=
    .write (Or.inr ⟨rfl, by decide⟩) isPresent written
  exact ⟨⟨memory, swapper.held⟩, firstFork_reachable forked,
    ⟨after, .next forks (.done after), byte, changed⟩,
    ⟨stored, writes, clear, seen⟩⟩

/--
A fork shows in the page directory, which `init` maps at offset 0; and a store
by task 0 shows in `init`'s low pages.
-/
theorem not_copiesEagerly :
    ∃ kernel, (pageMachine 15360).Reachable kernel ∧
      ¬ CopiesEagerly kernel.memory ∧
      ∃ after value,
        (TaskAction.write 0 0x5000 value).Runs kernel.memory after ∧
          after.view 1 0x5000 ≠ kernel.memory.view 1 0x5000 := by
  obtain ⟨kernel, reached, ⟨after, run, byte, changed⟩,
    ⟨stored, writes, clear, seen⟩⟩ := init_forks
  refine ⟨kernel, reached, ?_, stored, 1#8, writes, ?_⟩
  · intro eager
    have same :=
      eager _ after run 1 128
        (Or.inl ⟨by decide, by decide, by decide⟩)
    have unchanged :
        eagerly id [.fork 1 2 0xA0000] kernel.memory.view 1 128 =
          kernel.memory.view 1 128 :=
      rfl
    rw [unchanged, byte, changed] at same
    exact absurd same (by decide)
  · rw [clear, seen]
    decide

/-- `init` stores a byte and forks, and the child stores another one. -/
def secondForkTest (value : Int) (memory : Memory) : Bool :=
  value == 0 &&
    memory.view 1 0x5000 != none &&
    (userWrite (1 * slotSize + 0x5000) 1#8 memory).passes fun _ first =>
      (List.range 16).all (fun dir =>
        first.tableOf (32 + dir) == none) &&
      (copyPageTables (1 * slotSize) (2 * slotSize) 0xA0000 first).passes
        fun value second =>
          value == 0 && second.view 2 0x5000 != none &&
          (userWrite (2 * slotSize + 0x5000) 2#8 second).passes
            fun _ _ => true

set_option maxRecDepth 100000 in
theorem secondFork_passes :
    firstFork.passes secondForkTest = true := by
  decide +kernel

/-- The parent's byte and the child's are apart. -/
theorem copyOnWrite_refines_first :
    ∃ (kernel : Kernel) (after : Memory),
      Traces TaskAction.Runs
          [.write 1 0x5000 1#8, .fork 1 2 0xA0000, .write 2 0x5000 2#8]
          kernel.memory after ∧
        after.view 1 0x5000 = some 1#8 ∧ after.view 2 0x5000 = some 2#8 := by
  obtain ⟨value, memory, forked, passed⟩ :=
    Outcome.passes_iff.mp secondFork_passes
  unfold secondForkTest at passed
  simp only [Bool.and_eq_true, beq_iff_eq, List.all_eq_true,
    List.mem_range, bne_iff_ne, Outcome.passes_iff] at passed
  obtain ⟨⟨_, parentHas⟩, _, first, stored, empty, _, second, copied,
    ⟨copyZero, childHas⟩, _, after, last, _⟩ := passed
  rw [copyZero] at copied
  have noTable : ∀ dir, InSlot 2 dir → first.tableOf dir = none := by
    rintro dir ⟨lower, upper⟩
    have nothing := empty (dir - 32) (by omega)
    rwa [Nat.add_sub_cancel' (by omega)] at nothing
  have run :
      Traces TaskAction.Runs
        [.write 1 0x5000 1#8, .fork 1 2 0xA0000, .write 2 0x5000 2#8]
        memory after :=
    .next
      (.write (Or.inl ⟨by decide, by decide, by decide⟩) parentHas stored)
      (.next
        (.fork (by decide) (by decide) (by decide) (by decide) (by decide)
          (by decide) noTable copied)
        (.next
          (.write (Or.inl ⟨by decide, by decide, by decide⟩) childHas last)
          (.done after)))
  have byUser :
      ∀ action ∈
        [TaskAction.write 1 0x5000 1#8, .fork 1 2 0xA0000, .write 2 0x5000 2#8],
        action.ByUser := by
    intro action member
    simp only [List.mem_cons, List.not_mem_nil, or_false] at member
    rcases member with rfl | rfl | rfl
    · exact Nat.one_pos
    · trivial
    · exact Nat.two_pos
  have agrees :=
    (copyOnWrite_refines (firstFork_reachable forked) byUser run).1
  exact ⟨⟨memory, swapper.held⟩, after, run,
    agrees 1 0x5000 (Or.inl ⟨by decide, by decide, by decide⟩),
    agrees 2 0x5000 (Or.inl ⟨by decide, by decide, by decide⟩)⟩

end Memory

end HitOs
