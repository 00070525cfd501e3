import HitOs.OtherTasks
import HitOs.PageSharing

namespace HitOs

/-!
# Sharing the pages of an executable

`try_to_share` takes a clean entry of another task for an unmodified page of the
executable.  `un_wp_page` gives its copy of a modified page a clean entry,
`do_execve` sets the executable before it frees the pages of the program before,
and a store by the kernel ignores the write bit; in runs that avoid the three,
the page that is shared is the page of the file.
-/

namespace Memory

open Routine

/-! ## The entries of a shared page -/

/-- The entry that is shared keeps its page and dirty bit. -/
theorem Shared.source_place
    {low high : Nat} {held : Nat → Nat} {source target : Nat × Nat}
    {entry : Word} {memory after : Memory}
    (shared : Shared low high held source target entry memory after) :
    after.placeAt source = memory.placeAt source := by
  rw [placeAt_of_entry shared.sourceEntry, placeAt_of_entry shared.mapped]
  simp

theorem Shared.target_place
    {low high : Nat} {held : Nat → Nat} {source target : Nat × Nat}
    {entry : Word} {memory after : Memory}
    (shared : Shared low high held source target entry memory after) :
    after.placeAt target = memory.placeAt source := by
  rw [placeAt_of_entry shared.targetEntry, placeAt_of_entry shared.mapped]
  simp

/-! ## States and steps -/

/-- The memory manager and the executables that the tasks run. -/
structure Running where
  kernel : Kernel
  /-- `executable` of each task, by the number of the file. -/
  executable : Nat → Option Nat
  /--
  History: the entries that `un_wp_page` made of dirty ones, those that a task
  had when its executable changed, and copies of them, through which nothing has
  been stored since.
  -/
  lost : Set (Nat × Nat)

/-- What a task does to its pages. -/
inductive ShareAction where
  /-- `get_free_page`, in `do_no_page` before the file is read. -/
  | take
  /-- `do_no_page` outside the initialised data. -/
  | empty (task offset : Nat)
  /-- The end of `do_no_page`, with the page obtained before. -/
  | load (task tmp page : Nat)
  | fork (segments : Segments) (parent child : Nat)
  /-- `write_verify`, before a system call that may sleep. -/
  | verify (task offset : Nat)
  /-- `do_wp_page` -/
  | fault (task offset : Nat)
  /-- A store by the program, or by the kernel for it. -/
  | store (task offset : Nat) (value : Byte)
  /-- `try_to_share`, one iteration of `share_page`. -/
  | share (task current tmp : Nat)
  /-- `current->executable`, set by `do_execve` and `do_exit`. -/
  | exec (task : Nat) (executable : Option Nat)
  /-- `free_page_tables` of both: `do_execve` may sleep before it. -/
  | free (task size : Nat)

namespace Running

variable (programs : Nat → Executable)

/-- The executable that a task runs. -/
def program (running : Running) (task : Nat) : Option Executable :=
  (running.executable task).map programs

/-- A dirty entry has become a clean one. -/
def lostBy
    (slot : Nat × Nat)
    (memory after : Memory)
    (lost : Set (Nat × Nat)) : Set (Nat × Nat) :=
  {other | other ∈ lost ∨
    other = slot ∧
      (∃ page, memory.placeAt slot = some (page, true)) ∧
      ∃ page, after.placeAt slot = some (page, false)}

/-- One action; a routine that ends without panic has ended in `after`. -/
inductive Does (running : Running) : ShareAction → Running → Prop where
  | take
      {page : Nat} {after : Memory}
      (taken : getFreePage running.kernel.memory = .ret page after) :
      Does running .take
        { running with
          kernel :=
            if page = 0 then { running.kernel with memory := after }
            else Kernel.keep page 1 { running.kernel with memory := after } }
  | empty
      {task offset : Nat} {after : Memory}
      (user : 0 < task) (range : task < 64) (inSlot : offset < slotSize)
      (outside :
        ∀ program, running.program programs task = some program →
          ¬ program.Covers offset)
      (absent :
        running.kernel.memory.entryAt (slotOf task offset) = none)
      (ends :
        (getEmptyPage (task * slotSize + offset)
          running.kernel.memory).EndsIn after) :
      Does running (.empty task offset)
        { running with
          kernel := { running.kernel with memory := after }
          lost := running.lost \ {slotOf task offset} }
  | load
      {task tmp page : Nat} {after : Memory} {program : Executable}
      (user : 0 < task) (range : task < 64) (inSlot : tmp < slotSize)
      (aligned : tmp % 4096 = 0)
      (runs : running.program programs task = some program)
      (covered : program.Covers tmp)
      (isHeld : 0 < running.kernel.held page)
      (absent : running.kernel.memory.entryAt (slotOf task tmp) = none)
      (ends :
        (finishNoPage program task tmp page
          running.kernel.memory).EndsIn after) :
      Does running (.load task tmp page)
        { running with
          kernel :=
            Kernel.keep page 0 { running.kernel with memory := after }
          lost := running.lost \ {slotOf task tmp} }
  | fork
      {segments : Segments} {parent child : Nat} {after : Memory}
      (enabled :
        (PageCall.copyMem segments parent child).Enabled running.kernel)
      (ends :
        (copyMem segments child running.kernel.memory).EndsIn after) :
      Does running (.fork segments parent child)
        { kernel := { running.kernel with memory := after }
          executable :=
            Function.update running.executable child
              (running.executable parent)
          lost :=
            {slot | if InSlot child slot.1 then
                (slot.1 - child * 16 + parent * 16, slot.2) ∈ running.lost
              else slot ∈ running.lost} }
  | verify
      {task offset : Nat} {after : Memory}
      (user : 0 < task) (range : task < 64) (inSlot : offset < slotSize)
      (ends :
        (writeVerify (task * slotSize + offset)
          running.kernel.memory).EndsIn after) :
      Does running (.verify task offset)
        { running with
          kernel := { running.kernel with memory := after }
          lost :=
            lostBy (slotOf task offset) running.kernel.memory after
              running.lost }
  | fault
      {task offset : Nat} {after : Memory} {entry : Word}
      (user : 0 < task) (range : task < 64) (inSlot : offset < slotSize)
      (mapped :
        running.kernel.memory.entryAt (slotOf task offset) = some entry)
      (readOnly : entry.writable = false)
      (ends :
        (doWpPage (task * slotSize + offset)
          running.kernel.memory).EndsIn after) :
      Does running (.fault task offset)
        { running with
          kernel := { running.kernel with memory := after }
          lost :=
            lostBy (slotOf task offset) running.kernel.memory after
              running.lost }
  | store
      {task offset : Nat} {value : Byte} {after : Memory} {entry : Word}
      (user : 0 < task) (range : task < 64) (inSlot : offset < slotSize)
      (mapped :
        running.kernel.memory.entryAt (slotOf task offset) = some entry)
      (ends :
        (storeByte (task * slotSize + offset) value
          running.kernel.memory).EndsIn after) :
      Does running (.store task offset value)
        { running with
          kernel := { running.kernel with memory := after }
          lost := running.lost \ {slotOf task offset} }
  | share
      {task current tmp file : Nat} {after : Memory}
      (user : 0 < task) (range : task < 64)
      (currentUser : 0 < current) (currentRange : current < 64)
      (different : task ≠ current) (inSlot : tmp < slotSize)
      (runs : running.executable task = some file)
      (sameFile : running.executable current = some file)
      (covered : (programs file).Covers tmp)
      (absent :
        running.kernel.memory.entryAt (slotOf current tmp) = none)
      (ends :
        (tryToShare tmp (task * slotSize) (current * slotSize)
          running.kernel.memory).EndsIn after) :
      Does running (.share task current tmp)
        { running with
          kernel := { running.kernel with memory := after }
          lost :=
            {slot | if slot = slotOf current tmp then
                slotOf task tmp ∈ running.lost
              else slot ∈ running.lost} }
  | exec
      {task : Nat} {executable : Option Nat}
      (user : 0 < task) :
      Does running (.exec task executable)
        { running with
          executable := Function.update running.executable task executable
          lost := running.lost ∪ {slot | InSlot task slot.1} }
  | free
      {task size : Nat} {after : Memory}
      (user : 0 < task) (range : task < 64) (inSlot : size ≤ slotSize)
      (withinLimit :
        ∀ dir, InSlot task dir →
          running.kernel.memory.tableOf dir ≠ none →
            dir < task * 16 + (size + 0x3fffff) / 0x400000)
      (ends :
        (freePageTables (task * slotSize) size
          running.kernel.memory).EndsIn after) :
      Does running (.free task size)
        { running with
          kernel := { running.kernel with memory := after }
          lost := {slot | ¬ InSlot task slot.1 ∧ slot ∈ running.lost} }

/--
What keeps clean entries honest: no entry whose dirty bit was lost and none of
the program before is shared, and no store goes through an entry without the
write bit, as the kernel's can.
-/
def Careful (running : Running) : ShareAction → Prop
  | .share task _ tmp => slotOf task tmp ∉ running.lost
  | .store task offset _ =>
    ∃ entry,
      running.kernel.memory.entryAt (slotOf task offset) = some entry ∧
        entry.writable = true
  | _ => True

/-- The start: no task, no page. -/
def Starts (extMemK : Nat) (running : Running) : Prop :=
  (pageMachine extMemK).initial running.kernel ∧
    (∀ task, running.executable task = none) ∧ running.lost = ∅

/-! ## The invariant -/

/-- A clean entry of a page of the file, at one address. -/
def GoodAt
    (memory : Memory)
    (lost : Set (Nat × Nat))
    (program : Option Executable)
    (task offset : Nat) : Prop :=
  ∀ file page dirty,
    program = some file → file.Covers offset →
    memory.placeAt (slotOf task offset) = some (page, dirty) →
    dirty = false → slotOf task offset ∉ lost →
      lowMemPage ≤ page ∧
        pageByte (memory.ram page) (offset % 4096) = file.loaded offset

/-- The invariant of careful runs. -/
structure Faithful (extMemK : Nat) (running : Running) : Prop where
  accounted :
    running.kernel.Accounted extMemK
  swapper :
    running.executable 0 = none
  cleared :
    ∀ page, 0 < running.kernel.held page →
      running.kernel.memory.ram page = fun _ => 0#32
  pages :
    ∀ task offset, 0 < task → task < 64 → offset < slotSize →
      GoodAt running.kernel.memory running.lost
        (running.program programs task) task offset

variable {programs} {extMemK : Nat} {running next : Running}

/-- A page stays good when its entry and its contents stay as they are. -/
theorem GoodAt.transfer
    {memory after : Memory} {lost lost' : Set (Nat × Nat)}
    {program : Option Executable} {source task offset : Nat}
    (good : GoodAt memory lost program source offset)
    (samePlace :
      after.placeAt (slotOf task offset) = memory.placeAt (slotOf source offset))
    (sameContents :
      ∀ page, memory.frameAt (slotOf source offset) = some page →
        lowMemPage ≤ page → after.ram page = memory.ram page)
    (stillLost :
      slotOf task offset ∉ lost' → slotOf source offset ∉ lost) :
    GoodAt after lost' program task offset := by
  intro file page dirty runs covered place clean notLost
  rw [samePlace] at place
  obtain ⟨main, contents⟩ :=
    good file page dirty runs covered place clean (stillLost notLost)
  refine ⟨main, ?_⟩
  have maps : memory.frameAt (slotOf source offset) = some page := by
    rw [frameAt_eq_place, place]
    rfl
  rw [sameContents page maps main]
  exact contents

/-- Nothing is claimed about an address without a page. -/
theorem GoodAt.of_absent
    {memory : Memory} {lost : Set (Nat × Nat)}
    {program : Option Executable} {task offset : Nat}
    (absent : memory.entryAt (slotOf task offset) = none) :
    GoodAt memory lost program task offset := by
  intro file page dirty _ _ place _ _
  rw [placeAt, absent] at place
  cases place

/-- Nothing is claimed about a page outside the initialised data. -/
theorem GoodAt.of_outside
    {memory : Memory} {lost : Set (Nat × Nat)}
    {program : Option Executable} {task offset : Nat}
    (outside :
      ∀ file, program = some file → ¬ file.Covers offset) :
    GoodAt memory lost program task offset := by
  intro file page dirty runs covered _ _ _
  exact absurd covered (outside file runs)

theorem covers_congr
    {program : Executable} {offset other : Nat}
    (samePage : offset / 4096 = other / 4096) :
    program.Covers offset ↔ program.Covers other := by
  unfold Executable.Covers
  rw [samePage]

theorem main_ne_zero
    {page : Nat}
    (main : lowMemPage ≤ page) :
    page ≠ 0 := by
  unfold lowMemPage at main
  omega

/--
The common case: one slot changes in a way of its own, every other entry keeps
its page and dirty bit, and kept pages keep their contents.
-/
theorem Faithful.step
    (faithful : running.Faithful programs extMemK)
    (slot : Nat × Nat)
    (sameExecutable : next.executable = running.executable)
    (accounted : next.kernel.Accounted extMemK)
    (cleared :
      ∀ page, 0 < next.kernel.held page → next.kernel.memory.ram page = fun _ => 0#32)
    (places :
      ∀ other ∈ userEntries, other ≠ slot →
        next.kernel.memory.placeAt other = running.kernel.memory.placeAt other)
    (contents :
      ∀ other ∈ userEntries, other ≠ slot → ∀ page,
        running.kernel.memory.frameAt other = some page →
        lowMemPage ≤ page →
          next.kernel.memory.ram page = running.kernel.memory.ram page)
    (lost :
      ∀ other, other ≠ slot → other ∉ next.lost → other ∉ running.lost)
    (self :
      ∀ task offset, 0 < task → task < 64 → offset < slotSize →
        slotOf task offset = slot →
          GoodAt next.kernel.memory next.lost
            (running.program programs task) task offset) :
    next.Faithful programs extMemK := by
  refine ⟨accounted, ?_, cleared, ?_⟩
  · rw [sameExecutable]
    exact faithful.swapper
  intro task offset user range inSlot
  have sameProgram :
      next.program programs task = running.program programs task := by
    unfold program
    rw [sameExecutable]
  rw [sameProgram]
  by_cases same : slotOf task offset = slot
  · exact self task offset user range inSlot same
  · have member := slotOf_mem user range inSlot
    exact (faithful.pages task offset user range inSlot).transfer
      (places _ member same) (contents _ member same) (lost _ same)

/-! ## What each action preserves -/

/-- A user address does not lie in the first slot. -/
theorem slotOf_ne_kernel
    {task offset : Nat}
    (user : 0 < task) :
    slotOf task offset ≠ (0, 0) := by
  intro same
  have dir := congrArg Prod.fst same
  unfold slotOf at dir
  simp only at dir
  omega

/-- Held pages stay cleared while kept pages keep their contents. -/
theorem Faithful.still_cleared
    (faithful : running.Faithful programs extMemK)
    {after : Memory}
    (data : KeepsData running.kernel.held running.kernel.memory after) :
    ∀ page, 0 < running.kernel.held page →
      after.ram page = fun _ => 0#32 := by
  intro page isHeld
  have inMain :=
    Memory.Accounted.heldMain faithful.accounted page isHeld
  rw [data page (Accounted.ne_zero_of_main faithful.accounted inMain)
    (Or.inr (Or.inr isHeld))]
  exact faithful.cleared page isHeld

/-- Mapped pages keep their contents while kept pages do. -/
theorem contents_of_data
    {held : Nat → Nat} {memory after : Memory}
    (data : KeepsData held memory after)
    {slot : Nat × Nat}
    (member : slot ∈ userEntries)
    {page : Nat}
    (maps : memory.frameAt slot = some page)
    (main : lowMemPage ≤ page) :
    after.ram page = memory.ram page :=
  data page (main_ne_zero main) (kept_of_maps member maps)

theorem faithful_take
    {page : Nat} {after : Memory}
    (faithful : running.Faithful programs extMemK)
    (taken : getFreePage running.kernel.memory = .ret page after) :
    Faithful programs extMemK
      { running with
        kernel :=
          if page = 0 then { running.kernel with memory := after }
          else Kernel.keep page 1 { running.kernel with memory := after } } := by
  have accounted := faithful.accounted
  have takes :
      getFreePage.Satisfies running.kernel.memory _ (fun _ => True) :=
    satisfies_getFreePage accounted
  rcases takes.of_ret taken with ⟨rfl, rfl, _⟩ | ⟨inMain, free, rfl⟩
  · rw [if_pos rfl]
    exact faithful
  · have notZero := Accounted.ne_zero_of_main accounted inMain
    rw [if_neg notZero]
    have refs := Accounted.free_refs accounted inMain free
    refine faithful.step (0, 0) rfl
      (Accounted.taken_accounted accounted inMain free) ?_ ?_ ?_
      (fun _ _ notLost => notLost)
      (fun _ _ user _ _ same => absurd same (slotOf_ne_kernel user))
    · intro other isHeld
      change (Memory.taken page running.kernel.memory).ram other = _
      rw [Accounted.ram_taken]
      split
      · rfl
      · rename_i different
        apply faithful.cleared
        change 0 < Function.update running.kernel.held page 1 other at isHeld
        rwa [Function.update_of_ne different] at isHeld
    · intro other member _
      exact placeAt_congr
        (Accounted.entryAt_taken accounted inMain free member)
    · intro other member _ mapped maps _
      change (Memory.taken page running.kernel.memory).ram mapped = _
      rw [Accounted.ram_taken, if_neg]
      rintro rfl
      exact Accounted.frameAt_ne_of_refs refs.1 member maps

/-- An action that changed no entry and kept all data. -/
theorem Faithful.unchanged
    (faithful : running.Faithful programs extMemK)
    {held : Nat → Nat} {after : Memory} {lost : Set (Nat × Nat)}
    (slot : Nat × Nat)
    (accounted :
      Kernel.Accounted extMemK ⟨after, running.kernel.held⟩)
    (entries :
      ∀ other ∈ userEntries, after.entryAt other = running.kernel.memory.entryAt other)
    (data : KeepsData held running.kernel.memory after)
    (cleared :
      ∀ page, 0 < running.kernel.held page → after.ram page = fun _ => 0#32)
    (stillLost :
      ∀ other, other ≠ slot → other ∉ lost → other ∉ running.lost)
    (self :
      ∀ task offset, 0 < task → task < 64 → offset < slotSize →
        slotOf task offset = slot →
          GoodAt after lost (running.program programs task) task offset) :
    Faithful programs extMemK
      { running with
        kernel := { running.kernel with memory := after }
        lost := lost } :=
  faithful.step slot rfl accounted cleared
    (fun other member _ => placeAt_congr (entries other member))
    (fun _ member _ _ maps main => contents_of_data data member maps main)
    stillLost self

theorem faithful_empty
    {task offset : Nat} {after : Memory}
    (faithful : running.Faithful programs extMemK)
    (user : 0 < task)
    (range : task < 64)
    (inSlot : offset < slotSize)
    (outside :
      ∀ program, running.program programs task = some program → ¬ program.Covers offset)
    (absent :
      running.kernel.memory.entryAt (slotOf task offset) = none)
    (ends :
      (getEmptyPage (task * slotSize + offset)
        running.kernel.memory).EndsIn after) :
    Faithful programs extMemK
      { running with
        kernel := { running.kernel with memory := after }
        lost := running.lost \ {slotOf task offset} } := by
  have accounted := faithful.accounted
  have sameSlot := slotOf_address range inSlot
  have member := slotOf_mem user range inSlot
  have self (other position : Nat)
      (_ : 0 < other) (_ : other < 64) (atSlot : position < slotSize)
      (same : slotOf other position = slotOf task offset) :
      GoodAt after (running.lost \ {slotOf task offset})
        (running.program programs other) other position := by
    have parts := (slotOf_eq_iff atSlot inSlot).mp same
    apply GoodAt.of_outside
    intro file runs covered
    rw [parts.1] at runs
    exact outside file runs ((covers_congr parts.2).mp covered)
  have stillLost (other : Nat × Nat)
      (different : other ≠ slotOf task offset)
      (notLost : other ∉ running.lost \ {slotOf task offset}) :
      other ∉ running.lost :=
    fun isLost => notLost ⟨isLost, different⟩
  have places :=
    satisfies_getEmptyPage accounted (sameSlot ▸ member)
      (sameSlot ▸ absent)
  rcases places.of_ends ends with
    ⟨_, page, inMain, _, placed, free, notHeld⟩ |
      ⟨emptied, entries, data, _⟩
  · have restored := placed.accounted
    rw [Accounted.held_restored notHeld] at restored
    have others := placed.others
    rw [sameSlot] at others
    refine faithful.step (slotOf task offset) rfl restored ?_ ?_ ?_
      stillLost self
    · intro other isHeld
      have different : other ≠ page := by
        rintro rfl
        exact absurd notHeld (Nat.ne_of_gt isHeld)
      have main :=
        Memory.Accounted.heldMain accounted other isHeld
      have kept :
          Kept (Function.update running.kernel.held page 1)
            (taken page running.kernel.memory) other := by
        refine Or.inr (Or.inr ?_)
        rwa [Function.update_of_ne different]
      rw [placed.data other
          (Accounted.ne_zero_of_main accounted main) kept,
        Accounted.ram_taken, if_neg different]
      exact faithful.cleared other isHeld
    · intro other otherMember different
      apply placeAt_congr
      rw [others other otherMember different,
        Accounted.entryAt_taken accounted inMain free otherMember]
    · intro other otherMember _ mapped maps main
      have stillMaps :
          (taken page running.kernel.memory).frameAt other =
            some mapped := by
        rw [frameAt_congr
          (Accounted.entryAt_taken accounted inMain free otherMember)]
        exact maps
      have different : mapped ≠ page := by
        rintro rfl
        exact Accounted.frameAt_ne_of_refs
          (Accounted.free_refs accounted inMain free).1 otherMember maps
      rw [contents_of_data placed.data otherMember stillMaps main,
        Accounted.ram_taken, if_neg different]
  · exact faithful.unchanged (slotOf task offset) emptied entries data
      (faithful.still_cleared data) stillLost self

theorem faithful_load
    {task tmp page : Nat} {after : Memory} {program : Executable}
    (faithful : running.Faithful programs extMemK)
    (user : 0 < task)
    (range : task < 64)
    (inSlot : tmp < slotSize)
    (aligned : tmp % 4096 = 0)
    (runs : running.program programs task = some program)
    (isHeld : 0 < running.kernel.held page)
    (absent : running.kernel.memory.entryAt (slotOf task tmp) = none)
    (ends :
      (finishNoPage program task tmp page
        running.kernel.memory).EndsIn after) :
    Faithful programs extMemK
      { running with
        kernel := Kernel.keep page 0 { running.kernel with memory := after }
        lost := running.lost \ {slotOf task tmp} } := by
  have accounted := faithful.accounted
  have stillLost (other : Nat × Nat)
      (different : other ≠ slotOf task tmp)
      (notLost : other ∉ running.lost \ {slotOf task tmp}) :
      other ∉ running.lost :=
    fun isLost => notLost ⟨isLost, different⟩
  have heldRefs := Accounted.held_refs accounted isHeld
  have notPage {other : Nat × Nat} {mapped : Nat}
      (otherMember : other ∈ userEntries)
      (maps : running.kernel.memory.frameAt other = some mapped) :
      mapped ≠ page := by
    rintro rfl
    exact Accounted.frameAt_ne_of_refs heldRefs.1 otherMember maps
  have stillHeld {other : Nat}
      (otherHeld : 0 < Function.update running.kernel.held page 0 other) :
      other ≠ page ∧ 0 < running.kernel.held other := by
    rw [Function.update_apply] at otherHeld
    split at otherHeld
    · exact absurd otherHeld (Nat.lt_irrefl 0)
    · exact ⟨‹_›, otherHeld⟩
  have loads :
      (finishNoPage program task tmp page).Satisfies
        running.kernel.memory _ _ :=
    satisfies_finishNoPage accounted user range inSlot aligned isHeld
      (faithful.cleared page isHeld) absent
  rcases loads.of_ends ends with ⟨_, loaded⟩ | notLoaded
  · refine faithful.step (slotOf task tmp) rfl loaded.accounted ?_ ?_ ?_
      stillLost ?_
    · intro other otherHeld
      obtain ⟨different, otherHeld⟩ := stillHeld otherHeld
      have main :=
        Memory.Accounted.heldMain accounted other otherHeld
      change after.ram other = _
      rw [loaded.ram other
        (Accounted.ne_zero_of_main accounted main) different
        (Or.inr (Or.inr otherHeld))]
      exact faithful.cleared other otherHeld
    · intro other otherMember different
      exact placeAt_congr (loaded.others other otherMember different)
    · intro other otherMember _ mapped maps main
      exact loaded.ram mapped (main_ne_zero main)
        (notPage otherMember maps) (kept_of_maps otherMember maps)
    · intro other offsetAt _ _ atSlot same file mapped dirty otherRuns _ place
        _ _
      have parts := (slotOf_eq_iff atSlot inSlot).mp same
      have frame :=
        Word.frame_userEntry
          (Memory.Accounted.page_lt accounted loaded.main)
      change after.placeAt (slotOf other offsetAt) = some (mapped, dirty) at place
      rw [same, placeAt_of_entry loaded.self, frame] at place
      obtain ⟨rfl, _⟩ := Prod.mk.inj (Option.some.inj place)
      refine ⟨Accounted.above_low accounted loaded.main, ?_⟩
      rw [parts.1, runs] at otherRuns
      cases otherRuns
      have position : tmp + offsetAt % 4096 = offsetAt := by
        omega
      change pageByte (after.ram page) _ = _
      rw [loaded.contents, position]
  · refine faithful.step (slotOf task tmp) rfl notLoaded.accounted ?_ ?_ ?_
      stillLost ?_
    · intro other otherHeld
      obtain ⟨different, otherHeld⟩ := stillHeld otherHeld
      change after.ram other = _
      rw [notLoaded.ram other different]
      exact faithful.cleared other otherHeld
    · intro other otherMember _
      exact placeAt_congr (notLoaded.entries other otherMember)
    · intro other otherMember _ mapped maps _
      exact notLoaded.ram mapped (notPage otherMember maps)
    · intro other offsetAt _ _ atSlot same
      apply GoodAt.of_absent
      have parts := (slotOf_eq_iff atSlot inSlot).mp same
      change after.entryAt (slotOf other offsetAt) = none
      rw [same, notLoaded.entries _ (slotOf_mem user range inSlot)]
      exact absent

/-- The slots of tasks are apart. -/
theorem inSlot_slotOf
    {task other offset : Nat}
    (inSlot : offset < slotSize) :
    InSlot other (slotOf task offset).1 ↔ other = task := by
  unfold slotSize at inSlot
  unfold InSlot slotOf dirIndex
  dsimp only
  omega

/-- A child's entry is missing or has its parent's page and dirty bit. -/
theorem child_place
    {low high parent child size : Nat} {held : Nat → Nat} {value : Int}
    {memory after : Memory}
    (parentUser : 0 < parent)
    (empty : ∀ dir, InSlot child dir → memory.tableOf dir = none)
    (copied : MemCopied low high held parent child size value memory after)
    {offset : Nat}
    (inSlot : offset < slotSize) :
    after.entryAt (slotOf child offset) = none ∨
      after.placeAt (slotOf child offset) =
        memory.placeAt (slotOf parent offset) := by
  have indexRange : tableIndex offset < 1024 := by
    unfold tableIndex
    omega
  have inChild : InSlot child (slotOf child offset).1 := (inSlot_slotOf inSlot).mpr rfl
  rcases copied.result with ⟨_, dirs⟩ | ⟨_, noTables⟩
  · rw [copiedEntries, if_neg (Nat.ne_of_gt parentUser)] at dirs
    by_cases inRange : dirIndex offset < (size + 0x3fffff) / 0x400000
    · right
      have entry := dirs.copied _ _ inRange indexRange
      rw [if_pos indexRange] at entry
      unfold placeAt slotOf
      rw [entry, Option.map_map]
      congr 1
      funext word
      simp
    · left
      apply entryAt_of_no_table
      rw [dirs.tables _ (by omega)]
      exact empty _ inChild
  · exact Or.inl (entryAt_of_no_table (noTables _ inChild))

variable (faithful : running.Faithful programs extMemK)

include faithful

theorem faithful_fork
    {segments : Segments} {parent child : Nat} {after : Memory}
    (enabled :
      (PageCall.copyMem segments parent child).Enabled running.kernel)
    (ends :
      (copyMem segments child running.kernel.memory).EndsIn after) :
    Faithful programs extMemK
      { kernel := { running.kernel with memory := after }
        executable :=
          Function.update running.executable child
            (running.executable parent)
        lost :=
          {slot | if InSlot child slot.1 then
              (slot.1 - child * 16 + parent * 16, slot.2) ∈ running.lost
            else slot ∈ running.lost} } := by
  have accounted := faithful.accounted
  have copyable := copyable_of_enabled enabled
  have childUser := copyable.notSwapper
  have parentRange := copyable.parentRange
  have copies :
      (copyMem segments child).Satisfies running.kernel.memory _
        (fun _ => False) :=
    satisfies_copyMem accounted copyable
  obtain ⟨value, copied⟩ := (copies.of_ends ends).resolve_right id
  refine ⟨copied.accounted, ?_, faithful.still_cleared copied.data, ?_⟩
  · change Function.update running.executable child _ 0 = none
    rw [Function.update_of_ne (Nat.ne_of_lt childUser)]
    exact faithful.swapper
  intro task offset user range inSlot
  change GoodAt after _
    ((Function.update running.executable child
      (running.executable parent) task).map programs) task offset
  by_cases isChild : task = child
  · subst isChild
    rw [Function.update_self]
    rcases Nat.eq_zero_or_pos parent with rfl | parentUser
    · apply GoodAt.of_outside
      intro file runs
      rw [faithful.swapper] at runs
      cases runs
    · rcases child_place parentUser copyable.empty copied inSlot with
        absent | samePlace
      · exact GoodAt.of_absent absent
      · have member := slotOf_mem parentUser parentRange inSlot
        have inChild : InSlot task (slotOf task offset).1 :=
          (inSlot_slotOf inSlot).mpr rfl
        have parentSlot :
            ((slotOf task offset).1 - task * 16 + parent * 16,
              (slotOf task offset).2) = slotOf parent offset := by
          unfold slotOf
          simp only [Prod.mk.injEq, and_true]
          omega
        refine (faithful.pages parent offset parentUser parentRange
          inSlot).transfer samePlace
          (fun _ maps main => contents_of_data copied.data member maps main)
          ?_
        intro notLost
        simp only [Set.mem_ofPred_eq, if_pos inChild, parentSlot] at notLost
        exact notLost
  · rw [Function.update_of_ne isChild]
    have member := slotOf_mem user range inSlot
    have outside : ¬ InSlot child (slotOf task offset).1 :=
      fun inside => isChild ((inSlot_slotOf inSlot).mp inside).symm
    refine (faithful.pages task offset user range inSlot).transfer
      (copied.places _ member outside)
      (fun _ maps main => contents_of_data copied.data member maps main)
      ?_
    intro notLost
    simp only [Set.mem_ofPred_eq, if_neg outside] at notLost
    exact notLost

theorem faithful_unshared
    {task offset : Nat} {old new : Word} {after : Memory}
    (mapped : running.kernel.memory.entryAt (slotOf task offset) = some old)
    (unshared :
      Unshared (mainMemoryStart extMemK / 4096) (memoryEnd extMemK / 4096)
        running.kernel.held (slotOf task offset).1 (slotOf task offset).2
        old new running.kernel.memory after) :
    Faithful programs extMemK
      { running with
        kernel := { running.kernel with memory := after }
        lost :=
          lostBy (slotOf task offset) running.kernel.memory after
            running.lost } := by
  refine faithful.step (slotOf task offset) rfl unshared.accounted
    (faithful.still_cleared unshared.data)
    (fun other member different =>
      placeAt_congr (unshared.others other member different))
    (fun _ member _ _ maps main =>
      contents_of_data unshared.data member maps main)
    (fun _ _ notLost isLost => notLost (Or.inl isLost)) ?_
  intro other position user range atSlot same file page dirty runs covered place
    clean notLost
  change after.placeAt (slotOf other position) = some (page, dirty) at place
  have oldPlace := placeAt_of_entry mapped
  have newPlace := placeAt_of_entry unshared.self
  rw [same, newPlace] at place
  obtain ⟨rfl, rfl⟩ := Prod.mk.inj (Option.some.inj place)
  -- a copy of a modified page has been recorded as lost
  have wasClean : old.dirty = false := by
    by_contra wasDirty
    rw [Bool.not_eq_false] at wasDirty
    apply notLost
    refine Or.inr ⟨same, ⟨old.frame, ?_⟩, ⟨new.frame, ?_⟩⟩
    · rw [oldPlace, wasDirty]
    · rw [newPlace, clean]
  obtain ⟨_, oldContents⟩ :=
    faithful.pages other position user range atSlot file old.frame old.dirty
      runs covered (by rw [same]; exact oldPlace) wasClean
      fun isLost => notLost (Or.inl isLost)
  have main : lowMemPage ≤ new.frame := by
    rcases unshared.shape with ⟨rfl, aboveLow, _⟩ | ⟨_, inMain, _⟩
    · rw [Word.frame_writeEnable]
      exact aboveLow
    · exact Accounted.above_low faithful.accounted inMain
  refine ⟨main, ?_⟩
  change pageByte (after.ram new.frame) _ = _
  rw [unshared.contents]
  exact oldContents

/-- Nothing has happened to the pages. -/
theorem Faithful.same
    {lost : Set (Nat × Nat)}
    (stillLost : ∀ slot, slot ∉ lost → slot ∉ running.lost) :
    Faithful programs extMemK { running with lost := lost } :=
  ⟨faithful.accounted, faithful.swapper, faithful.cleared,
    fun task offset user range inSlot =>
      (faithful.pages task offset user range inSlot).transfer rfl
        (fun _ _ _ => rfl) (stillLost _)⟩

theorem faithful_verify
    {task offset : Nat} {after : Memory}
    (user : 0 < task)
    (range : task < 64)
    (inSlot : offset < slotSize)
    (ends :
      (writeVerify (task * slotSize + offset)
        running.kernel.memory).EndsIn after) :
    Faithful programs extMemK
      { running with
        kernel := { running.kernel with memory := after }
        lost :=
          lostBy (slotOf task offset) running.kernel.memory after
            running.lost } := by
  have sameSlot := slotOf_address range inSlot
  have member := slotOf_mem user range inSlot
  have verifies :
      (writeVerify (task * slotSize + offset)).Satisfies
        running.kernel.memory _ (fun after =>
          after = running.kernel.memory) :=
    satisfies_writeVerify faithful.accounted (sameSlot ▸ member) rfl
  rcases verifies.of_ends ends with ⟨_, verified⟩ | rfl
  · cases verified with
    | absent =>
      exact faithful.same fun _ notLost isLost => notLost (Or.inl isLost)
    | writable =>
      exact faithful.same fun _ notLost isLost => notLost (Or.inl isLost)
    | unshared old new mapped _ unshared =>
      exact faithful_unshared faithful (sameSlot ▸ mapped)
        (by rw [← sameSlot]; exact unshared)
  · exact faithful.same fun _ notLost isLost => notLost (Or.inl isLost)

theorem faithful_fault
    {task offset : Nat} {after : Memory} {entry : Word}
    (user : 0 < task)
    (range : task < 64)
    (inSlot : offset < slotSize)
    (mapped :
      running.kernel.memory.entryAt (slotOf task offset) = some entry)
    (ends :
      (doWpPage (task * slotSize + offset)
        running.kernel.memory).EndsIn after) :
    Faithful programs extMemK
      { running with
        kernel := { running.kernel with memory := after }
        lost :=
          lostBy (slotOf task offset) running.kernel.memory after
            running.lost } := by
  have sameSlot := slotOf_address range inSlot
  have member := slotOf_mem user range inSlot
  have unshares :
      (doWpPage (task * slotSize + offset)).Satisfies
        running.kernel.memory _ (fun after =>
          after = running.kernel.memory) :=
    satisfies_doWpPage faithful.accounted (sameSlot ▸ member)
      (sameSlot ▸ mapped) rfl
  rcases unshares.of_ends ends with ⟨_, new, unshared⟩ | rfl
  · exact faithful_unshared faithful mapped
      (by rw [← sameSlot]; exact unshared)
  · exact faithful.same fun _ notLost isLost => notLost (Or.inl isLost)

/-- A store through a writable entry reaches a page of one task. -/
theorem faithful_store
    {task offset : Nat} {value : Byte} {after : Memory}
    (careful : running.Careful (.store task offset value))
    (user : 0 < task)
    (range : task < 64)
    (inSlot : offset < slotSize)
    (ends :
      (storeByte (task * slotSize + offset) value
        running.kernel.memory).EndsIn after) :
    Faithful programs extMemK
      { running with
        kernel := { running.kernel with memory := after }
        lost := running.lost \ {slotOf task offset} } := by
  obtain ⟨entry, mapped, isWritable⟩ := careful
  have accounted := faithful.accounted
  have sameSlot := slotOf_address range inSlot
  have member := slotOf_mem user range inSlot
  have aboveLow :=
    (Memory.Accounted.writableSingle accounted _ member entry mapped
      isWritable).1
  have stores :
      (storeByte (task * slotSize + offset) value).Satisfies
        running.kernel.memory _ (fun _ => False) :=
    satisfies_storeByte accounted (sameSlot ▸ member) (sameSlot ▸ mapped)
      aboveLow
  obtain ⟨_, stored⟩ := (stores.of_ends ends).resolve_right id
  rw [sameSlot] at stored
  have kept {page : Nat}
      (different : page ≠ entry.frame)
      (isKept : Kept running.kernel.held running.kernel.memory page) :
      after.ram page = running.kernel.memory.ram page :=
    stored.ram page different fun dir dirMember pointsTo =>
      kept_ne_table accounted dirMember pointsTo isKept rfl
  refine faithful.step (slotOf task offset) rfl stored.accounted ?_
    (fun other otherMember different =>
      placeAt_congr (stored.others other otherMember different)) ?_
    (fun _ different notLost isLost => notLost ⟨isLost, different⟩) ?_
  · intro page isHeld
    have heldRefs := Accounted.held_refs accounted isHeld
    have different : page ≠ entry.frame := by
      rintro rfl
      exact Accounted.frameAt_ne_of_refs heldRefs.1 member
        (frameAt_of_entry mapped)
    exact (kept different (Or.inr (Or.inr isHeld))).trans
      (faithful.cleared page isHeld)
  · intro other otherMember different page maps _
    refine kept ?_ (kept_of_maps otherMember maps)
    rintro rfl
    exact Accounted.frameAt_ne_writable accounted member otherMember
      different mapped isWritable maps
  · intro other position _ _ _ same file page dirty _ _ place clean _
    change after.placeAt (slotOf other position) = some (page, dirty) at place
    rw [same, placeAt_of_entry stored.self, Word.frame_markDirty,
      Word.dirty_markDirty] at place
    obtain ⟨_, rfl⟩ := Prod.mk.inj (Option.some.inj place)
    cases clean

theorem faithful_share
    {task current tmp file : Nat} {after : Memory}
    (user : 0 < task)
    (range : task < 64)
    (currentUser : 0 < current)
    (currentRange : current < 64)
    (different : task ≠ current)
    (inSlot : tmp < slotSize)
    (runs : running.executable task = some file)
    (sameFile : running.executable current = some file)
    (absent :
      running.kernel.memory.entryAt (slotOf current tmp) = none)
    (ends :
      (tryToShare tmp (task * slotSize) (current * slotSize)
        running.kernel.memory).EndsIn after) :
    Faithful programs extMemK
      { running with
        kernel := { running.kernel with memory := after }
        lost :=
          {slot | if slot = slotOf current tmp then
              slotOf task tmp ∈ running.lost
            else slot ∈ running.lost} } := by
  have accounted := faithful.accounted
  have stillLost (other : Nat × Nat)
      (elsewhere : other ≠ slotOf current tmp)
      (notLost :
        other ∉
          {slot : Nat × Nat | if slot = slotOf current tmp then
              slotOf task tmp ∈ running.lost
            else slot ∈ running.lost}) :
      other ∉ running.lost := by
    rw [Set.mem_ofPred_eq, if_neg elsewhere] at notLost
    exact notLost
  have nothing
      (same : after = running.kernel.memory) :
      Faithful programs extMemK
        { running with
          kernel := { running.kernel with memory := after }
          lost :=
            {slot | if slot = slotOf current tmp then
                slotOf task tmp ∈ running.lost
              else slot ∈ running.lost} } := by
    subst same
    refine faithful.step (slotOf current tmp) rfl accounted
      faithful.cleared (fun _ _ _ => rfl) (fun _ _ _ _ _ _ => rfl)
      stillLost ?_
    intro other position _ _ _ same
    apply GoodAt.of_absent
    rw [same]
    exact absent
  have shares :
      (tryToShare tmp (task * slotSize) (current * slotSize)).Satisfies
        running.kernel.memory _ (fun after =>
          after = running.kernel.memory) :=
    satisfies_tryToShare accounted inSlot user range currentUser
      currentRange different absent rfl
  rcases shares.of_ends ends with
    ⟨_, ⟨_, same⟩ | ⟨_, entry, shared⟩⟩ | same
  · exact nothing same
  · refine faithful.step (slotOf current tmp) rfl shared.accounted
      (faithful.still_cleared shared.data) ?_
      (fun _ member _ _ maps main =>
        contents_of_data shared.data member maps main) stillLost ?_
    · intro other member elsewhere
      by_cases isSource : other = slotOf task tmp
      · rw [isSource]
        exact shared.source_place
      · exact placeAt_congr
          (shared.others other member isSource elsewhere)
    · intro other position otherUser otherRange atSlot same
      obtain ⟨rfl, samePage⟩ := (slotOf_eq_iff atSlot inSlot).mp same
      have sourceSlot : slotOf task position = slotOf task tmp :=
        (slotOf_eq_iff atSlot inSlot).mpr ⟨rfl, samePage⟩
      have sameProgram :
          running.program programs other =
            running.program programs task := by
        unfold program
        rw [runs, sameFile]
      rw [sameProgram]
      refine (faithful.pages task position user range atSlot).transfer ?_
        (fun _ maps main =>
          contents_of_data shared.data
            (slotOf_mem user range atSlot) maps main) ?_
      · rw [same, sourceSlot]
        exact shared.target_place
      · intro notLost
        rw [Set.mem_ofPred_eq, if_pos same] at notLost
        rw [sourceSlot]
        exact notLost
  · exact nothing same

/-- The entries of a task that changes its executable are lost. -/
theorem faithful_exec
    {task : Nat} {executable : Option Nat}
    (user : 0 < task) :
    Faithful programs extMemK
      { running with
        executable := Function.update running.executable task executable
        lost := running.lost ∪ {slot | InSlot task slot.1} } := by
  refine ⟨faithful.accounted, ?_, faithful.cleared, ?_⟩
  · change Function.update running.executable task _ 0 = none
    rw [Function.update_of_ne (Nat.ne_of_lt user)]
    exact faithful.swapper
  intro other offset otherUser otherRange atSlot
  change GoodAt running.kernel.memory _
    ((Function.update running.executable task executable other).map programs)
    other offset
  by_cases same : other = task
  · subst same
    intro _ _ _ _ _ _ _ notLost
    exact absurd (Or.inr ((inSlot_slotOf atSlot).mpr rfl)) notLost
  · rw [Function.update_of_ne same]
    exact (faithful.pages other offset otherUser otherRange atSlot).transfer
      rfl (fun _ _ _ => rfl) fun notLost isLost => notLost (Or.inl isLost)

theorem faithful_free
    {task size : Nat} {after : Memory}
    (user : 0 < task)
    (range : task < 64)
    (inSlot : size ≤ slotSize)
    (withinLimit :
      ∀ dir, InSlot task dir →
        running.kernel.memory.tableOf dir ≠ none →
          dir < task * 16 + (size + 0x3fffff) / 0x400000)
    (ends :
      (freePageTables (task * slotSize) size
        running.kernel.memory).EndsIn after) :
    Faithful programs extMemK
      { running with
        kernel := { running.kernel with memory := after }
        lost := {slot | ¬ InSlot task slot.1 ∧ slot ∈ running.lost} } := by
  have accounted := faithful.accounted
  have frees :
      (freePageTables (task * slotSize) size).Satisfies
        running.kernel.memory _ (fun _ => False) :=
    satisfies_freePageTables accounted user range inSlot
  obtain ⟨_, _, released⟩ := (frees.of_ends ends).resolve_right id
  have data := released.keepsData accounted
  refine ⟨released.accounted, faithful.swapper,
    faithful.still_cleared data, ?_⟩
  intro other offset otherUser otherRange atSlot
  have member := slotOf_mem otherUser otherRange atSlot
  have entry := released.entries _ member
  change GoodAt after _ (running.program programs other) other offset
  by_cases same : other = task
  · subst same
    apply GoodAt.of_absent
    rw [entry]
    split
    · rfl
    · rename_i outside
      apply entryAt_of_no_table
      by_contra hasTable
      have inTask : InSlot other (slotOf other offset).1 :=
        (inSlot_slotOf atSlot).mpr rfl
      have below := withinLimit _ inTask hasTable
      exact outside ⟨inTask.1, below⟩
  · have outside : ¬ InSlot task (slotOf other offset).1 :=
      fun inside => same ((inSlot_slotOf atSlot).mp inside).symm
    have elsewhere :
        ¬ (task * 16 ≤ (slotOf other offset).1 ∧
          (slotOf other offset).1 <
            task * 16 + (size + 0x3fffff) / 0x400000) := by
      unfold InSlot at outside
      unfold slotSize at inSlot
      omega
    rw [if_neg elsewhere] at entry
    refine (faithful.pages other offset otherUser otherRange
      atSlot).transfer (placeAt_congr entry)
      (fun _ maps main => contents_of_data data member maps main) ?_
    intro notLost isLost
    exact notLost ⟨outside, isLost⟩

/-! ## Runs -/

theorem faithful_does
    {action : ShareAction}
    (careful : running.Careful action)
    (does : running.Does programs action next) :
    next.Faithful programs extMemK := by
  cases does with
  | take taken =>
    exact faithful_take faithful taken
  | empty user range inSlot outside absent ends =>
    exact faithful_empty faithful user range inSlot outside absent ends
  | load user range inSlot aligned runs _ isHeld absent ends =>
    exact faithful_load faithful user range inSlot aligned runs isHeld
      absent ends
  | fork enabled ends =>
    exact faithful_fork faithful enabled ends
  | verify user range inSlot ends =>
    exact faithful_verify faithful user range inSlot ends
  | fault user range inSlot mapped _ ends =>
    exact faithful_fault faithful user range inSlot mapped ends
  | store user range inSlot _ ends =>
    exact faithful_store faithful careful user range inSlot ends
  | share user range currentUser currentRange different inSlot runs
      sameFile _ absent ends =>
      exact faithful_share faithful user range currentUser currentRange
        different inSlot runs sameFile absent ends
  | exec user =>
    exact faithful_exec faithful user
  | free user range inSlot withinLimit ends =>
    exact faithful_free faithful user range inSlot withinLimit ends

end Running

end Memory

end HitOs
