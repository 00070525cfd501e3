import HitOs.SharingRuns

namespace HitOs

/-!
# Shared pages are pages of the file

Runs of tasks that load, store into, copy and share the pages of executables:
while no entry that lost its dirty bit or is left from the program before is
shared and no store ignores the write bit, `try_to_share` maps the page that
`do_no_page` would have loaded.  A fork and a page fault are enough to share a
modified page.
-/

namespace Memory

open Routine

namespace Running

variable {programs : Nat → Executable} {extMemK : Nat}

/-- A step that keeps clean entries honest. -/
def DoesCarefully
    (programs : Nat → Executable)
    (action : ShareAction)
    (running next : Running) : Prop :=
  running.Careful action ∧ running.Does programs action next

/--
What is claimed of one call of `try_to_share`: the page that it maps has the
bytes that `do_no_page` would have loaded.
-/
def SharesFile
    (programs : Nat → Executable)
    (running : Running)
    (task current tmp : Nat) : Prop :=
  ∀ file after,
    running.executable task = some file →
    running.executable current = some file →
    (programs file).Covers tmp →
    running.kernel.memory.entryAt (slotOf current tmp) = none →
    tryToShare tmp (task * slotSize) (current * slotSize)
        running.kernel.memory = .ret 1 after →
      ∀ offset, offset / 4096 = tmp / 4096 →
        after.view current offset = some ((programs file).loaded offset)

theorem starts_faithful
    {running : Running}
    (starts : running.Starts extMemK) :
    running.Faithful programs extMemK := by
  obtain ⟨initial, noExecutable, _⟩ := starts
  refine ⟨initial_accounted initial, noExecutable 0, ?_, ?_⟩
  · intro page isHeld
    exact absurd (initial.2 page) (Nat.ne_of_gt isHeld)
  · intro task offset _ _ _
    apply GoodAt.of_outside
    intro file runs
    unfold program at runs
    rw [noExecutable task] at runs
    cases runs

theorem run_faithful
    {actions : List ShareAction} {start running : Running}
    (starts : start.Starts extMemK)
    (run : Traces (DoesCarefully programs) actions start running) :
    running.Faithful programs extMemK :=
  run.invariant
    (fun _ _ _ faithful stepped =>
      faithful_does faithful stepped.1 stepped.2)
    (starts_faithful starts)

/--
After any careful run, a page that `try_to_share` maps from an entry whose dirty
bit was not lost has the bytes of the file.
-/
theorem sharesFile_of_careful
    {actions : List ShareAction} {start running : Running}
    {task current tmp : Nat}
    (starts : start.Starts extMemK)
    (run : Traces (DoesCarefully programs) actions start running)
    (user : 0 < task)
    (range : task < 64)
    (currentUser : 0 < current)
    (currentRange : current < 64)
    (different : task ≠ current)
    (inSlot : tmp < slotSize)
    (careful : running.Careful (.share task current tmp)) :
    running.SharesFile programs task current tmp := by
  have faithful := run_faithful starts run
  intro file after runs _ covered absent outcome offset samePage
  have shares :
      (tryToShare tmp (task * slotSize) (current * slotSize)).Satisfies
        running.kernel.memory _ (fun _ => True) :=
    satisfies_tryToShare faithful.accounted inSlot user range currentUser
      currentRange different absent trivial
  rcases shares.of_ret outcome with ⟨zero, _⟩ | ⟨_, entry, shared⟩
  · exact absurd zero (by decide)
  have atSlot : offset < slotSize := by
    unfold slotSize at *
    omega
  have sourceSlot : slotOf task offset = slotOf task tmp :=
    (slotOf_eq_iff atSlot inSlot).mpr ⟨rfl, samePage⟩
  have targetSlot : slotOf current offset = slotOf current tmp :=
    (slotOf_eq_iff atSlot inSlot).mpr ⟨rfl, samePage⟩
  have sourceEntry :
      running.kernel.memory.entryAt (slotOf task offset) = some entry := by
    rw [sourceSlot]
    exact shared.mapped
  have targetEntry :
      after.entryAt (slotOf current offset) = some entry.writeProtect := by
    rw [targetSlot]
    exact shared.targetEntry
  have program :
      running.program programs task = some (programs file) := by
    unfold program
    rw [runs]
    rfl
  have notLost : slotOf task offset ∉ running.lost := by
    rw [sourceSlot]
    exact careful
  obtain ⟨main, contents⟩ :=
    faithful.pages task offset user range atSlot (programs file)
      entry.frame entry.dirty program ((covers_congr samePage).mpr covered)
      (placeAt_of_entry sourceEntry) shared.clean notLost
  have member := slotOf_mem user range atSlot
  have sameContents :=
    contents_of_data shared.data member (frameAt_of_entry sourceEntry) main
  rw [view_of_entry targetEntry, Word.frame_writeProtect, sameContents,
    contents]

/-! ## A modified page with a clean entry -/

/-- A file of one page of fives. -/
def fives (_ : Nat) : Executable where
  block _ := some fun _ => 5#8
  endData := 4096

/-- The start of the runs below. -/
def firstRunning : Running where
  kernel := swapper
  executable _ := none
  lost := ∅

/-- A process of one page. -/
def onePage (task : Nat) : Segments where
  codeBase := task * slotSize
  dataBase := task * slotSize
  codeLimit := 4096
  dataLimit := 4096

/-- No page table in the slot of a task. -/
def slotEmpty (task : Nat) (memory : Memory) : Bool :=
  (List.range 16).all fun dir => memory.tableOf (task * 16 + dir) == none

theorem slotEmpty_iff
    {task : Nat} {memory : Memory}
    (isEmpty : slotEmpty task memory = true) :
    ∀ dir, InSlot task dir → memory.tableOf dir = none := by
  rintro dir ⟨lower, upper⟩
  unfold slotEmpty at isEmpty
  rw [List.all_eq_true] at isEmpty
  have isNone :=
    isEmpty (dir - task * 16) (List.mem_range.mpr (by omega))
  rw [Nat.add_sub_cancel' lower] at isNone
  simpa using isNone

/-- Task 1, with one page, can fork into an empty slot. -/
theorem onePage_enabled
    {kernel : Kernel} {child : Nat}
    (user : 0 < child)
    (range : child < 64)
    (different : 1 ≠ child)
    (isEmpty : slotEmpty child kernel.memory = true) :
    (PageCall.copyMem (onePage 1) 1 child).Enabled kernel :=
  ⟨user, range, by decide, different, rfl, rfl, Nat.le_refl _, by decide,
    fun zero => absurd zero (by decide), slotEmpty_iff isEmpty⟩

/-- Task 1 starts the program, forks task 2 and loads its page. -/
def loadTest (memory : Memory) (next : Nat → Memory → Bool) : Bool :=
  slotEmpty 1 memory &&
  (freePageTables (1 * slotSize) 0 memory).passes fun _ begun =>
    slotEmpty 2 begun &&
    (copyMem (onePage 1) 2 begun).passes fun _ forked =>
      (getFreePage forked).passes fun page taken =>
        page != 0 &&
        taken.entryAt (slotOf 1 0) == none &&
        (finishNoPage (fives 0) 1 0 page taken).passes fun _ loaded =>
          next page loaded

/-- Task 2, without a page, shares the page of task 1 as loaded. -/
def fairTest : Bool :=
  loadTest firstRunning.kernel.memory fun _ loaded =>
    loaded.entryAt (slotOf 2 0) == none &&
    (tryToShare 0 (1 * slotSize) (2 * slotSize) loaded).passes
      fun value _ => value == 1

/--
Task 1 stores into its page, forks task 3 and unshares the page; task 2 shares
the copy.
-/
def flawTest : Bool :=
  loadTest firstRunning.kernel.memory fun _ loaded =>
    (loaded.entryAt (slotOf 1 0)).isSome &&
    (storeByte (1 * slotSize + 0) 9#8 loaded).passes fun _ stored =>
      slotEmpty 3 stored &&
      (copyMem (onePage 1) 3 stored).passes fun _ shared =>
        (shared.entryAt (slotOf 1 0)).any (fun entry => !entry.writable) &&
        (doWpPage (1 * slotSize + 0) shared).passes fun _ unshared =>
          unshared.entryAt (slotOf 2 0) == none &&
          (tryToShare 0 (1 * slotSize) (2 * slotSize) unshared).passes
            fun value after => value == 1 && after.view 2 0 == some 9#8

theorem fair_passes :
    fairTest = true := by
  decide +kernel

theorem flaw_passes :
    flawTest = true := by
  decide +kernel

theorem firstRunning_starts :
    firstRunning.Starts 15360 :=
  ⟨⟨⟨_, rfl⟩, fun _ => rfl⟩, fun _ => rfl, rfl⟩

theorem nothing_lost (slot : Nat × Nat) : slot ∉ firstRunning.lost :=
  id

theorem covers_fives : (fives 0).Covers 0 := by
  unfold Executable.Covers fives
  decide

/-- The careful run behind both tests. -/
theorem loads_first
    {start : Running} {next : Nat → Memory → Bool}
    (nothingLost : ∀ slot, slot ∉ start.lost)
    (passed : loadTest start.kernel.memory next = true) :
    ∃ page running,
      Traces (DoesCarefully fives)
          [.exec 1 (some 0), .free 1 0, .fork (onePage 1) 1 2, .take,
            .load 1 0 page]
          start running ∧
        running.executable 1 = some 0 ∧ running.executable 2 = some 0 ∧
        (∀ slot, slot ∉ running.lost) ∧
        next page running.kernel.memory = true := by
  unfold loadTest at passed
  simp only [Bool.and_eq_true, Outcome.passes_iff, bne_iff_ne, ne_eq,
    beq_iff_eq] at passed
  obtain ⟨firstEmpty, _, begun, freed, secondEmpty, _, forked, copied,
    page, taken, took, ⟨notZero, absent⟩, _, loaded, filled, passed⟩ :=
    passed
  have execs :
      DoesCarefully fives (.exec 1 (some 0)) start _ :=
    ⟨trivial, .exec (by decide)⟩
  have frees (executable : Nat → Option Nat) (lost : Set (Nat × Nat)) :
      DoesCarefully fives (.free 1 0) ⟨start.kernel, executable, lost⟩ _ :=
    ⟨trivial, .free (by decide) (by decide) (by decide)
      (fun dir inTask hasTable =>
        absurd (slotEmpty_iff firstEmpty dir inTask) hasTable)
      (Or.inl ⟨_, freed⟩)⟩
  have notLoaded {kernel other : Kernel}
      (absent : kernel.memory.entryAt (slotOf 1 0) = none) :
      (if page = 0 then other else kernel).memory.entryAt (slotOf 1 0) =
        none := by
    rw [if_neg notZero]
    exact absent
  refine ⟨page, _,
    .next execs (.next (frees _ _) (.next ⟨trivial, .fork
        (onePage_enabled (by decide) (by decide) (by decide) secondEmpty)
        (Or.inl ⟨_, copied⟩)⟩
      (.next ⟨trivial, .take took⟩
        (.next ⟨trivial, .load (by decide) (by decide) (by decide)
          (by decide) rfl covers_fives ?_ (notLoaded absent)
          (Or.inl ⟨(), ?_⟩)⟩
          (.done _))))),
    rfl, rfl, ?_, passed⟩
  · rw [if_neg notZero]
    unfold Kernel.keep
    simp
  · rw [if_neg notZero]
    exact filled
  · intro slot
    simp [nothingLost]

/-- In a run of the program two tasks have the page of the file. -/
theorem sharesFile_fair :
    ∃ actions running after,
      Traces (DoesCarefully fives) actions firstRunning running ∧
        tryToShare 0 (1 * slotSize) (2 * slotSize) running.kernel.memory =
            .ret 1 after ∧
          ∀ offset, offset < 4096 → after.view 2 offset = some 5#8 := by
  obtain ⟨page, running, run, firstRuns, secondRuns, notLost, passed⟩ :=
    loads_first nothing_lost fair_passes
  simp only [Bool.and_eq_true, Outcome.passes_iff, beq_iff_eq] at passed
  obtain ⟨absent, value, after, outcome, rfl⟩ := passed
  have shares :
      running.SharesFile fives 1 2 0 :=
    sharesFile_of_careful firstRunning_starts run (by decide) (by decide)
      (by decide) (by decide) (by decide) (by decide) (notLost _)
  refine ⟨_, running, after, run, outcome, ?_⟩
  intro offset inPage
  have seen :=
    shares 0 after firstRuns secondRuns covers_fives absent outcome offset
      (by omega)
  rw [seen]
  unfold Executable.loaded fives
  simp only
  rw [if_pos inPage]

/-- A store, a fork and a page fault lead to a modified page that is shared. -/
theorem not_sharesFile :
    firstRunning.Starts 15360 ∧ ∃ actions running,
      Traces (fun action before after => Does fives before action after)
          actions firstRunning running ∧
        ¬ running.SharesFile fives 1 2 0 := by
  obtain ⟨page, running, run, firstRuns, secondRuns, _, passed⟩ :=
    loads_first nothing_lost flaw_passes
  simp only [Bool.and_eq_true, Outcome.passes_iff, beq_iff_eq,
    Option.any_eq_true, Option.isSome_iff_exists,
    Bool.not_eq_true'] at passed
  obtain ⟨⟨entry, mapped⟩, _, stored, stores, empty, _, shared, copied,
    ⟨word, sharedEntry, readOnly⟩, _, unshared, faulted, absent, value,
    after, outcome, rfl, seen⟩ := passed
  have loaded := run.mono fun _ _ _ stepped => stepped.2
  have storing :=
    loaded.snoc (.store (by decide) (by decide) (by decide) mapped
      (Or.inl ⟨(), stores⟩))
  have forking :=
    storing.snoc (.fork
      (onePage_enabled (by decide) (by decide) (by decide) empty)
      (Or.inl ⟨_, copied⟩))
  have faulting :=
    forking.snoc (.fault (by decide) (by decide) (by decide) sharedEntry
      readOnly (Or.inl ⟨(), faulted⟩))
  refine ⟨firstRunning_starts, _, _, faulting, ?_⟩
  intro shares
  have same :=
    shares 0 after firstRuns secondRuns covers_fives absent outcome 0 rfl
  rw [seen] at same
  exact absurd same (by decide)

end Running

end Memory

end HitOs
