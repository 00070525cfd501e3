import HitOs.PageRuns

namespace HitOs

/-!
# What the other tasks do while a task sleeps

A task that sleeps in the kernel keeps its place: the calls that the other tasks
make map no other page at its addresses.  They can write-protect its entries, in
`try_to_share`, and nothing more.
-/

namespace Memory

open Routine

namespace PageCall

/-- The call is not made for the given task. -/
def Spares (task : Nat) : PageCall → Prop
  | putPage _ address => ¬ InSlot task (dirIndex address)
  | getEmptyPage address => ¬ InSlot task (dirIndex address)
  | copyMem _ _ child => child ≠ task
  | freePageTables other _ => other ≠ task
  | unWpPage dir _ => ¬ InSlot task dir
  | tryToShare _ _ current => current ≠ task
  | userWrite other _ _ => other ≠ task
  | _ => True

end PageCall

/-- The task's entries map the pages that they mapped before. -/
def SameSlot (task : Nat) (memory after : Memory) : Prop :=
  ∀ slot ∈ userEntries, InSlot task slot.1 → after.frameAt slot = memory.frameAt slot

variable {extMemK : Nat} {kernel : Kernel} {task : Nat}

/-- A routine of `mm/memory.c` that leaves the task's entries alone. -/
theorem spares_onMemory
    {α : Type} {routine : Routine Memory α}
    {returned : α → Memory → Prop} {abandoned : Memory → Prop}
    (satisfied : routine.Satisfies kernel.memory returned abandoned)
    (onReturn :
      ∀ value after, returned value after → SameSlot task kernel.memory after)
    (onAbandon :
      ∀ after, abandoned after → SameSlot task kernel.memory after) :
    (Kernel.onMemory routine).Satisfies kernel
      (fun _ after => SameSlot task kernel.memory after.memory)
      (fun after => SameSlot task kernel.memory after.memory) := by
  unfold Kernel.onMemory
  rw [satisfies_zoom]
  exact satisfied.mono onReturn onAbandon

theorem sameSlot_refl
    (task : Nat)
    (memory : Memory) :
    SameSlot task memory memory :=
  fun _ _ _ => rfl

/-- Entries that are the same outside one slot are the same in another. -/
theorem sameSlot_of_others
    {memory after : Memory} {dir index : Nat}
    (outside : ¬ InSlot task dir)
    (others :
      ∀ slot ∈ userEntries, slot ≠ (dir, index) →
        after.entryAt slot = memory.entryAt slot) :
    SameSlot task memory after := by
  intro slot member inSlot
  apply frameAt_congr
  apply others slot member
  rintro rfl
  exact outside inSlot

/-- A call made for another task leaves the sleeping task's pages in place. -/
theorem spares_call
    {call : PageCall}
    (accounted : kernel.Accounted extMemK)
    (enabled : call.Enabled kernel)
    (spares : call.Spares task) :
    call.perform.Satisfies kernel
      (fun _ after => SameSlot task kernel.memory after.memory)
      (fun after => SameSlot task kernel.memory after.memory) := by
  have nothing := sameSlot_refl task kernel.memory
  cases call with
  | getFreePage =>
    unfold PageCall.perform Kernel.onMemory
    rw [satisfies_bind, satisfies_zoom]
    refine (satisfies_getFreePage accounted).mono ?_
      (fun _ same => same)
    rintro page _ (⟨rfl, rfl, _⟩ | ⟨inMain, free, rfl⟩)
    · rw [satisfies_update, if_pos rfl]
      exact nothing
    · have notZero := Accounted.ne_zero_of_main accounted inMain
      rw [satisfies_update, if_neg notZero]
      intro slot member _
      exact frameAt_congr
        (Accounted.entryAt_taken accounted inMain free member)
  | freePage page =>
    unfold PageCall.perform
    refine Satisfies.andThen (spares_onMemory
      (satisfies_freePage_held accounted enabled) ?_
      (fun _ same => same)) (fun _ _ kept => kept)
    rintro _ after ⟨_, ram⟩ slot _ _
    unfold frameAt entryAt tableOf
    rw [ram]
  | fillPage page contents =>
    have refs := Accounted.held_refs accounted enabled
    have aboveLow :=
      Accounted.above_low accounted
        (Memory.Accounted.heldMain accounted page enabled)
    intro slot member _
    exact frameAt_congr
      (Accounted.entryAt_storePage aboveLow refs.2.1 member)
  | putPage page address =>
    obtain ⟨isHeld, slotMember, empty⟩ := enabled
    unfold PageCall.perform
    refine Satisfies.andThen (spares_onMemory
      (satisfies_putPage accounted slotMember empty isHeld) ?_
      (fun _ same => same)) ?_
    · rintro _ after (⟨_, placed⟩ | ⟨_, rfl, _⟩)
      · exact sameSlot_of_others spares placed.others
      · exact nothing
    · intro value middle kept
      rw [satisfies_update]
      split
      · exact kept
      · exact kept
  | getEmptyPage address =>
    obtain ⟨slotMember, empty⟩ := enabled
    apply spares_onMemory
      (satisfies_getEmptyPage accounted slotMember empty)
    · rintro _ after ⟨page, inMain, _, placed, free, _⟩
      apply sameSlot_of_others spares
      intro slot member different
      rw [placed.others slot member different,
        Accounted.entryAt_taken accounted inMain free member]
    · rintro after ⟨_, same, _⟩ slot member _
      exact frameAt_congr (same slot member)
  | copyMem segments parent child =>
    unfold PageCall.perform
    refine Satisfies.andThen (spares_onMemory
      (satisfies_copyMem accounted (copyable_of_enabled enabled)) ?_
      (fun _ same => same)) (fun _ _ kept => kept)
    intro _ after copied slot member within
    rw [frameAt_eq_place, frameAt_eq_place]
    congr 1
    apply copied.places slot member
    unfold PageCall.Spares at spares
    unfold InSlot at within ⊢
    omega
  | freePageTables other size =>
    obtain ⟨notSwapper, inTable, inSlot⟩ := enabled
    unfold PageCall.perform
    refine Satisfies.andThen (spares_onMemory
      (satisfies_freePageTables accounted notSwapper inTable inSlot) ?_
      (fun _ same => same)) (fun _ _ kept => kept)
    rintro _ after ⟨_, released⟩ slot member within
    have entry := released.entries slot member
    unfold PageCall.Spares at spares
    unfold InSlot at within
    unfold slotSize at inSlot
    rw [if_neg (by omega)] at entry
    exact frameAt_congr entry
  | unWpPage dir index =>
    obtain ⟨slotMember, entry, mapped⟩ := enabled
    unfold PageCall.perform
    rw [satisfies_bind, satisfies_read]
    have unwraps :
        (Memory.unWpPage (kernel.memory.ram 0 dir).frame
          index).Satisfies kernel.memory _
            (SameSlot task kernel.memory) :=
      satisfies_unWpPage accounted slotMember
        (table_of_entry mapped).1 mapped nothing
    apply spares_onMemory unwraps
    · rintro _ after ⟨_, unshared⟩
      exact sameSlot_of_others spares unshared.others
    · exact fun _ kept => kept
  | tryToShare address source current =>
    obtain ⟨inSlot, sourceUser, sourceRange, currentUser,
      currentRange, different, empty⟩ := enabled
    have shares :
        (Memory.tryToShare address (source * slotSize)
          (current * slotSize)).Satisfies kernel.memory _
            (SameSlot task kernel.memory) :=
      satisfies_tryToShare accounted inSlot sourceUser sourceRange
        currentUser currentRange different empty nothing
    unfold PageCall.perform
    refine Satisfies.andThen (spares_onMemory shares ?_
      (fun _ kept => kept)) (fun _ _ kept => kept)
    rintro _ after (⟨_, rfl⟩ | ⟨_, entry, shared⟩)
    · exact nothing
    · intro slot member within
      by_cases isSource :
          slot = (source * 16 + dirIndex address, tableIndex address)
      · rw [isSource, frameAt_of_entry shared.sourceEntry,
          frameAt_of_entry shared.mapped, Word.frame_writeProtect]
      · apply frameAt_congr
        apply shared.others slot member isSource
        rintro rfl
        have small : dirIndex address < 16 := by
          unfold slotSize at inSlot
          unfold dirIndex
          omega
        unfold PageCall.Spares at spares
        unfold InSlot at within
        omega
  | userWrite other offset value =>
    obtain ⟨otherUser, otherRange, inSlot, entry, mapped⟩ := enabled
    have sameAddress := slotOf_address otherRange inSlot
    have slotMember := slotOf_mem otherUser otherRange inSlot
    have writes :
        (Memory.userWrite (other * slotSize + offset)
          value).Satisfies kernel.memory _
            (SameSlot task kernel.memory) :=
      satisfies_userWrite accounted (sameAddress ▸ slotMember)
        (sameAddress ▸ mapped) nothing
    apply spares_onMemory writes
    · rintro _ after ⟨_, written⟩
      rw [sameAddress] at written
      refine sameSlot_of_others ?_ written.others
      unfold PageCall.Spares at spares
      unfold slotSize at inSlot
      unfold InSlot dirIndex
      omega
    · exact fun _ kept => kept

/-! ## Runs of the other tasks -/

/-- One call made for another task. -/
def OthersStep
    (extMemK task : Nat) :
    PageCall → Kernel → Kernel → Prop :=
  fun call kernel after =>
    call.Spares task ∧ (pageMachine extMemK).Step kernel call after

/-- While the other tasks run, the counts stay exact and the place is kept. -/
theorem others_run
    {calls : List PageCall} {after : Kernel}
    (run : Traces (OthersStep extMemK task) calls kernel after)
    (accounted : kernel.Accounted extMemK) :
    after.Accounted extMemK ∧
      SameSlot task kernel.memory after.memory := by
  induction run with
  | done state =>
    exact ⟨accounted, sameSlot_refl task _⟩
  | next stepped _ inductionHypothesis =>
    obtain ⟨spares, step⟩ := stepped
    have middleAccounted :=
      step.invariant (preserves_accounted extMemK) accounted
    obtain ⟨lastAccounted, rest⟩ :=
      inductionHypothesis middleAccounted
    refine ⟨lastAccounted, ?_⟩
    intro slot member within
    rw [rest slot member within]
    cases step with
    | returned enabled outcome =>
      exact (spares_call accounted enabled spares).of_ret outcome
        slot member within
    | abandoned enabled outcome =>
      exact (spares_call accounted enabled spares).of_abandon outcome
        slot member within

end Memory

end HitOs
