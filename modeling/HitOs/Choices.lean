import HitOs.Scheduling

namespace HitOs

/-!
# The choice of the scheduler

Which task `schedule` switches to, and when it fills the counters up, for every table
whose counters stay in the range of `long`.
-/

namespace Tasks

variable {table : Table} {jiffies : Int}

/-- A task that can run, and none that can run comes before it. -/
def Best (table : Table) (next : Slot) : Prop :=
  ∃ task, table next = some task ∧ task.state = .running ∧
    ∀ slot other, slot ≠ 0 → table slot = some other →
      other.state = .running →
        other.counter < task.counter ∨ other.counter = task.counter ∧ slot ≤ next

/-- The counters in all slots but the first one are computed anew. -/
def Refilled (before after : Table) : Prop :=
  ∀ slot,
    after slot =
      if slot = 0 then
        before slot
      else
        (before slot).map fun task =>
          { task with counter := task.counter / 2 + task.priority }

/-- What is chosen from the tasks after the look at signals and alarms. -/
structure Picks (checked after : Table) (next : Slot) : Prop where
  idle :
    next = 0 ↔ ¬ SomeRuns checked
  best :
    next ≠ 0 → Best after next
  refilled :
    Exhausted checked → Refilled checked after
  kept :
    ¬ Exhausted checked → after = checked

/-- One turn keeps what there is, or takes the slot it is at. -/
theorem choose_cases
    (table : Table)
    (best : Int × Slot)
    (slot : Slot) :
    (choose table best slot = best ∨ (choose table best slot).2 = slot) ∧
      ∀ task, table slot = some task → task.state = .running →
        task.counter ≤ (choose table best slot).1 := by
  unfold choose
  cases shape : table slot with
  | none =>
    exact ⟨Or.inl rfl, fun _ present => nomatch present⟩
  | some task =>
    dsimp only
    split_ifs with better
    · refine ⟨Or.inr rfl, fun other present _ => ?_⟩
      cases present
      exact Int.le_refl _
    · refine ⟨Or.inl rfl, fun other present running => ?_⟩
      cases present
      exact Int.not_lt.mp fun less => better ⟨running, less⟩

/-- From the last slot down, a slot is chosen before all equals below it. -/
theorem foldl_choose_first
    (table : Table)
    {slots : List Slot}
    (sorted : slots.Pairwise (· > ·))
    (best : Int × Slot) :
    slots.foldl (choose table) best = best ∨
      ∀ slot task, slot ∈ slots → table slot = some task →
        task.state = .running →
          task.counter = (slots.foldl (choose table) best).1 →
            slot ≤ (slots.foldl (choose table) best).2 := by
  induction slots generalizing best with
  | nil =>
    exact Or.inl rfl
  | cons first rest inductionHypothesis =>
    obtain ⟨below, sorted⟩ := List.pairwise_cons.mp sorted
    obtain ⟨takes, seen⟩ := choose_cases table best first
    rw [List.foldl_cons]
    by_cases same : rest.foldl (choose table) (choose table best first) =
        choose table best first
    · rw [same]
      rcases takes with kept | here
      · exact Or.inl kept
      · -- The first slot has been chosen, and all others are below it.
        rw [here]
        refine Or.inr fun slot task member _ _ _ => ?_
        rcases List.mem_cons.mp member with rfl | inRest
        · exact le_refl slot
        · exact le_of_lt (below slot inRest)
    · obtain ⟨_, _, found⟩ := foldl_choose rest (choose table best first)
      have highest := (inductionHypothesis sorted _).resolve_left same
      obtain ⟨_, task, _, _, _, better, last⟩ := found.resolve_left same
      refine Or.inr fun slot other inside present running equal => ?_
      rcases List.mem_cons.mp inside with rfl | inRest
      · -- What is chosen from the rest has a larger counter.
        have bound := seen other present running
        rw [last] at equal
        dsimp only at equal
        omega
      · exact highest slot other inRest present running equal

theorem laterSlots_sorted : laterSlots.Pairwise (· > ·) := by
  decide

/-- The slot that the loop chooses, where no counter is negative. -/
theorem best_select
    (fair : Fair table)
    (runs : SomeRuns table) :
    Best table (select table).2 := by
  have chosen := select_ne_idle fair runs
  obtain ⟨bounds, nothing | ⟨slot, task, later, present, running, _, found⟩⟩ :=
    select_spec table
  · rw [nothing] at chosen
    exact absurd rfl chosen
  · have order := foldl_choose_first table laterSlots_sorted (-1, 0)
    change select table = _ ∨ _ at order
    refine ⟨task, by rw [found]; exact present, running, ?_⟩
    intro other task' later' present' running'
    have bound := bounds other task' later' present' running'
    rcases order with isNone | highest
    · rw [isNone] at chosen
      exact absurd rfl chosen
    · by_cases equal : task'.counter = task.counter
      · refine Or.inr ⟨equal, highest other task'
          (mem_laterSlots.mpr later') present' running' ?_⟩
        change _ = (select table).1
        rw [found]
        exact equal
      · rw [found] at bound
        exact Or.inl (lt_of_le_of_ne bound equal)

/-- The tasks of the table after the counters have been filled up. -/
theorem refilled_refill
    (roomy : Roomy table)
    (fair : Fair table) :
    Refilled table (refill table) := by
  intro slot
  by_cases first : slot = 0
  · rw [if_pos first]
    exact if_pos first
  · rw [if_neg first]
    unfold refill
    rw [if_neg first]
    cases present : table slot with
    | none =>
      rfl
    | some task =>
      have room := roomy slot task first present
      have was := fair slot task present
      have positive := was.counter
      have atLeast := was.priority
      rw [Option.map_some, Option.map_some, long_eq_self (by omega) room]

theorem Roomy.priority
    {slot : Slot} {task : Task}
    (roomy : Roomy table)
    (fair : Fair table)
    (later : slot ≠ 0)
    (present : table slot = some task) :
    task.priority < 2 ^ 31 := by
  have room := roomy slot task later present
  have positive := (fair slot task present).counter
  omega

/-- The counters after they have been filled up. -/
theorem fair_refill
    (roomy : Roomy table)
    (fair : Fair table) :
    Fair (refill table) := by
  intro slot task refilled
  obtain ⟨task', present, priority, _, ⟨_, rfl⟩ | ⟨later, counter⟩⟩ :=
    refill_some refilled
  · exact fair slot task present
  · have was := fair slot task' present
    have room := roomy slot task' later present
    have positive := was.counter
    have atLeast := was.priority
    refine ⟨priority ▸ atLeast, ?_⟩
    rw [counter, long_eq_self (by omega) room]
    omega

theorem someRuns_refill :
    SomeRuns (refill table) ↔ SomeRuns table := by
  constructor
  · rintro ⟨slot, task, later, refilled, running⟩
    obtain ⟨task', present, _, state, _⟩ := refill_some refilled
    exact ⟨slot, task', later, present, state ▸ running⟩
  · rintro ⟨slot, task, later, present, running⟩
    exact ⟨slot, _, later, refill_present later present, running⟩

/-- Task 0 is chosen if no other task can run. -/
theorem select_idle
    (idle : ¬ SomeRuns table) :
    (select table).2 = 0 := by
  obtain ⟨_, nothing | ⟨slot, task, later, present, running, _⟩⟩ :=
    select_spec table
  · rw [nothing]
  · exact absurd ⟨slot, task, later, present, running⟩ idle

theorem checked_some
    {slot : Slot} {task : Task}
    (checked : checkSignals jiffies table slot = some task) :
    ∃ task', table slot = some task' ∧ task.counter = task'.counter ∧
      task.priority = task'.priority := by
  unfold checkSignals at checked
  split_ifs at checked with first
  · exact ⟨task, checked, rfl, rfl⟩
  · obtain ⟨task', present, rfl⟩ := Option.map_eq_some_iff.mp checked
    exact ⟨task', present, task'.checkSignals_counter jiffies⟩

theorem schedule_picks
    (jiffies : Int)
    (fair : Fair table)
    (roomy : Roomy table) :
    ∃ after next,
      (∀ turns, 2 ≤ turns →
        schedule turns jiffies table = some (after, next)) ∧
        Picks (checkSignals jiffies table) after next := by
  have fair : Fair (checkSignals jiffies table) := by
    intro slot task checked
    obtain ⟨task', present, counter, priority⟩ := checked_some checked
    have was := fair slot task' present
    exact ⟨priority ▸ was.priority, counter ▸ was.counter⟩
  have roomy : Roomy (checkSignals jiffies table) := by
    intro slot task later checked
    obtain ⟨task', present, counter, priority⟩ := checked_some checked
    rw [counter, priority]
    exact roomy slot task' later present
  unfold schedule
  generalize checkSignals jiffies table = checked at fair roomy ⊢
  by_cases exhausted : Exhausted checked
  · have zero := (select_eq_zero_iff fair).mpr exhausted
    have again := fair_refill roomy fair
    have runs := someRuns_refill.mpr exhausted.1
    have chosen := select_ne_idle again runs
    -- A task that can run has its priority as its counter now.
    have ends : (select (refill checked)).1 ≠ 0 := by
      obtain ⟨slot, task, later, present, running⟩ := exhausted.1
      have priority := (fair slot task present).priority
      have range := roomy.priority fair later present
      have empty := exhausted.2 slot task later present running
      have bound := (select_spec (refill checked)).1 slot _ later
        (refill_present later present) running
      simp only [empty] at bound
      rw [long_eq_self (by omega) (by omega)] at bound
      omega
    refine ⟨refill checked, (select (refill checked)).2, fun turns more => ?_,
      ⟨fun idle => absurd idle chosen, fun noneRuns => absurd exhausted.1 noneRuns⟩,
      fun _ => best_select again runs,
      fun _ => refilled_refill roomy fair, fun fresh => absurd exhausted fresh⟩
    obtain ⟨turns, rfl⟩ := Nat.exists_eq_add_of_le' more
    simp [scheduler, zero, ends]
  · have ends : (select checked).1 ≠ 0 :=
      fun zero => exhausted ((select_eq_zero_iff fair).mp zero)
    refine ⟨checked, (select checked).2, fun turns more => ?_,
      ⟨fun idle runs => select_ne_idle fair runs idle, select_idle⟩,
      fun chosen => ?_, fun empty => absurd empty exhausted, fun _ => rfl⟩
    · obtain ⟨turns, rfl⟩ := Nat.exists_eq_add_of_le' more
      simp [scheduler, ends]
    · refine best_select fair (Classical.not_not.mp fun idle => ?_)
      exact chosen (select_idle idle)

/-- Task 0 and two others, all with their time used up. -/
def spentTable : Table :=
  fun slot => if slot ≤ 2 then some { initTask with counter := 0 } else none

theorem schedule_picks_last :
    ∃ after,
      (∀ turns, 2 ≤ turns → schedule turns 0 spentTable = some (after, 2)) ∧
        Picks (checkSignals 0 spentTable) after 2 := by
  have only {slot : Slot} {task : Task}
      (present : spentTable slot = some task) :
      task = { initTask with counter := 0 } := by
    unfold spentTable at present
    split_ifs at present
    exact (Option.some.inj present).symm
  have fair : Fair spentTable := by
    intro slot task present
    rw [only present]
    exact ⟨by decide, by decide⟩
  have roomy : Roomy spentTable := by
    intro slot task _ present
    rw [only present]
    decide
  obtain ⟨after, next, schedules, picks⟩ := schedule_picks 0 fair roomy
  have last : (schedule 2 0 spentTable).map Prod.snd = some 2 := by
    decide +kernel
  rw [schedules 2 (Nat.le_refl 2)] at last
  obtain rfl : next = 2 := Option.some.inj last
  exact ⟨after, schedules, picks⟩

end Tasks

end HitOs
