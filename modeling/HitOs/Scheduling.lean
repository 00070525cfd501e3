import HitOs.TaskTable

namespace HitOs

/-!
# The scheduler

`schedule`, `do_timer` and `sys_nice`.  The counters of all tasks are filled up from
their priorities when those of the runnable tasks are used up, with 32-bit
arithmetic: a counter that becomes negative takes its task out of the choice.
-/

namespace Tasks

open WaitQueue (TaskState)

/-! ## The functions -/

/-- The slots from `LAST_TASK` down, without `FIRST_TASK`. -/
def laterSlots : List Slot :=
  (List.finRange nrTasks).tail.reverse

/-- The first loop of `schedule`. -/
def checkSignals (jiffies : Int) (table : Table) : Table :=
  fun slot =>
    if slot = 0 then
      table slot
    else
      (table slot).map (Task.checkSignals jiffies)

/-- One turn of the loop that looks for the largest counter. -/
def choose (table : Table) (best : Int × Slot) (slot : Slot) : Int × Slot :=
  match table slot with
  | none => best
  | some task =>
    if task.state = .running ∧ best.1 < task.counter then
      (task.counter, slot)
    else
      best

/-- The variables `c` and `next` after that loop. -/
def select (table : Table) : Int × Slot :=
  laterSlots.foldl (choose table) (-1, 0)

/-- `(counter >> 1) + priority` for every task -/
def refill (table : Table) : Table :=
  fun slot =>
    if slot = 0 then
      table slot
    else
      (table slot).map fun task =>
        { task with counter := long (task.counter / 2 + task.priority) }

/-- The `while` loop of `schedule`, with a bound for its turns. -/
def scheduler : Nat → Table → Option (Table × Slot)
  | 0, _ => none
  | turns + 1, table =>
    let chosen := select table
    if chosen.1 ≠ 0 then
      some (table, chosen.2)
    else
      scheduler turns (refill table)

/-- `schedule`, and the slot that it switches to. -/
def schedule
    (turns : Nat)
    (jiffies : Int)
    (table : Table) : Option (Table × Slot) :=
  scheduler turns (checkSignals jiffies table)

/-- `do_timer` for the current task, and whether it calls `schedule`. -/
def doTimer (cpl : Bool) (task : Task) : Task × Bool :=
  let task :=
    if cpl then
      { task with utime := long (task.utime + 1) }
    else
      { task with stime := long (task.stime + 1) }
  let counter := long (task.counter - 1)
  if 0 < counter then
    ({ task with counter := counter }, false)
  else
    ({ task with counter := 0 }, cpl)

/-- `sys_nice` -/
def sysNice (increment : Int) (task : Task) : Int × Task :=
  if 0 < long (task.priority - increment) then
    (0, { task with priority := long (task.priority - increment) })
  else
    (0, task)

/-! ## Runs -/

/-- The tasks, the one that has the processor, and the clock. -/
structure Cpu where
  table : Table
  current : Slot
  jiffies : Int

namespace Cpu

/-- Change one task, if there is one. -/
def change (slot : Slot) (change : Task → Task) (cpu : Cpu) : Cpu :=
  { cpu with
    table := Function.update cpu.table slot ((cpu.table slot).map change) }

def setSlot (slot : Slot) (value : Option Task) (cpu : Cpu) : Cpu :=
  { cpu with table := Function.update cpu.table slot value }

end Cpu

/--
What happens to the tasks.  The current task is in user mode when a tick has
`cpl`; it goes to sleep by `sleep`, and `schedule` is called then, after a tick, or at
the end of a system call.
-/
inductive Action where
  | tick (cpl : Bool)
  | schedule
  | sleep (state : TaskState)
  | wake (slot : Slot)
  | signal (slot : Slot) (signr : Fin 32)
  | block (mask : BitVec 32)
  | alarm (time : Int)
  | nice (increment : Int)
  | fork (slot : Slot) (pid : Int)
  | release (slot : Slot)

/-- Two turns of the loop of `schedule` are enough, as `schedule_returns` says. -/
def step (action : Action) (cpu : Cpu) : Option Cpu :=
  match action with
  | .tick cpl =>
    some
      { cpu.change cpu.current fun task => (doTimer cpl task).1 with
        jiffies := long (cpu.jiffies + 1) }
  | .schedule =>
    (schedule 2 cpu.jiffies cpu.table).map fun result =>
      { cpu with table := result.1, current := result.2 }
  | .sleep state =>
    some (cpu.change cpu.current fun task => { task with state := state })
  | .wake slot => some (cpu.change slot fun task => { task with state := .running })
  | .signal slot signr =>
    some (cpu.change slot fun task =>
      { task with signal := task.signal ||| bit signr })
  | .block mask =>
    some (cpu.change cpu.current fun task => { task with blocked := mask })
  | .alarm time => some (cpu.change cpu.current fun task => { task with alarm := time })
  | .nice increment =>
    some (cpu.change cpu.current fun task => (sysNice increment task).2)
  | .fork slot pid =>
    match cpu.table slot, cpu.table cpu.current with
    | none, some parent => some (cpu.setSlot slot (some (parent.child pid)))
    | _, _ => none
  | .release slot => some (cpu.setSlot slot none)

def Step (action : Action) (before after : Cpu) : Prop :=
  step action before = some after

/-! ## The choice -/

section Choice

variable {table : Table}

/-- What the loop over some slots has found. -/
theorem foldl_choose
    (slots : List Slot)
    (best : Int × Slot) :
    best.1 ≤ (slots.foldl (choose table) best).1 ∧
    (∀ slot task, slot ∈ slots → table slot = some task →
      task.state = .running → task.counter ≤ (slots.foldl (choose table) best).1) ∧
    (slots.foldl (choose table) best = best ∨
      ∃ slot task, slot ∈ slots ∧ table slot = some task ∧
        task.state = .running ∧ best.1 < task.counter ∧
        slots.foldl (choose table) best = (task.counter, slot)) := by
  induction slots generalizing best with
  | nil =>
    exact ⟨Int.le_refl _, fun _ _ member => (nomatch member), Or.inl rfl⟩
  | cons slot slots inductionHypothesis =>
    obtain ⟨grows, bounds, found⟩ :=
      inductionHypothesis (choose table best slot)
    have first :
        best.1 ≤ (choose table best slot).1 ∧
        (∀ task, table slot = some task → task.state = .running →
          task.counter ≤ (choose table best slot).1) ∧
        (choose table best slot = best ∨
          ∃ task, table slot = some task ∧ task.state = .running ∧
            best.1 < task.counter ∧
            choose table best slot = (task.counter, slot)) := by
      cases present : table slot with
      | none =>
        simp [choose, present]
      | some task =>
        by_cases better : task.state = .running ∧ best.1 < task.counter
        · simp [choose, present, better, Int.le_of_lt better.2]
        · simp only [choose, present, if_neg better]
          refine ⟨Int.le_refl _, ?_, Or.inl trivial⟩
          intro other same running
          cases same
          exact Int.not_lt.mp fun less => better ⟨running, less⟩
    refine ⟨Int.le_trans first.1 grows, ?_, ?_⟩
    · intro other task member present running
      rcases List.mem_cons.mp member with rfl | inRest
      · exact Int.le_trans (first.2.1 task present running) grows
      · exact bounds other task inRest present running
    · rw [List.foldl_cons]
      rcases found with same | ⟨other, task, member, present, running, better, chosen⟩
      · rcases first.2.2 with keeps | ⟨task, present, running, better,
          chosen⟩
        · exact Or.inl (same.trans keeps)
        · exact Or.inr ⟨slot, task, List.mem_cons_self, present, running,
            better, same.trans chosen⟩
      · exact Or.inr ⟨other, task, List.mem_cons_of_mem _ member, present,
          running, Int.lt_of_le_of_lt first.1 better, chosen⟩

theorem mem_laterSlots
    {slot : Slot} :
    slot ∈ laterSlots ↔ slot ≠ 0 := by
  revert slot
  decide

/-- A task besides task 0 that can run. -/
def SomeRuns (table : Table) : Prop :=
  ∃ slot task, slot ≠ 0 ∧ table slot = some task ∧ task.state = .running

/-- The chosen task has the largest counter, unless all counters are negative. -/
theorem select_spec
    (table : Table) :
    (∀ slot task, slot ≠ 0 → table slot = some task →
      task.state = .running → task.counter ≤ (select table).1) ∧
    (select table = (-1, 0) ∨
      ∃ slot task, slot ≠ 0 ∧ table slot = some task ∧
        task.state = .running ∧ -1 < task.counter ∧
        select table = (task.counter, slot)) := by
  obtain ⟨_, bounds, found⟩ :=
    @foldl_choose table laterSlots (-1, 0)
  constructor
  · intro slot task later
    exact bounds slot task (mem_laterSlots.mpr later)
  · rcases found with nothing | ⟨slot, task, member, rest⟩
    · exact Or.inl nothing
    · exact Or.inr ⟨slot, task, mem_laterSlots.mp member, rest⟩

end Choice

/-! ## Counters in range -/

theorem long_eq_self
    {value : Int}
    (low : -2 ^ 31 ≤ value)
    (high : value < 2 ^ 31) :
    long value = value := by
  simp only [long, Int.bmod]
  omega

theorem long_range
    (value : Int) :
    -2 ^ 31 ≤ long value ∧ long value < 2 ^ 31 := by
  simp only [long, Int.bmod]
  omega

theorem long_neg
    {value : Int}
    (low : 2 ^ 31 ≤ value)
    (high : value < 2 ^ 32) :
    long value < 0 := by
  simp only [long, Int.bmod]
  omega

/-- The claim about one task. -/
structure Task.Fair (task : Task) : Prop where
  priority : 1 ≤ task.priority
  counter : 0 ≤ task.counter

/-- The claim about all tasks. -/
def Fair (table : Table) : Prop :=
  ∀ slot task, table slot = some task → task.Fair

/-- Priorities and counters are values of `long`. -/
def Ranged (table : Table) : Prop :=
  ∀ slot task, table slot = some task → task.priority < 2 ^ 31 ∧ task.counter < 2 ^ 31

/-- Some task besides task 0 can run, and none that can run has time left. -/
def Exhausted (table : Table) : Prop :=
  SomeRuns table ∧
    ∀ slot task, slot ≠ 0 → table slot = some task →
      task.state = .running → task.counter = 0

/-- New counters do not leave the range of `long`. -/
def Roomy (table : Table) : Prop :=
  ∀ slot task, slot ≠ 0 → table slot = some task →
    task.counter / 2 + task.priority < 2 ^ 31

section Schedule

variable {table : Table}

theorem select_eq_zero_iff
    (fair : Fair table) :
    (select table).1 = 0 ↔ Exhausted table := by
  obtain ⟨bounds, nothing | ⟨slot, task, later, present, running, _,
    chosen⟩⟩ := select_spec table
  · constructor
    · intro zero
      simp [nothing] at zero
    · rintro ⟨⟨slot, task, later, present, running⟩, _⟩
      have bound := bounds slot task later present running
      have positive := (fair slot task present).counter
      simp only [nothing] at bound
      omega
  · constructor
    · intro zero
      refine ⟨⟨slot, task, later, present, running⟩, ?_⟩
      intro other task' later' present' running'
      have bound := bounds other task' later' present' running'
      have positive := (fair other task' present').counter
      omega
    · rintro ⟨_, none⟩
      simp [chosen, none slot task later present running]

/-- A choice of task 0 leaves no other task that can run. -/
theorem select_ne_idle
    (fair : Fair table)
    (runs : SomeRuns table) :
    (select table).2 ≠ 0 := by
  obtain ⟨slot, task, later, present, running⟩ := runs
  obtain ⟨bounds, nothing | ⟨other, task', later', _, _, _, chosen⟩⟩ :=
    select_spec table
  · have bound := bounds slot task later present running
    have positive := (fair slot task present).counter
    simp only [nothing] at bound
    omega
  · simp [chosen, later']

theorem refill_some
    {slot : Slot} {task : Task}
    (refilled : refill table slot = some task) :
    ∃ task', table slot = some task' ∧
      task.priority = task'.priority ∧ task.state = task'.state ∧
      ((slot = 0 ∧ task = task') ∨
        (slot ≠ 0 ∧
          task.counter = long (task'.counter / 2 + task'.priority))) := by
  by_cases first : slot = 0
  · simp only [refill, if_pos first] at refilled
    exact ⟨task, refilled, rfl, rfl, Or.inl ⟨first, rfl⟩⟩
  · simp only [refill, if_neg first, Option.map_eq_some_iff] at refilled
    obtain ⟨task', present, rfl⟩ := refilled
    exact ⟨task', present, rfl, rfl, Or.inr ⟨first, rfl⟩⟩

theorem refill_present
    {slot : Slot} {task : Task}
    (later : slot ≠ 0)
    (present : table slot = some task) :
    refill table slot =
      some { task with
        counter := long (task.counter / 2 + task.priority) } := by
  simp [refill, later, present]

theorem Fair.refill
    (fair : Fair table)
    (ranged : Ranged table)
    (roomy : Roomy table) :
    Fair (refill table) ∧ Ranged (refill table) := by
  constructor
  · intro slot task refilled
    obtain ⟨task', present, priority, _, ⟨_, rfl⟩ | ⟨later, counter⟩⟩ :=
      refill_some refilled
    · exact fair slot task present
    · have was := fair slot task' present
      have room := roomy slot task' later present
      have positive := was.counter
      have atLeast := was.priority
      refine ⟨priority ▸ atLeast, ?_⟩
      rw [counter, long_eq_self (by omega) room]
      omega
  · intro slot task refilled
    obtain ⟨task', present, priority, _, ⟨_, rfl⟩ | ⟨_, counter⟩⟩ :=
      refill_some refilled
    · exact ranged slot task present
    · exact ⟨priority ▸ (ranged slot task' present).1, counter ▸ (long_range _).2⟩

/-- A counter that leaves the range becomes negative. -/
theorem Fair.not_refill
    (fair : Fair table)
    (ranged : Ranged table)
    (full : ¬ Roomy table) :
    ¬ Fair (Tasks.refill table) := by
  intro again
  apply full
  intro slot task later present
  have was := fair slot task present
  have range := ranged slot task present
  have now := (again slot _ (refill_present later present)).counter
  by_contra high
  have negative : long (task.counter / 2 + task.priority) < 0 := by
    refine long_neg (Int.not_lt.mp high) ?_
    omega
  exact absurd now (Int.not_le.mpr negative)

/-- After one filling up the loop of `schedule` ends. -/
theorem select_refill
    (fair : Fair table)
    (ranged : Ranged table)
    (exhausted : Exhausted table) :
    (select (refill table)).1 ≠ 0 := by
  obtain ⟨⟨slot, task, later, present, running⟩, empty⟩ := exhausted
  have priority := (fair slot task present).priority
  have range := (ranged slot task present).1
  have zero := empty slot task later present running
  have bound :=
    (select_spec (refill table)).1 slot _ later
      (refill_present later present) running
  simp only [zero] at bound
  rw [long_eq_self (by omega) (by omega)] at bound
  omega

/-- What the `while` loop does, with any bound that is not too small. -/
theorem scheduler_spec
    (fair : Fair table)
    (ranged : Ranged table)
    (turns : Nat) :
    (¬ Exhausted table ∧
        scheduler (turns + 2) table = some (table, (select table).2)) ∨
      (Exhausted table ∧
        scheduler (turns + 2) table =
          some (refill table, (select (refill table)).2)) := by
  by_cases exhausted : Exhausted table
  · have zero := (select_eq_zero_iff fair).mpr exhausted
    have ends := select_refill fair ranged exhausted
    refine Or.inr ⟨exhausted, ?_⟩
    simp [scheduler, zero, ends]
  · have ends : (select table).1 ≠ 0 :=
      fun zero => exhausted ((select_eq_zero_iff fair).mp zero)
    refine Or.inl ⟨exhausted, ?_⟩
    simp [scheduler, ends]

end Schedule

/-! ## What one step does -/

theorem Task.checkSignals_counter
    (jiffies : Int)
    (task : Task) :
    (task.checkSignals jiffies).counter = task.counter ∧
      (task.checkSignals jiffies).priority = task.priority := by
  unfold Task.checkSignals
  dsimp only
  split <;> split <;> exact ⟨rfl, rfl⟩

/-- The invariant: the claim, and that the numbers are in the range of `long`. -/
structure Cpu.Sound (cpu : Cpu) : Prop where
  fair : Fair cpu.table
  ranged : Ranged cpu.table

/-- What a change of one task has to keep. -/
def Task.Keeps (task task' : Task) : Prop :=
  task.Fair → task.priority < 2 ^ 31 → task.counter < 2 ^ 31 →
    task'.Fair ∧ task'.priority < 2 ^ 31 ∧ task'.counter < 2 ^ 31

theorem Cpu.Sound.setSlot
    {cpu : Cpu}
    (sound : cpu.Sound)
    (slot : Slot)
    (value : Option Task)
    (kept :
      ∀ task, value = some task →
        task.Fair ∧ task.priority < 2 ^ 31 ∧ task.counter < 2 ^ 31) :
    (cpu.setSlot slot value).Sound := by
  constructor
  · intro other task present
    by_cases same : other = slot
    · subst same
      exact (kept task (by simpa [Cpu.setSlot] using present)).1
    · exact sound.fair other task (by simpa [Cpu.setSlot, same] using present)
  · intro other task present
    by_cases same : other = slot
    · subst same
      exact (kept task (by simpa [Cpu.setSlot] using present)).2
    · exact sound.ranged other task
        (by simpa [Cpu.setSlot, same] using present)

theorem Cpu.Sound.change
    {cpu : Cpu}
    (sound : cpu.Sound)
    (slot : Slot)
    {change : Task → Task}
    (keeps : ∀ task : Task, task.Keeps (change task)) :
    (cpu.change slot change).Sound := by
  refine sound.setSlot slot ((cpu.table slot).map change) ?_
  intro task changed
  obtain ⟨task', present, rfl⟩ := Option.map_eq_some_iff.mp changed
  obtain ⟨priority, counter⟩ := sound.ranged slot task' present
  exact keeps task' (sound.fair slot task' present) priority counter

theorem keeps_others
    {task task' : Task}
    (samePriority : task'.priority = task.priority)
    (sameCounter : task'.counter = task.counter) :
    task.Keeps task' := by
  intro fair priority counter
  exact ⟨⟨samePriority ▸ fair.priority, sameCounter ▸ fair.counter⟩,
    samePriority ▸ priority, sameCounter ▸ counter⟩

theorem keeps_doTimer
    (cpl : Bool)
    (task : Task) :
    task.Keeps (doTimer cpl task).1 := by
  intro fair priority _
  have same :
      (doTimer cpl task).1.priority = task.priority ∧
        ((doTimer cpl task).1.counter = 0 ∨
          (0 < (doTimer cpl task).1.counter ∧
            (doTimer cpl task).1.counter = long (task.counter - 1))) := by
    by_cases left : 0 < long (task.counter - 1)
    · cases cpl <;> simp [doTimer, left]
    · cases cpl <;> simp [doTimer, left]
  have range := long_range (task.counter - 1)
  have atLeast := fair.priority
  rcases same with ⟨samePriority, none | ⟨some, value⟩⟩
  · exact ⟨⟨by omega, by omega⟩, by omega, by omega⟩
  · exact ⟨⟨by omega, by omega⟩, by omega, by omega⟩

theorem keeps_sysNice
    (increment : Int)
    (task : Task) :
    task.Keeps (sysNice increment task).2 := by
  intro fair priority counter
  have range := long_range (task.priority - increment)
  have notNegative := fair.counter
  by_cases positive : 0 < long (task.priority - increment)
  · simp only [sysNice, if_pos positive]
    exact ⟨⟨positive, notNegative⟩, range.2, counter⟩
  · simp only [sysNice, if_neg positive]
    exact ⟨fair, priority, counter⟩

theorem Cpu.Sound.checked
    {cpu : Cpu}
    (sound : cpu.Sound) :
    Fair (checkSignals cpu.jiffies cpu.table) ∧
      Ranged (checkSignals cpu.jiffies cpu.table) := by
  have same :
      ∀ slot task, checkSignals cpu.jiffies cpu.table slot = some task →
        ∃ task', cpu.table slot = some task' ∧
          task.counter = task'.counter ∧ task.priority = task'.priority := by
    intro slot task present
    by_cases first : slot = 0
    · simp only [checkSignals, if_pos first] at present
      exact ⟨task, present, rfl, rfl⟩
    · simp only [checkSignals, if_neg first, Option.map_eq_some_iff]
        at present
      obtain ⟨task', present, rfl⟩ := present
      obtain ⟨counter, priority⟩ :=
        Task.checkSignals_counter cpu.jiffies task'
      exact ⟨task', present, counter, priority⟩
  constructor
  · intro slot task present
    obtain ⟨task', was, counter, priority⟩ := same slot task present
    have fair := sound.fair slot task' was
    exact ⟨priority ▸ fair.priority, counter ▸ fair.counter⟩
  · intro slot task present
    obtain ⟨task', was, counter, priority⟩ := same slot task present
    have ranged := sound.ranged slot task' was
    exact ⟨priority ▸ ranged.1, counter ▸ ranged.2⟩

/--
When `schedule` fills the counters up, because some task can run and none that can
run has time left, the new counters are in the range of `long`.
-/
def RoomyAt (action : Action) (cpu : Cpu) : Prop :=
  match action with
  | .schedule =>
    Exhausted (checkSignals cpu.jiffies cpu.table) →
      Roomy (checkSignals cpu.jiffies cpu.table)
  | _ => True

/-- `schedule` returns, whatever the bound for its turns, if that is at least two. -/
theorem schedule_returns
    {cpu : Cpu}
    (sound : cpu.Sound) :
    ∃ result, ∀ turns,
      schedule (turns + 2) cpu.jiffies cpu.table = some result := by
  obtain ⟨fair, ranged⟩ := sound.checked
  generalize checked : checkSignals cpu.jiffies cpu.table = table at *
  by_cases exhausted : Exhausted table
  · refine ⟨(refill table, (select (refill table)).2), fun turns => ?_⟩
    rcases scheduler_spec fair ranged turns with ⟨enough, _⟩ | ⟨_, ends⟩
    · exact absurd exhausted enough
    · simpa [schedule, checked] using ends
  · refine ⟨(table, (select table).2), fun turns => ?_⟩
    rcases scheduler_spec fair ranged turns with ⟨_, ends⟩ | ⟨used, _⟩
    · simpa [schedule, checked] using ends
    · exact absurd used exhausted

/-- What a call of `schedule` that has room does. -/
theorem Cpu.Sound.schedules
    {cpu after : Cpu}
    (sound : cpu.Sound)
    (stepped : Step .schedule cpu after)
    (roomy : RoomyAt .schedule cpu) :
    after.Sound ∧ (SomeRuns after.table → after.current ≠ 0) := by
  obtain ⟨fair, ranged⟩ := sound.checked
  obtain ⟨result, scheduled, rfl⟩ := Option.map_eq_some_iff.mp stepped
  rcases scheduler_spec fair ranged 0 with ⟨_, ends⟩ | ⟨exhausted, ends⟩
  · cases scheduled.symm.trans ends
    exact ⟨⟨fair, ranged⟩, fun runs => select_ne_idle fair runs⟩
  · cases scheduled.symm.trans ends
    obtain ⟨fair', ranged'⟩ := fair.refill ranged (roomy exhausted)
    exact ⟨⟨fair', ranged'⟩, fun runs => select_ne_idle fair' runs⟩

/-- A call of `schedule` without room leaves a negative counter. -/
theorem Cpu.Sound.overflows
    {cpu after : Cpu}
    (sound : cpu.Sound)
    (stepped : Step .schedule cpu after)
    (full : ¬ RoomyAt .schedule cpu) :
    ¬ Fair after.table := by
  obtain ⟨fair, ranged⟩ := sound.checked
  obtain ⟨result, scheduled, rfl⟩ := Option.map_eq_some_iff.mp stepped
  simp only [RoomyAt, Classical.not_imp] at full
  rcases scheduler_spec fair ranged 0 with ⟨enough, _⟩ | ⟨_, ends⟩
  · exact absurd full.1 enough
  · cases scheduled.symm.trans ends
    exact fair.not_refill ranged full.2

theorem Cpu.Sound.step
    {cpu after : Cpu} {action : Action}
    (sound : cpu.Sound)
    (stepped : Step action cpu after)
    (roomy : RoomyAt action cpu) :
    after.Sound := by
  cases action with
  | tick cpl =>
    cases stepped
    exact ⟨(sound.change _ (keeps_doTimer cpl)).fair,
      (sound.change _ (keeps_doTimer cpl)).ranged⟩
  | schedule =>
    exact (sound.schedules stepped roomy).1
  | sleep state =>
    cases stepped
    exact sound.change _ fun _ => keeps_others rfl rfl
  | wake slot =>
    cases stepped
    exact sound.change _ fun _ => keeps_others rfl rfl
  | signal slot signr =>
    cases stepped
    exact sound.change _ fun _ => keeps_others rfl rfl
  | block mask =>
    cases stepped
    exact sound.change _ fun _ => keeps_others rfl rfl
  | alarm time =>
    cases stepped
    exact sound.change _ fun _ => keeps_others rfl rfl
  | nice increment =>
    cases stepped
    exact sound.change _ (keeps_sysNice increment)
  | fork slot pid =>
    simp only [Step, Tasks.step] at stepped
    split at stepped
    · rename_i parent _ present
      cases stepped
      refine sound.setSlot slot _ ?_
      intro task same
      cases same
      have fair := sound.fair _ parent present
      have ranged := sound.ranged _ parent present
      exact ⟨⟨fair.priority, Int.le_trans (by decide) fair.priority⟩,
        ranged.1, ranged.1⟩
    · cases stepped
  | release slot =>
    cases stepped
    exact sound.setSlot slot none fun _ never => nomatch never

/-! ## Runs without starvation -/

/-- A run in which every filling up has room. -/
def RoomyRun (actions : List Action) (start cpu : Cpu) : Prop :=
  Traces (fun action before after =>
    Step action before after ∧ RoomyAt action before) actions start cpu

theorem booted_sound
    {cpu : Cpu}
    (starts : cpu.table = booted) :
    cpu.Sound := by
  have only :
      ∀ slot task, cpu.table slot = some task → task = initTask := by
    intro slot task present
    simp only [starts, booted] at present
    split at present
    · exact (Option.some.inj present).symm
    · cases present
  constructor
  · intro slot task present
    rw [only slot task present]
    exact ⟨by decide, by decide⟩
  · intro slot task present
    rw [only slot task present]
    exact ⟨by decide, by decide⟩

theorem RoomyRun.sound
    {actions : List Action} {start cpu : Cpu}
    (run : RoomyRun actions start cpu)
    (starts : start.table = booted) :
    cpu.Sound :=
  run.invariant
    (fun _ _ _ sound stepped => sound.step stepped.1 stepped.2)
    (booted_sound starts)

/--
Priorities stay positive and counters do not become negative exactly in the runs in
which every filling up has room.  In such a run `schedule` returns, and where it has
room it chooses task 0 only if no other task can run.
-/
theorem fair_iff_roomy
    {actions : List Action} {start cpu : Cpu}
    (starts : start.table = booted)
    (run : Traces Step actions start cpu) :
    (Traces.Along Step (fun cpu => Fair cpu.table) actions start cpu ↔
      RoomyRun actions start cpu) ∧
    (RoomyRun actions start cpu →
      (∃ result, ∀ turns, schedule (turns + 2) cpu.jiffies cpu.table = some result) ∧
      ∀ after, Step .schedule cpu after → RoomyAt .schedule cpu →
        SomeRuns after.table → after.current ≠ 0) := by
  constructor
  · refine run.along_iff ?_ (fun _ sound => sound.fair)
      (fun _ _ _ sound stepped roomy => sound.step stepped roomy) ?_
      (booted_sound starts)
    · intro action before first second stepped again
      exact Option.some.inj (stepped.symm.trans again)
    · intro action before after sound stepped full
      cases action with
      | schedule =>
        exact sound.overflows stepped full
      | _ =>
        exact absurd trivial full
  · intro roomyRun
    have sound := roomyRun.sound starts
    refine ⟨schedule_returns sound, ?_⟩
    intro after stepped roomy
    exact (sound.schedules stepped roomy).2

/-! ## Runs with moderate priorities -/

/-- No priority is above `2 ^ 30`. -/
def Moderate (table : Table) : Prop :=
  ∀ slot task, table slot = some task → task.priority ≤ 2 ^ 30

/-- A call of `sys_nice` that does not raise a priority above `2 ^ 30`. -/
def ModerateAt (action : Action) (cpu : Cpu) : Prop :=
  match action with
  | .nice increment =>
    ∀ task, cpu.table cpu.current = some task →
      (sysNice increment task).2.priority ≤ 2 ^ 30
  | _ => True

theorem Moderate.setSlot
    {cpu : Cpu}
    (moderate : Moderate cpu.table)
    (slot : Slot)
    (value : Option Task)
    (kept : ∀ task, value = some task → task.priority ≤ 2 ^ 30) :
    Moderate (cpu.setSlot slot value).table := by
  intro other task present
  by_cases same : other = slot
  · subst same
    exact kept task (by simpa [Cpu.setSlot] using present)
  · exact moderate other task (by simpa [Cpu.setSlot, same] using present)

theorem Moderate.change
    {cpu : Cpu}
    (moderate : Moderate cpu.table)
    (slot : Slot)
    {change : Task → Task}
    (same : ∀ task, (change task).priority = task.priority) :
    Moderate (cpu.change slot change).table := by
  refine moderate.setSlot slot _ ?_
  intro task changed
  obtain ⟨task', present, rfl⟩ := Option.map_eq_some_iff.mp changed
  rw [same]
  exact moderate slot task' present

theorem Moderate.checked
    {table : Table}
    (moderate : Moderate table)
    (jiffies : Int) :
    Moderate (checkSignals jiffies table) := by
  intro slot task present
  by_cases first : slot = 0
  · simp only [checkSignals, if_pos first] at present
    exact moderate slot task present
  · simp only [checkSignals, if_neg first, Option.map_eq_some_iff]
      at present
    obtain ⟨task', present, rfl⟩ := present
    rw [(Task.checkSignals_counter jiffies task').2]
    exact moderate slot task' present

theorem Moderate.refill
    {table : Table}
    (moderate : Moderate table) :
    Moderate (refill table) := by
  intro slot task refilled
  obtain ⟨task', present, priority, _⟩ := refill_some refilled
  rw [priority]
  exact moderate slot task' present

theorem Moderate.roomyAt
    {cpu : Cpu}
    (moderate : Moderate cpu.table)
    (sound : cpu.Sound)
    (action : Action) :
    RoomyAt action cpu := by
  cases action with
  | schedule =>
    intro _ slot task _ present
    have priority := moderate.checked cpu.jiffies slot task present
    have counter := (sound.checked.2 slot task present).2
    omega
  | _ =>
    trivial

theorem Moderate.step
    {cpu after : Cpu} {action : Action}
    (moderate : Moderate cpu.table)
    (sound : cpu.Sound)
    (stepped : Step action cpu after)
    (met : ModerateAt action cpu) :
    Moderate after.table := by
  cases action with
  | tick cpl =>
    cases stepped
    refine moderate.change cpu.current fun task => ?_
    unfold doTimer
    dsimp only
    split_ifs <;> rfl
  | schedule =>
    obtain ⟨fair, ranged⟩ := sound.checked
    have checked := moderate.checked cpu.jiffies
    obtain ⟨result, scheduled, rfl⟩ := Option.map_eq_some_iff.mp stepped
    rcases scheduler_spec fair ranged 0 with ⟨_, ends⟩ | ⟨_, ends⟩
    · cases scheduled.symm.trans ends
      exact checked
    · cases scheduled.symm.trans ends
      exact checked.refill
  | nice increment =>
    cases stepped
    refine moderate.setSlot _ _ ?_
    intro task changed
    obtain ⟨task', present, rfl⟩ := Option.map_eq_some_iff.mp changed
    exact met task' present
  | fork slot pid =>
    simp only [Step, Tasks.step] at stepped
    split at stepped
    · rename_i parent _ present
      cases stepped
      refine moderate.setSlot slot _ ?_
      intro task same
      cases same
      exact moderate _ parent present
    · cases stepped
  | release slot =>
    cases stepped
    exact moderate.setSlot slot none fun _ never => nomatch never
  | _ =>
    cases stepped
    exact moderate.change _ fun _ => rfl

/--
Without large priorities no counter becomes negative, `schedule` returns, and it
chooses task 0 only if no other task can run.
-/
theorem moderate_never_starves
    {actions : List Action} {start cpu : Cpu}
    (starts : start.table = booted)
    (run :
      Traces (fun action before after =>
        Step action before after ∧ ModerateAt action before)
        actions start cpu) :
    Fair cpu.table ∧
      ∃ result,
        (∀ turns, schedule (turns + 2) cpu.jiffies cpu.table = some result) ∧
          Fair result.1 ∧ (SomeRuns result.1 → result.2 ≠ 0) := by
  have initially : Moderate start.table := by
    intro slot task present
    simp only [starts, booted] at present
    split at present
    · cases present
      decide
    · cases present
  obtain ⟨sound, moderate⟩ : cpu.Sound ∧ Moderate cpu.table := by
    apply run.invariant
    · rintro action before after ⟨sound, moderate⟩ ⟨stepped, met⟩
      exact ⟨sound.step stepped (moderate.roomyAt sound action),
        moderate.step sound stepped met⟩
    · exact ⟨booted_sound starts, initially⟩
  obtain ⟨result, returned⟩ := schedule_returns sound
  have stepped :
      Step .schedule cpu { cpu with table := result.1, current := result.2 } := by
    simp only [Step, step, returned 0, Option.map_some]
  obtain ⟨after, chosen⟩ :=
    sound.schedules stepped (moderate.roomyAt sound .schedule)
  exact ⟨sound.fair, result, returned, after.fair, chosen⟩

/-- The machine after `sched_init`. -/
def bootedCpu : Cpu where
  table := booted
  current := 0
  jiffies := 0

/-- Task 1 makes its priority a small one, forks, and takes `increment` off it. -/
def niceRun (increment : Int) : List Action :=
  [.fork 1 1, .schedule, .nice 14, .fork 2 2, .nice increment,
    .sleep .interruptible, .schedule, .tick true]

/-- A priority that is not raised too far, checked. -/
def isModerate (action : Action) (cpu : Cpu) : Bool :=
  match action with
  | .nice increment =>
    (cpu.table cpu.current).all fun task =>
      decide ((sysNice increment task).2.priority ≤ 2 ^ 30)
  | _ => true

theorem moderateAt_of_isModerate
    (action : Action)
    (cpu : Cpu)
    (passed : isModerate action cpu = true) :
    ModerateAt action cpu := by
  unfold ModerateAt
  split
  · intro task present
    simpa [isModerate, present] using passed
  · trivial

/-- Task 1 and its child change their priorities; the child can run and is chosen. -/
theorem moderate_never_starves_nice :
    ∃ cpu result, Traces Step (niceRun (-9)) bootedCpu cpu ∧
      schedule 2 cpu.jiffies cpu.table = some result ∧
      SomeRuns result.1 ∧ result.2 ≠ 0 := by
  have passed :
      ((Traces.runIf step isModerate (niceRun (-9)) bootedCpu).any fun cpu =>
        (schedule 2 cpu.jiffies cpu.table).any fun result =>
          (result.1 2).any fun task => decide (task.state = .running)) = true := by
    decide +kernel
  obtain ⟨cpu, run, rest⟩ := Traces.exists_of_any moderateAt_of_isModerate passed
  simp only [Option.any_eq_true, decide_eq_true_eq] at rest
  obtain ⟨result, scheduled, task, present, running⟩ := rest
  obtain ⟨_, _, returned, _, chosen⟩ := moderate_never_starves rfl run
  cases scheduled.symm.trans (returned 0)
  have runs : SomeRuns result.1 := ⟨2, task, by decide, present, running⟩
  exact ⟨cpu, result, run.mono fun _ _ _ stepped => stepped.1, returned 0, runs, chosen runs⟩

/-! ## A priority without an upper bound -/

/-- The claim: nothing is negative, and only an idle machine runs task 0. -/
def NeverStarves : Prop :=
  ∀ actions start cpu,
    start.table = booted →
    Traces Step actions start cpu →
      Fair cpu.table ∧
        ∀ after, Step .schedule cpu after → SomeRuns after.table → after.current ≠ 0

/-- Task 1 can run and task 0 has been chosen. -/
def isIdle (cpu : Cpu) : Bool :=
  cpu.current == 0 &&
    (cpu.table 1).any fun task => decide (task.state = .running)

/--
Task 1 has half of its time left when the counters are filled up: its new counter is
`7 + (2 ^ 31 - 1)`, which is negative, and it is never chosen again.
-/
theorem not_neverStarves : ¬ NeverStarves := by
  intro neverStarves
  have passed :
      ((Traces.runIf step (fun _ _ => true)
        (niceRun (-(2 ^ 31 - 2)) ++ [.schedule, .wake 1, .sleep .interruptible])
        bootedCpu).any fun cpu =>
          ((step .schedule cpu).any isIdle)) = true := by
    decide +kernel
  obtain ⟨cpu, run, idles⟩ := Traces.exists_of_run passed
  obtain ⟨after, stepped, idle⟩ := (Option.any_eq_true _ _).mp idles
  simp only [isIdle, Bool.and_eq_true, beq_iff_eq, Option.any_eq_true,
    decide_eq_true_eq] at idle
  obtain ⟨current, task, present, running⟩ := idle
  exact (neverStarves _ _ _ rfl run).2 after stepped
    ⟨1, task, by decide, present, running⟩ current

/-- A filling up that has room, checked. -/
def isRoomy (action : Action) (cpu : Cpu) : Bool :=
  match action with
  | .schedule =>
    decide (∀ slot : Slot, slot ≠ 0 →
      ((checkSignals cpu.jiffies cpu.table slot).all fun task =>
        decide (task.counter / 2 + task.priority < 2 ^ 31)) = true)
  | _ => true

theorem roomyAt_of_isRoomy
    (action : Action)
    (cpu : Cpu)
    (passed : isRoomy action cpu = true) :
    RoomyAt action cpu := by
  cases action with
  | schedule =>
    intro _ slot task later present
    have all := of_decide_eq_true passed slot later
    simpa [present] using all
  | _ =>
    trivial

/-- With a smaller step of `sys_nice` task 1 gets a larger counter. -/
theorem fair_iff_roomy_nice :
    ∃ cpu after,
      RoomyRun (niceRun (-9)) bootedCpu cpu ∧
      Traces.Along Step (fun cpu => Fair cpu.table) (niceRun (-9))
        bootedCpu cpu ∧
      Step .schedule cpu after ∧ after.current ≠ 0 := by
  have passed :
      ((Traces.runIf step isRoomy (niceRun (-9)) bootedCpu).any fun cpu =>
        isRoomy .schedule cpu &&
          (step .schedule cpu).any fun after =>
            (after.table 2).any fun task =>
              decide (task.state = .running)) = true := by
    decide +kernel
  obtain ⟨cpu, run, rest⟩ := Traces.exists_of_any roomyAt_of_isRoomy passed
  simp only [Bool.and_eq_true, Option.any_eq_true, decide_eq_true_eq]
    at rest
  obtain ⟨roomy, after, stepped, task, present, running⟩ := rest
  have plain := run.mono fun _ _ _ stepped => stepped.1
  obtain ⟨exactly, schedules⟩ := fair_iff_roomy rfl plain
  exact ⟨cpu, after, run, exactly.mpr run, stepped,
    (schedules run).2 after stepped (roomyAt_of_isRoomy _ _ roomy)
      ⟨2, task, by decide, present, running⟩⟩

end Tasks

end HitOs
