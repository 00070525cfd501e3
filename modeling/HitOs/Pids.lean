import HitOs.Search
import HitOs.Scheduling
import Mathlib.Data.Fintype.Card

namespace HitOs

/-!
# Process numbers

`find_empty_process` steps `last_pid`, which starts again at 1 after the largest
`long`, until no task has that number, and then looks for an empty slot.
-/

namespace Tasks

/-- `if ((++last_pid)<0) last_pid=1` -/
def nextPid (lastPid : Int) : Int :=
  if long (lastPid + 1) < 0 then 1 else long (lastPid + 1)

/-- The loop at `repeat`, with a bound for its turns. -/
def findPid (table : Table) (turns : Nat) (lastPid : Int) : Option Int :=
  search nextPid
    (fun pid => ∃ slot, (table slot).any (fun task => task.pid == pid) = true)
    turns lastPid

/-- The slot, or `none` for `-EAGAIN`, and the new `last_pid`. -/
def findEmptyProcess
    (table : Table)
    (turns : Nat)
    (lastPid : Int) : Option (Option Slot × Int) :=
  (findPid table turns lastPid).map fun pid =>
    ((List.finRange nrTasks).tail.find? fun slot => (table slot).isNone, pid)

/-- A value of `last_pid`. -/
structure LastPid (value : Int) : Prop where
  low : 0 ≤ value
  high : value < 2 ^ 31

/-- A number that a task can get from it. -/
structure Pid (value : Int) : Prop where
  low : 1 ≤ value
  high : value < 2 ^ 31

theorem Pid.lastPid
    {value : Int}
    (pid : Pid value) :
    LastPid value :=
  ⟨Int.le_trans (by decide) pid.low, pid.high⟩

section Search

variable {table : Table} {lastPid pid : Int}

/-- The number of a live task. -/
def LivePid (table : Table) (pid : Int) : Prop :=
  ∃ slot task, table slot = some task ∧ task.pid = pid

theorem livePid_iff :
    LivePid table pid ↔
      ∃ slot, (table slot).any (fun task => task.pid == pid) = true := by
  simp only [LivePid, Option.any_eq_true, beq_iff_eq]

/-- The largest `long` is followed by 1. -/
theorem nextPid_eq
    (ranged : LastPid lastPid) :
    nextPid lastPid = lastPid % (2 ^ 31 - 1) + 1 := by
  by_cases last : lastPid = 2 ^ 31 - 1
  · subst last
    decide
  · obtain ⟨low, high⟩ := ranged
    have same : long (lastPid + 1) = lastPid + 1 :=
      long_eq_self (by omega) (by omega)
    have positive : ¬ lastPid + 1 < 0 := by omega
    rw [nextPid, same, if_neg positive, Int.emod_eq_of_lt low (by omega)]

theorem nextPid_pid
    (lastPid : Int)
    (ranged : LastPid lastPid) :
    Pid (nextPid lastPid) := by
  rw [nextPid_eq ranged]
  constructor
  · omega
  · omega

theorem iterate_nextPid
    (ranged : LastPid lastPid)
    (count : Nat) :
    nextPid^[count + 1] lastPid = (lastPid + count) % (2 ^ 31 - 1) + 1 := by
  induction count with
  | zero =>
    simpa using nextPid_eq ranged
  | succ count inductionHypothesis =>
    have again : LastPid ((lastPid + count) % (2 ^ 31 - 1) + 1) :=
      ⟨by omega, by omega⟩
    rw [Function.iterate_succ_apply', inductionHypothesis, nextPid_eq again]
    push_cast
    omega

/-- As many numbers in a row as the loop can need are all different. -/
theorem iterate_nextPid_injective
    (ranged : LastPid lastPid)
    {first second : Nat}
    (firstSmall : first < 65)
    (secondSmall : second < 65)
    (same : nextPid^[first + 1] lastPid = nextPid^[second + 1] lastPid) :
    first = second := by
  rw [iterate_nextPid ranged, iterate_nextPid ranged] at same
  omega

/-- There are at most as many live numbers as slots. -/
theorem exists_livePids
    (table : Table) :
    ∃ taken : Finset Int,
      taken.card < 65 ∧ ∀ pid, LivePid table pid → pid ∈ taken := by
  refine ⟨Finset.univ.image
    fun slot => ((table slot).map Task.pid).getD 0, ?_, ?_⟩
  · refine Nat.lt_of_le_of_lt Finset.card_image_le ?_
    rw [Finset.card_univ, Fintype.card_fin]
    decide
  · rintro pid ⟨slot, task, present, rfl⟩
    refine Finset.mem_image.mpr ⟨slot, Finset.mem_univ slot, ?_⟩
    rw [present]
    rfl

/-- The loop ends, with a number that no task has. -/
theorem findPid_spec
    (table : Table)
    (ranged : LastPid lastPid) :
    ∃ pid,
      (∀ turns, 65 ≤ turns → findPid table turns lastPid = some pid) ∧
      Pid pid ∧ ¬ LivePid table pid := by
  obtain ⟨taken, small, covers⟩ := exists_livePids table
  have ends : ∃ pid, findPid table 65 lastPid = some pid :=
    Search.exists_eq_some taken
      (fun pid used => covers pid (livePid_iff.mpr used)) small
      (fun _ _ => iterate_nextPid_injective ranged)
  obtain ⟨pid, found⟩ := ends
  refine ⟨pid, ?_,
    Search.of_next nextPid_pid (fun _ => Pid.lastPid) found ranged,
    fun live => Search.not_used found (livePid_iff.mp live)⟩
  intro turns enough
  obtain ⟨further, rfl⟩ := Nat.exists_eq_add_of_le' enough
  exact Search.more found further

/-- `find_empty_process` returns; it fails if there is no empty slot. -/
theorem findEmptyProcess_spec
    (table : Table)
    (ranged : LastPid lastPid) :
    ∃ slot pid,
      (∀ turns, 65 ≤ turns → findEmptyProcess table turns lastPid = some (slot, pid)) ∧
      Pid pid ∧ ¬ LivePid table pid ∧
      (∀ empty, slot = some empty → empty ≠ 0 ∧ table empty = none) ∧
      (slot = none ↔ ∀ used, used ≠ 0 → table used ≠ none) := by
  obtain ⟨pid, found, isPid, fresh⟩ := findPid_spec table ranged
  refine ⟨(List.finRange nrTasks).tail.find? fun slot => (table slot).isNone,
    pid, ?_, isPid, fresh, ?_, ?_⟩
  · intro turns enough
    rw [findEmptyProcess, found turns enough]
    rfl
  · intro empty chosen
    have isNone := List.find?_some chosen
    have later := List.mem_of_find?_eq_some chosen
    exact ⟨mem_laterSlots.mp (List.mem_reverse.mpr later),
      Option.isNone_iff_eq_none.mp isNone⟩
  · rw [List.find?_eq_none]
    constructor
    · intro full used later empty
      refine full used ?_ (Option.isNone_iff_eq_none.mpr empty)
      exact List.mem_reverse.mp (mem_laterSlots.mpr later)
    · intro full used member empty
      exact full used (mem_laterSlots.mp (List.mem_reverse.mpr member))
        (Option.isNone_iff_eq_none.mp empty)

/-- The first fork makes task 1 with number 1. -/
theorem findEmptyProcess_boot
    {task : Task}
    (present : table 0 = some task)
    (idle : task.pid = 0)
    (empty : ∀ slot, slot ≠ 0 → table slot = none) :
    findEmptyProcess table 65 0 = some (some 1, 1) := by
  have next : nextPid 0 = 1 := by decide
  have unused :
      ¬ ∃ slot, (table slot).any (fun task => task.pid == 1) = true := by
    rintro ⟨slot, used⟩
    by_cases first : slot = 0
    · simp [first, present, idle] at used
    · simp [empty slot first] at used
  have found : findPid table 65 0 = some 1 := by
    simp only [findPid, search, next, if_neg unused]
  have slots :
      (List.finRange nrTasks).tail = 1 :: (List.finRange nrTasks).tail.tail := by
    decide
  have isNone : (table 1).isNone = true := by
    rw [empty 1 (by decide)]
    rfl
  rw [findEmptyProcess, found, slots]
  simp only [Option.map_some, List.find?_cons, isNone]

end Search

end Tasks

end HitOs
