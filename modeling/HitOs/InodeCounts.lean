import HitOs.InodeRuns
import Mathlib.Logic.Function.Iterate

namespace HitOs

/-!
# A count that passes its 16 bits

`iget` raises `i_count` without a test.  After 65536 references to one inode its
count is 0, and `get_empty_inode` chooses it.
-/

namespace Inodes

/-- The table in which one inode is used. -/
def usedTable (count : Nat) (last : Index) : Table where
  inode :=
    Function.update (fun _ => Inode.zero) 1
      { Inode.zero with dev := 1, num := 1, count := count, nlinks := 1 }
  last := last

/-- The next place that is not the used one. -/
def advance (last : Index) : Index :=
  if following last = 1 then 2 else following last

theorem advance_ne (last : Index) : advance last ≠ 1 := by
  unfold advance
  split
  · decide
  · assumption

theorem oneBusy_step
    {table : Table} {task : Task} {choice : Choice} {next : Table × Task}
    (acted : act (fun _ => none) choice table task = some next) :
    twoTasks.Step (false, choice) (oneBusy table task)
      (oneBusy next.1 next.2) := by
  unfold Program.Step Program.step twoTasks calling oneBusy
  simp only [Function.update_self]
  rw [acted]
  unfold World.moved
  simp only [Option.map_some, Function.update_idem]

variable {count : Nat} {last : Index} {held : List Index}

theorem usedTable_free
    {place : Index}
    (other : place ≠ 1) :
    (usedTable count last).inode place = Inode.zero := by
  unfold usedTable
  simp only
  rw [Function.update_of_ne other]

theorem search_usedTable
    (used : count ≠ 0) :
    search (usedTable count last) nrInode last none =
      (some (advance last), advance last) := by
  have taken : ((usedTable count last).inode 1).count ≠ 0 := used
  change search _ (30 + 1 + 1) last none = _
  unfold search advance
  by_cases atUsed : following last = 1
  · rw [if_pos atUsed, atUsed]
    simp only
    rw [if_neg taken]
    unfold search
    have isFree : (usedTable count last).inode 2 = Inode.zero :=
      usedTable_free (by decide)
    have next : following 1 = 2 := by decide
    rw [next]
    simp only
    rw [isFree]
    rfl
  · rw [if_neg atUsed]
    simp only
    rw [usedTable_free atUsed]
    rfl

/-- The table while the next place is taken for a while. -/
def busyTable (count : Nat) (last : Index) : Table :=
  (usedTable count (advance last)).set (advance last)
    { Inode.zero with count := 1 }

theorem scan_busyTable :
    scan (busyTable count last) 1 1 (advance last) held =
      (busyTable count last,
        { point := .matching 1 1 (advance last) 1, held := held }) := by
  have matched :
      (fun index =>
        ((busyTable count last).inode index).dev == 1 &&
          ((busyTable count last).inode index).num == 1) =
        fun index : Index => decide (index = 1) := by
    funext index
    unfold busyTable
    by_cases isEmpty : index = advance last
    · rw [isEmpty, set_self, decide_eq_false (advance_ne last)]
      rfl
    · rw [set_other isEmpty]
      by_cases isUsed : index = 1
      · subst isUsed
        rfl
      · rw [usedTable_free isUsed, decide_eq_false isUsed]
        rfl
  have found :
      (List.finRange nrInode).find? (fun index => decide (index = 1)) =
        some 1 := by
    decide
  unfold scan
  rw [matched, found]

/-- The table after the inode has been raised and the other place given back. -/
theorem lower_busyTable :
    ((busyTable count last).raise 1).lower (advance last) =
      usedTable ((count + 1) % 65536) (advance last) := by
  have same_last :
      (((busyTable count last).raise 1).lower (advance last)).last = advance last :=
    rfl
  have same_inode (index : Index) :
      (((busyTable count last).raise 1).lower (advance last)).inode index =
        (usedTable ((count + 1) % 65536) (advance last)).inode index := by
    unfold Table.lower Table.raise
    by_cases isEmpty : index = advance last
    · rw [isEmpty, set_self, set_other (advance_ne last),
        usedTable_free (advance_ne last)]
      unfold busyTable
      rw [set_self]
      rfl
    · rw [set_other isEmpty]
      by_cases isUsed : index = 1
      · subst isUsed
        rw [set_self]
        unfold busyTable
        rw [set_other isEmpty]
        rfl
      · rw [set_other isUsed, usedTable_free isUsed]
        unfold busyTable
        rw [set_other isEmpty]
        exact usedTable_free isUsed
  exact congrArg₂ Table.mk (funext same_inode) same_last

/-- The task has references to the inode and does nothing. -/
def holding
    (count references : Nat)
    (last : Index) : World Bool Table Task :=
  oneBusy (usedTable count last)
    { point := .idle, held := List.replicate references 1 }

variable {references : Nat}

theorem startEmpty_usedTable
    (used : count ≠ 0) :
    startEmpty (usedTable count last) 1 1 held =
      some (usedTable count (advance last),
        { point := .emptying 1 1 (advance last), held := held }) := by
  have stands : (usedTable count last).last = last := rfl
  unfold startEmpty
  rw [stands, search_usedTable used]
  rfl

theorem busyTable_used :
    (busyTable count last).inode 1 =
      { Inode.zero with dev := 1, num := 1, count := count, nlinks := 1 } := by
  unfold busyTable
  rw [set_other (advance_ne last).symm]
  rfl

theorem raised_empty :
    ((busyTable count last).raise 1).inode (advance last) =
      { Inode.zero with count := 1 } := by
  unfold Table.raise
  rw [set_other (advance_ne last)]
  unfold busyTable
  rw [set_self]

/-- `iget` of the inode once more. -/
theorem holding_get
    (used : count ≠ 0) :
    Traces twoTasks.Step
      [(false, .get 1 1), (false, .go), (false, .go), (false, .go)]
      (holding count references last)
      (holding ((count + 1) % 65536) (references + 1) (advance last)) := by
  have starts :
      act (fun _ => none) (.get 1 1) (usedTable count last)
          { point := .idle, held := List.replicate references 1 } =
        some (usedTable count (advance last),
          { point := .emptying 1 1 (advance last)
            held := List.replicate references 1 }) :=
    startEmpty_usedTable used
  have claims :
      act (fun _ => none) .go (usedTable count (advance last))
          { point := .emptying 1 1 (advance last)
            held := List.replicate references 1 } =
        some (busyTable count last,
          { point := .matching 1 1 (advance last) 1
            held := List.replicate references 1 }) := by
    unfold act
    simp only
    rw [usedTable_free (advance_ne last)]
    exact congrArg some scan_busyTable
  have raises :
      act (fun _ => none) .go (busyTable count last)
          { point := .matching 1 1 (advance last) 1
            held := List.replicate references 1 } =
        some ((busyTable count last).raise 1,
          { point := .putting (advance last) (.found 1)
            held := List.replicate references 1 }) := by
    unfold act
    simp only
    rw [busyTable_used]
    rfl
  have returns :
      act (fun _ => none) .go ((busyTable count last).raise 1)
          { point := .putting (advance last) (.found 1)
            held := List.replicate references 1 } =
        some (usedTable ((count + 1) % 65536) (advance last),
          { point := .idle, held := List.replicate (references + 1) 1 }) := by
    unfold act
    simp only
    rw [raised_empty, lower_busyTable]
    rfl
  exact .next (oneBusy_step starts) (.next (oneBusy_step claims)
    (.next (oneBusy_step raises) (.next (oneBusy_step returns) (.done _))))

/-- `iput` of one of the references. -/
theorem holding_put
    (more : 1 < count) :
    Traces twoTasks.Step [(false, .put 1), (false, .go)]
      (holding count (references + 1) last)
      (holding (count - 1) references last) := by
  have starts :
      act (fun _ => none) (.put 1) (usedTable count last)
          { point := .idle, held := List.replicate (references + 1) 1 } =
        some (usedTable count last,
          { point := .putting 1 .task
            held := List.replicate references 1 }) := by
    unfold act
    simp only
    rw [if_pos (List.mem_replicate.mpr ⟨Nat.succ_ne_zero _, rfl⟩)]
    rw [List.replicate_succ, List.erase_cons_head]
  have lowered :
      (usedTable count last).lower 1 = usedTable (count - 1) last := by
    unfold Table.lower Table.set usedTable
    simp only [Function.update_self, Function.update_idem]
  have returns :
      act (fun _ => none) .go (usedTable count last)
          { point := .putting 1 .task
            held := List.replicate references 1 } =
        some (usedTable (count - 1) last,
          { point := .idle, held := List.replicate references 1 }) := by
    have used : ((usedTable count last).inode 1).count = count := rfl
    have notZero : (count == 0) = false := beq_false_of_ne (by omega)
    unfold act repeatPut
    simp only
    rw [used, notZero, if_pos more, lowered]
    rfl
  exact .next (oneBusy_step starts) (.next (oneBusy_step returns) (.done _))

/-- References that come and go let `last_inode` go on. -/
theorem holding_moves (number : Nat) :
    ∃ labels, Traces twoTasks.Step labels (holding 1 1 last)
      (holding 1 1 (advance^[number] last)) := by
  apply Traces.turns fun turns => holding 1 1 (advance^[turns] last)
  intro turns _
  rw [Function.iterate_succ_apply']
  exact ⟨_, (holding_get Nat.one_ne_zero).append
    (holding_put Nat.one_lt_two)⟩

/-- References that stay raise the count up to where it wraps. -/
theorem holding_raises
    {number : Nat}
    (fits : number < 65536) :
    ∃ labels, Traces twoTasks.Step labels (holding 1 1 last)
      (holding ((number + 1) % 65536) (number + 1)
        (advance^[number] last)) := by
  apply Traces.turns fun turns =>
    holding ((turns + 1) % 65536) (turns + 1) (advance^[turns] last)
  intro turns before
  have inWord : (turns + 1) % 65536 = turns + 1 :=
    Nat.mod_eq_of_lt (by omega)
  have got :=
    @holding_get ((turns + 1) % 65536) (advance^[turns] last) (turns + 1)
      (by rw [inWord]; exact Nat.succ_ne_zero turns)
  rw [Nat.mod_add_mod] at got
  rw [Function.iterate_succ_apply']
  exact ⟨_, got⟩

/-- The first `iget` after the boot. -/
theorem boot_get :
    Traces twoTasks.Step
      [(false, .get 1 1), (false, .go), (false, .go), (false, .load 1 false)]
      boot (holding 1 1 1) := by
  have absent :
      ((List.finRange nrInode).find? fun index =>
        ((({ bootTable with last := 1 } : Table).set 1
          { Inode.zero with count := 1 }).inode index).dev == 1 &&
        ((({ bootTable with last := 1 } : Table).set 1
          { Inode.zero with count := 1 }).inode index).num == 1) = none := by
    decide
  have claims :
      act (fun _ => none) .go { bootTable with last := 1 }
          { point := .emptying 1 1 1, held := [] } =
        some ((({ bootTable with last := 1 } : Table).set 1
            { Inode.zero with count := 1 }).set 1
              { Inode.zero with count := 1, dev := 1, num := 1 },
          { point := .readLocking 1, held := [] }) := by
    change some (scan _ 1 1 1 []) = _
    unfold scan
    rw [absent]
    rfl
  have loads :
      act (fun _ => none) (.load 1 false)
          (((({ bootTable with last := 1 } : Table).set 1
            { Inode.zero with count := 1 }).set 1
              { Inode.zero with count := 1, dev := 1, num := 1 }).setLock 1
                true)
          { point := .reading 1, held := [] } =
        some (usedTable 1 1, { point := .idle, held := [1] }) := by
    unfold act Table.setLock Table.set usedTable bootTable
    simp only [Function.update_idem, Function.update_self]
    rfl
  exact .next (oneBusy_step rfl) (.next (oneBusy_step claims)
    (.next (oneBusy_step rfl) (.next (oneBusy_step loads) (.done _))))

/-- The place at which `last_inode` stands after the runs. -/
theorem advance_back :
    advance^[65535] (advance^[30] 1) = 0 := by
  have there : advance^[30] 1 = 31 := by decide +kernel
  have around : advance^[31] 0 = 0 := by decide +kernel
  have first : advance 31 = 0 := by decide
  have turns := Function.iterate_fixed around 2114
  have splits : 65535 = 31 * 2114 + 1 := rfl
  rw [← Function.iterate_mul] at turns
  rw [there, splits, Function.iterate_succ_apply, first]
  exact turns

/-- Another task calls `iget` for another inode. -/
theorem holding_empties :
    ∃ world,
      twoTasks.Step (true, .get 1 2) (holding 0 references 0) world ∧
      (world.point true).Empties world.shared 1 ∧
      (world.point false).refs 1 = references := by
  refine ⟨_, rfl, ⟨⟨1, 2, rfl⟩, rfl, rfl, rfl⟩, ?_⟩
  exact (Nat.zero_add _).trans List.count_replicate_self

/--
Without a bound on the references, `get_empty_inode` can be about to return an inode
that another task has references to.
-/
theorem not_keepsIdentities :
    Begins boot ∧
      ∃ labels last,
        Traces twoTasks.Step labels boot last ∧
        (last.point true).Empties last.shared 1 ∧
        (last.point false).refs 1 = 65536 := by
  obtain ⟨moving, moved⟩ := @holding_moves 1 30
  obtain ⟨raising, raised⟩ :=
    @holding_raises (advance^[30] 1) 65535 (by omega)
  have wrapped : (65535 + 1) % 65536 = 0 := by omega
  have number : 65535 + 1 = 65536 := by omega
  rw [advance_back, wrapped, number] at raised
  obtain ⟨last, starts, empties, referred⟩ := @holding_empties 65536
  exact ⟨boot_begins, _, last,
    (boot_get.append (moved.append raised)).snoc starts, empties, referred⟩

end Inodes

end HitOs
