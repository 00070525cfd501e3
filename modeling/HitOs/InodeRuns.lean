import HitOs.InodeSteps

namespace HitOs

/-!
# Runs of tasks that call iget and iput

In every run the count of a place is the number of references that the tasks have
to it, and an inode that has a device is the only one of its identity.
-/

namespace Inodes

variable {table : Table} {task : Task} {next : Table × Task}
variable {mounts : Index → Option Device} {choice : Choice}

section Acting

variable {held : List Index}

theorem reaches_idle
    (acted :
      act mounts choice table { point := .idle, held := held } = some next) :
    Reaches table (fun place => held.count place) none next := by
  unfold act at acted
  cases choice with
  | get dev nr =>
    simp only at acted
    split at acted
    case isTrue => cases acted
    case isFalse onDevice =>
      exact reaches_startEmpty onDevice (fun _ => rfl) acted
  | put index =>
    simp only at acted
    split at acted
    case isFalse => cases acted
    case isTrue holds =>
      cases acted
      refine .stay .refl ?_ (.plain rfl rfl trivial)
      intro place
      change same index place + 0 + (held.erase index).count place = _
      by_cases isIndex : place = index
      · subst isIndex
        have some_ref := List.count_pos_iff.mpr holds
        rw [same_self, List.count_erase_self]
        omega
      · rw [same_other isIndex, List.count_erase_of_ne isIndex]
        omega
  | sync index =>
    simp only at acted
    split at acted
    case isFalse => cases acted
    case isTrue =>
      cases acted
      exact .stay .refl (fun _ => Nat.zero_add _) (.plain rfl rfl trivial)
  | touch index nlinks blk =>
    simp only at acted
    split at acted
    case isFalse => cases acted
    case isTrue =>
      cases acted
      exact .stay (agrees_set rfl ⟨rfl, rfl⟩) (fun _ => Nat.zero_add _)
        (.plain rfl rfl trivial)
  | go => cases acted
  | load nlinks blk => cases acted

theorem reaches_emptying
    {dev nr : Nat} {index : Index}
    (onDevice : dev ≠ 0)
    (acted :
      act mounts choice table
        { point := .emptying dev nr index, held := held } = some next) :
    Reaches table (fun place => held.count place) none next := by
  unfold act at acted
  simp only at acted
  split at acted
  · cases acted
  · split at acted
    · cases acted
      exact .stay .refl (fun _ => Nat.zero_add _) (.plain rfl rfl onDevice)
    · split at acted
      case isTrue =>
        exact reaches_startEmpty onDevice (fun _ => rfl) acted
      case isFalse unused =>
        cases acted
        exact reaches_claim onDevice (not_not.mp unused)

theorem reaches_matching
    {dev nr : Nat} {empty index : Index}
    (onDevice : dev ≠ 0)
    (unused : (table.inode empty).dev = 0)
    (counted : (table.inode empty).count = 1)
    (fitsWord : (table.inode index).count + 1 < 65536)
    (acted :
      act mounts choice table
        { point := .matching dev nr empty index, held := held } = some next) :
    Reaches table (fun place => same empty place + held.count place)
      (some empty) next := by
  unfold act at acted
  simp only at acted
  split at acted
  · cases acted
  · split at acted
    case isTrue =>
      cases acted
      constructor
      case balance =>
        intro place
        rw [scan_count, scan_refs]
      case gains =>
        intro place more
        rw [scan_refs] at more
        exact absurd more (Nat.lt_irrefl _)
      case identity =>
        intro place
        rcases @scan_identity table held dev nr empty place with
          kept | ⟨isEmpty, alone⟩
        · exact Or.inl kept
        · subst isEmpty
          exact Or.inr ⟨Or.inr (Or.inr rfl), Or.inr alone⟩
      case fits =>
        exact scan_fits onDevice unused counted
    case isFalse matched =>
      obtain ⟨isDev, isNum⟩ := not_or.mp matched
      have hasDevice : (table.inode index).dev ≠ 0 := by
        rw [not_not.mp isDev]
        exact onDevice
      have raises (point : Point)
          (balanced : ∀ place, point.refs place = same empty place + same index place)
          (fits :
            ({ point := point, held := held } : Task).Fits
              (table.raise index)) :
          Reaches table (fun place => same empty place + held.count place)
            (some empty)
            (table.raise index, { point := point, held := held }) := by
        apply reaches_raise hasDevice fitsWord _ fits
        intro place
        rw [balanced]
        omega
      have returns :
          Reaches table (fun place => same empty place + held.count place)
            (some empty)
            (table.raise index,
              { point := .putting empty (.found index), held := held }) :=
        raises _ (fun _ => rfl) (.plain rfl rfl trivial)
      split at acted
      · cases mounted : mounts index with
        | none =>
          simp only [mounted] at acted
          cases acted
          exact returns
        | some other =>
          simp only [mounted] at acted
          cases acted
          refine raises _ (fun place => Nat.add_comm _ _)
            ⟨?_, ?_, other.property⟩
          · intro place isFresh
            cases isFresh
            have different : empty ≠ index := by
              intro isIndex
              subst isIndex
              exact hasDevice unused
            unfold Table.raise
            rw [set_other different]
            exact ⟨unused, counted⟩
          · intro place isSettled
            cases isSettled
      · cases acted
        exact returns

theorem reaches_putting
    {index : Index} {caller : Caller}
    (enough :
      same index index + caller.refs index ≤ (table.inode index).count)
    (sane : caller.Sane)
    (fresh :
      ∀ empty, caller.fresh = some empty →
        (table.inode empty).dev = 0 ∧ (table.inode empty).count = 1)
    (acted :
      act mounts choice table
        { point := .putting index caller, held := held } = some next) :
    Reaches table
      (fun place =>
        same index place + caller.refs place + held.count place)
      caller.fresh next := by
  have some_ref : 1 ≤ (table.inode index).count := by
    rw [same_self] at enough
    omega
  have lowers :
      Reaches table
        (fun place =>
          same index place + caller.refs place + held.count place)
        caller.fresh (afterPut (table.lower index) caller held) :=
    reaches_release enough (Nat.sub_add_cancel some_ref)
      (Or.inl ⟨rfl, rfl⟩) sane fresh
  unfold act at acted
  simp only at acted
  split at acted
  · cases acted
  · split at acted
    · split at acted
      case isTrue last =>
        cases acted
        exact reaches_release enough last.symm (Or.inl ⟨rfl, rfl⟩) sane fresh
      case isFalse =>
        cases acted
        exact lowers
    · split at acted
      case isTrue =>
        cases acted
        exact lowers
      case isFalse onDevice =>
        split at acted
        · cases acted
          refine .stay .refl (fun _ => rfl) ⟨fresh, ?_, sane⟩
          intro place isSettled
          cases isSettled
          exact onDevice
        · cases acted
          exact reaches_repeatPut enough onDevice sane fresh

theorem reaches_truncating
    {index : Index} {caller : Caller}
    (enough :
      same index index + caller.refs index ≤ (table.inode index).count)
    (onDevice : (table.inode index).dev ≠ 0)
    (sane : caller.Sane)
    (fresh :
      ∀ empty, caller.fresh = some empty →
        (table.inode empty).dev = 0 ∧ (table.inode empty).count = 1)
    (acted :
      act mounts choice table
        { point := .truncating index caller, held := held } = some next) :
    Reaches table
      (fun place =>
        same index place + caller.refs place + held.count place)
      caller.fresh next := by
  unfold act at acted
  simp only at acted
  split at acted
  case isTrue => cases acted
  case isFalse passes =>
    cases acted
    have atMost : ¬ 1 < (table.inode index).count :=
      fun more => passes ⟨onDevice, Or.inl more⟩
    rw [same_self] at enough
    apply reaches_release (by rw [same_self]; exact enough) _
      (Or.inr ⟨rfl, rfl⟩) sane fresh
    change 0 + 1 = _
    omega

end Acting

theorem afterWrite_refs
    {index : Index} {writer : Writer} (place : Index) :
    (afterWrite index writer).refs place = writer.refs place := by
  cases writer <;> rfl

theorem afterWrite_fits
    {index : Index} {writer : Writer} {held : List Index} {later : Table}
    (fits :
      ({ point := .writing index writer, held := held } : Task).Fits
        later) :
    ({ point := afterWrite index writer, held := held } : Task).Fits
      later := by
  cases writer with
  | task => exact .plain rfl rfl trivial
  | empty dev nr => exact .plain rfl rfl fits.sane
  | put place caller => exact ⟨fits.1, fits.2, fits.3⟩
  | sync place caller => exact ⟨fits.1, fits.2, fits.3⟩

/-- Tables that agree have the same places to use. -/
theorem Task.Fits.agrees
    {later : Table}
    (fits : task.Fits table)
    (agrees : later.Agrees table) :
    task.Fits later where
  fresh empty isFresh := by
    rw [(agrees empty).2.1, (agrees empty).1]
    exact fits.fresh empty isFresh
  settled place isSettled := by
    rw [(agrees place).2.1]
    exact fits.settled place isSettled
  sane := fits.sane

/-- The count of an inode that a step of this task raises fits into its 16 bits. -/
def NoWrap (table : Table) (point : Point) : Prop :=
  ∀ dev nr empty index, point = .matching dev nr empty index →
    (table.inode index).count + 1 < 65536

/-- What every step of a task does. -/
theorem reaches_act
    (enough : ∀ place, task.refs place ≤ (table.inode place).count)
    (fits : task.Fits table)
    (noWrap : NoWrap table task.point)
    (acted : act mounts choice table task = some next) :
    Reaches table (fun place => task.refs place) task.point.fresh next := by
  obtain ⟨point, held⟩ := task
  have enoughHere (index : Index) :
      point.refs index ≤ (table.inode index).count :=
    Nat.le_trans (Nat.le_add_right _ _) (enough index)
  cases point with
  | idle =>
    have refs_eq :
        (fun place => Task.refs place { point := .idle, held := held }) =
          fun place => held.count place :=
      funext fun _ => Nat.zero_add _
    rw [refs_eq]
    exact reaches_idle acted
  | emptying dev nr index =>
    have refs_eq :
        (fun place => Task.refs place
          { point := .emptying dev nr index, held := held }) =
          fun place => held.count place :=
      funext fun _ => Nat.zero_add _
    rw [refs_eq]
    exact reaches_emptying fits.sane acted
  | matching dev nr empty index =>
    obtain ⟨unused, counted⟩ := fits.fresh empty rfl
    exact reaches_matching fits.sane unused counted
      (noWrap dev nr empty index rfl) acted
  | readLocking index =>
    unfold act at acted
    simp only at acted
    split at acted
    · cases acted
    · cases acted
      exact .stay (agrees_set rfl ⟨rfl, rfl⟩) (fun _ => rfl)
        (.plain rfl rfl trivial)
  | reading index =>
    unfold act at acted
    cases choice with
    | load nlinks blk =>
      cases acted
      refine .stay (agrees_set rfl ⟨rfl, rfl⟩) ?_ (.plain rfl rfl trivial)
      intro place
      change 0 + (index :: held).count place = same index place + _
      rw [List.count_cons, Nat.zero_add, Nat.add_comm]
      unfold same
      simp only [beq_iff_eq]
    | _ => cases acted
  | writeLocking index writer =>
    unfold act at acted
    simp only at acted
    split at acted
    · cases acted
    · split at acted
      · cases acted
        refine .stay .refl ?_ (afterWrite_fits ⟨fits.1, fits.2, fits.3⟩)
        exact fun place => congrArg (· + _) (afterWrite_refs place)
      · cases acted
        refine .stay (agrees_set rfl ⟨rfl, rfl⟩) (fun _ => rfl) ?_
        exact Task.Fits.agrees ⟨fits.1, fits.2, fits.3⟩
          (agrees_set rfl ⟨rfl, rfl⟩)
  | writing index writer =>
    cases acted
    refine .stay (agrees_set rfl ⟨rfl, rfl⟩) ?_
      (afterWrite_fits (fits.agrees (agrees_set rfl ⟨rfl, rfl⟩)))
    exact fun place => congrArg (· + _) (afterWrite_refs place)
  | putting index caller =>
    exact reaches_putting (enoughHere index) fits.sane fits.fresh acted
  | syncing index caller =>
    unfold act at acted
    cases choice with
    | sync other =>
      simp only at acted
      split at acted
      · cases acted
        exact .stay .refl (fun _ => rfl) ⟨fits.1, fits.2, fits.3⟩
      · cases acted
    | _ =>
      cases acted
      exact .stay .refl (fun _ => rfl) ⟨fits.1, fits.2, fits.3⟩
  | repeating index caller =>
    unfold act at acted
    simp only at acted
    split at acted
    · cases acted
    · cases acted
      exact reaches_repeatPut (enoughHere index) (fits.settled index rfl)
        fits.sane fits.fresh
  | truncating index caller =>
    exact reaches_truncating (enoughHere index) (fits.settled index rfl)
      fits.sane fits.fresh acted

/-- A task has a reference to the place it has got from `get_empty_inode`. -/
theorem refs_of_isFresh
    {empty : Index}
    (isFresh : task.point.fresh = some empty) :
    1 ≤ task.refs empty := by
  refine Nat.le_trans ?_ (Nat.le_add_right _ _)
  have ofCaller {caller : Caller} (isFresh : caller.fresh = some empty) :
      1 ≤ caller.refs empty :=
    Nat.le_of_eq (refs_of_fresh isFresh).symm
  have ofWriter {writer : Writer} (isFresh : writer.fresh = some empty) :
      1 ≤ writer.refs empty := by
    cases writer with
    | put index caller =>
      exact Nat.le_add_left_of_le (ofCaller isFresh)
    | sync index caller =>
      exact Nat.le_add_left_of_le (ofCaller isFresh)
    | task => cases isFresh
    | empty dev nr => cases isFresh
  cases atPoint : task.point with
  | matching dev nr other index =>
    rw [atPoint] at isFresh
    cases isFresh
    exact Nat.le_of_eq same_self.symm
  | writeLocking index writer =>
    rw [atPoint] at isFresh
    exact ofWriter isFresh
  | writing index writer =>
    rw [atPoint] at isFresh
    exact ofWriter isFresh
  | putting index caller =>
    rw [atPoint] at isFresh
    exact Nat.le_add_left_of_le (ofCaller isFresh)
  | syncing index caller =>
    rw [atPoint] at isFresh
    exact Nat.le_add_left_of_le (ofCaller isFresh)
  | repeating index caller =>
    rw [atPoint] at isFresh
    exact Nat.le_add_left_of_le (ofCaller isFresh)
  | truncating index caller =>
    rw [atPoint] at isFresh
    exact Nat.le_add_left_of_le (ofCaller isFresh)
  | _ =>
    rw [atPoint] at isFresh
    cases isFresh

theorem refs_of_isSettled
    {place : Index}
    (isSettled : task.point.settled = some place) :
    1 ≤ task.refs place := by
  refine Nat.le_trans ?_ (Nat.le_add_right _ _)
  have here (more : Nat) : 1 ≤ same place place + more := by
    rw [same_self]
    exact Nat.le_add_right _ _
  have ofWriter {writer : Writer} (isSettled : writer.settled = some place) :
      1 ≤ writer.refs place := by
    cases writer <;> cases isSettled <;> exact here _
  cases atPoint : task.point with
  | writeLocking index writer =>
    rw [atPoint] at isSettled
    exact ofWriter isSettled
  | writing index writer =>
    rw [atPoint] at isSettled
    exact ofWriter isSettled
  | _ =>
    rw [atPoint] at isSettled
    cases isSettled <;> exact here _

variable {ι : Type} [Fintype ι]

/-- Each inode that has a device is the only one of its identity. -/
def Table.Unique (table : Table) : Prop :=
  ∀ first second, first ≠ second → (table.inode first).dev ≠ 0 →
    ¬ (table.inode second).SameAs (table.inode first)

/-- The invariant of the runs. -/
structure Orderly (world : World ι Table Task) : Prop where
  balance :
    ∀ place,
      (world.shared.inode place).count = ∑ task, (world.point task).refs place
  unique :
    world.shared.Unique
  fits :
    ∀ task, (world.point task).Fits world.shared

section Steps

variable [DecidableEq ι] {world : World ι Table Task} {who : ι}

theorem Orderly.unique_moved
    (orderly : Orderly world)
    (reaches :
      Reaches world.shared (fun place => (world.point who).refs place)
        (world.point who).point.fresh next) :
    next.1.Unique := by
  intro first second different hasDevice alike
  rcases reaches.identity second with keptSecond | ⟨-, newSecond⟩
  · rcases reaches.identity first with keptFirst | ⟨-, newFirst⟩
    · apply orderly.unique first second different
      · rw [← keptFirst.1]
        exact hasDevice
      · exact ⟨keptSecond.1.symm.trans (alike.1.trans keptFirst.1),
          keptSecond.2.symm.trans (alike.2.trans keptFirst.2)⟩
    · rcases newFirst with noDevice | alone
      · exact hasDevice noDevice
      · exact alone second different.symm alike
  · rcases newSecond with noDevice | alone
    · exact hasDevice (alike.1.symm.trans noDevice)
    · exact alone first different ⟨alike.1.symm, alike.2.symm⟩

/-- What one task does leaves the places that another is about to use. -/
theorem Orderly.fits_moved
    {other : ι}
    (orderly : Orderly world)
    (isOther : other ≠ who)
    (reaches :
      Reaches world.shared (fun place => (world.point who).refs place)
        (world.point who).point.fresh next) :
    (world.point other).Fits next.1 where
  fresh empty isFresh := by
    obtain ⟨noDevice, counted⟩ := (orderly.fits other).fresh empty isFresh
    have owns := refs_of_isFresh isFresh
    have apart := world.two_le_sum (Task.refs empty) isOther
    rw [← orderly.balance empty, counted] at apart
    have noGain : next.2.refs empty ≤ (world.point who).refs empty := by
      by_contra gains
      rcases reaches.gains empty (Nat.lt_of_not_le gains) with none | device
      · omega
      · exact device noDevice
    have balance := reaches.balance empty
    have counts : (next.1.inode empty).count = 1 := by omega
    refine ⟨?_, counts⟩
    rcases reaches.identity empty with kept | ⟨lost | lost | lost, -⟩
    · rw [kept.1]
      exact noDevice
    · omega
    · omega
    · have alsoOwns := refs_of_isFresh lost
      omega
  settled place isSettled := by
    have hasDevice := (orderly.fits other).settled place isSettled
    have owns := refs_of_isSettled isSettled
    have apart := world.two_le_sum (Task.refs place) isOther
    rw [← orderly.balance place] at apart
    have balance := reaches.balance place
    rcases reaches.identity place with kept | ⟨lost | lost | lost, -⟩
    · rw [kept.1]
      exact hasDevice
    · omega
    · omega
    · exact absurd ((orderly.fits who).fresh place lost).1 hasDevice
  sane := (orderly.fits other).sane

theorem Orderly.moved
    (orderly : Orderly world)
    (reaches :
      Reaches world.shared (fun place => (world.point who).refs place)
        (world.point who).point.fresh next) :
    Orderly (world.moved who next) where
  balance place := by
    have sums := world.sum_moved (Task.refs place) who next
    have balanced := orderly.balance place
    have balance := reaches.balance place
    change (next.1.inode place).count = _
    omega
  unique := orderly.unique_moved reaches
  fits other := by
    by_cases isWho : other = who
    · subst isWho
      rw [World.moved_self]
      exact reaches.fits
    · rw [World.moved_other isWho]
      exact orderly.fits_moved isWho reaches

/-- What a step of an orderly world does. -/
theorem Orderly.reaches
    (orderly : Orderly world)
    (noWrap : NoWrap world.shared (world.point who).point)
    (acted :
      act mounts choice world.shared (world.point who) = some next) :
    Reaches world.shared (fun place => (world.point who).refs place)
      (world.point who).point.fresh next := by
  refine reaches_act ?_ (orderly.fits who) noWrap acted
  intro place
  rw [orderly.balance place]
  exact world.one_le_sum (Task.refs place) who

/-- An inode in use keeps its identity. -/
theorem Orderly.keeps_identity
    (orderly : Orderly world)
    (reaches :
      Reaches world.shared (fun place => (world.point who).refs place)
        (world.point who).point.fresh next)
    {place : Index}
    (hasDevice : (world.shared.inode place).dev ≠ 0)
    (used : 0 < (world.shared.inode place).count)
    (stillUsed : 0 < (next.1.inode place).count) :
    (next.1.inode place).SameAs (world.shared.inode place) := by
  rcases reaches.identity place with kept | ⟨lost | lost | lost, -⟩
  · exact kept
  · omega
  · omega
  · exact absurd ((orderly.fits who).fresh place lost).1 hasDevice

end Steps

/-- No step of a task carries an `i_count` past its 16 bits. -/
def roomy
    (label : ι × Choice)
    (world : World ι Table Task) : Prop :=
  NoWrap world.shared (world.point label.1).point

/-- The tasks are idle, and the counts are those of the inodes that they hold. -/
structure Begins (world : World ι Table Task) : Prop where
  idle :
    ∀ task, (world.point task).point = .idle
  counted :
    ∀ place,
      (world.shared.inode place).count = ∑ task, (world.point task).held.count place
  unique :
    world.shared.Unique

theorem Begins.orderly
    {world : World ι Table Task}
    (begins : Begins world) :
    Orderly world where
  balance place := by
    rw [begins.counted place]
    refine Finset.sum_congr rfl ?_
    intro task _
    unfold Task.refs
    rw [begins.idle task]
    exact (Nat.zero_add _).symm
  unique := begins.unique
  fits task := by
    apply Task.Fits.plain
    · rw [begins.idle task]
      rfl
    · rw [begins.idle task]
      rfl
    · rw [begins.idle task]
      trivial

section Runs

variable [DecidableEq ι] {start last : World ι Table Task}
variable {labels : List (ι × Choice)}

theorem orderly_of_run
    (begins : Begins start)
    (ran : Traces ((calling mounts).StepIf roomy) labels start last) :
    Orderly last := by
  refine ran.invariant ?_ begins.orderly
  intro label before after orderly ⟨stepped, noWrap⟩
  obtain ⟨next, acted, rfl⟩ := Program.Step.inversion stepped
  exact orderly.moved (orderly.reaches noWrap acted)

/-- `get_empty_inode` is about to return this place. -/
structure Task.Empties
    (task : Task)
    (table : Table)
    (place : Index) : Prop where
  waits :
    ∃ dev nr, task.point = .emptying dev nr place
  unlocked :
    (table.inode place).lock = false
  clean :
    (table.inode place).dirt = false
  unused :
    (table.inode place).count = 0

/--
In every run in which no count passes its 16 bits, no two inodes in use have the
same device and number, `get_empty_inode` returns an inode that no task has a
reference to, and the next step leaves the identity of every inode that stays in
use.
-/
theorem inodes_keep_identities
    (begins : Begins start)
    (ran : Traces ((calling mounts).StepIf roomy) labels start last) :
    (∀ first second, first ≠ second →
      0 < (last.shared.inode first).count →
      0 < (last.shared.inode second).count →
      (last.shared.inode first).dev ≠ 0 →
        ¬ (last.shared.inode second).SameAs (last.shared.inode first)) ∧
    (∀ task place, (last.point task).Empties last.shared place →
      ∀ other, (last.point other).refs place = 0) ∧
    (∀ label next, (calling mounts).StepIf roomy label last next →
      ∀ place, (last.shared.inode place).dev ≠ 0 →
        0 < (last.shared.inode place).count →
        0 < (next.shared.inode place).count →
          (next.shared.inode place).SameAs (last.shared.inode place)) := by
  have orderly := orderly_of_run begins ran
  refine ⟨?_, ?_, ?_⟩
  · intro first second different _ _ hasDevice
    exact orderly.unique first second different hasDevice
  · intro task place empties other
    have among := last.one_le_sum (Task.refs place) other
    rw [← orderly.balance place, empties.unused] at among
    exact Nat.le_zero.mp among
  · intro label next ⟨stepped, noWrap⟩ place hasDevice used stillUsed
    obtain ⟨result, acted, rfl⟩ := Program.Step.inversion stepped
    exact orderly.keeps_identity (orderly.reaches noWrap acted) hasDevice
      used stillUsed

end Runs

/-- Two tasks, of which only one does something. -/
def oneBusy (table : Table) (task : Task) : World Bool Table Task where
  shared := table
  point :=
    Function.update (fun _ => { point := .idle, held := [] }) false task

/-- `iget` and `iput` without mount points. -/
def twoTasks : Program Bool Table Task Choice :=
  calling fun _ => none

/-- `inode_table` and `last_inode` at the boot. -/
def bootTable : Table where
  inode _ := Inode.zero
  last := 0

def boot : World Bool Table Task :=
  oneBusy bootTable { point := .idle, held := [] }

theorem boot_idle (task : Bool) :
    boot.point task = { point := .idle, held := [] } := by
  cases task <;> rfl

theorem boot_begins : Begins boot where
  idle task := congrArg Task.point (boot_idle task)
  counted place := by
    symm
    apply Finset.sum_eq_zero
    intro task _
    rw [boot_idle task]
    rfl
  unique first _ _ hasDevice := absurd rfl hasDevice

/-- Whether a step is roomy. -/
def isRoomy
    (label : Bool × Choice)
    (world : World Bool Table Task) : Bool :=
  match (world.point label.1).point with
  | .matching _ _ _ index => (world.shared.inode index).count + 1 < 65536
  | _ => true

theorem roomy_of_isRoomy
    {label : Bool × Choice} {world : World Bool Table Task}
    (passes : isRoomy label world = true) :
    roomy label world := by
  intro dev nr empty index stands
  unfold isRoomy at passes
  rw [stands] at passes
  exact of_decide_eq_true passes

/-- Two tasks call `iget` for two inodes, turn by turn. -/
theorem inodes_keep_identities_boot :
    ∃ labels last,
      Traces (twoTasks.StepIf roomy) labels boot last ∧
      0 < (last.shared.inode 1).count ∧
      0 < (last.shared.inode 2).count ∧
        ¬ (last.shared.inode 2).SameAs (last.shared.inode 1) := by
  have runs :
      ∃ last,
        twoTasks.runIf isRoomy
          [(false, .get 1 1), (false, .go), (true, .get 1 2),
            (false, .go), (true, .go), (false, .load 1 false),
            (true, .go), (true, .load 1 false)] boot = some last ∧
        0 < (last.shared.inode 1).count ∧
        0 < (last.shared.inode 2).count ∧ (last.shared.inode 1).dev ≠ 0 :=
    ⟨_, rfl, Nat.zero_lt_one, Nat.zero_lt_one, Nat.one_ne_zero⟩
  obtain ⟨last, run, firstUsed, secondUsed, hasDevice⟩ := runs
  have traces :
      Traces (twoTasks.StepIf roomy) _ boot last :=
    Program.traces_of_runIf (fun _ _ => roomy_of_isRoomy) run
  exact ⟨_, last, traces, firstUsed, secondUsed,
    (inodes_keep_identities boot_begins traces).1 1 2 (by decide) firstUsed
      secondUsed hasDevice⟩

end Inodes

end HitOs
