import HitOs.InodeTable

namespace HitOs

/-!
# What a task does to the table of inodes between two sleep points
-/

namespace Inodes

/-- 1 for the place itself. -/
def same (index place : Index) : Nat :=
  if index = place then 1 else 0

def Caller.refs (place : Index) : Caller → Nat
  | .task => 0
  | .hop _ _ empty => same empty place
  | .found index => same index place

def Writer.refs (place : Index) : Writer → Nat
  | .task => 0
  | .empty _ _ => 0
  | .put index caller => same index place + caller.refs place
  | .sync index caller => same index place + caller.refs place

def Point.refs (place : Index) : Point → Nat
  | .idle => 0
  | .emptying _ _ _ => 0
  | .matching _ _ empty _ => same empty place
  | .readLocking index => same index place
  | .reading index => same index place
  | .writeLocking _ writer => writer.refs place
  | .writing _ writer => writer.refs place
  | .putting index caller => same index place + caller.refs place
  | .syncing index caller => same index place + caller.refs place
  | .repeating index caller => same index place + caller.refs place
  | .truncating index caller => same index place + caller.refs place

/-- The references to a place that a task has. -/
def Task.refs (place : Index) (task : Task) : Nat :=
  task.point.refs place + task.held.count place

/-- The place that `iget` has got from `get_empty_inode` and not yet used. -/
def Caller.fresh : Caller → Option Index
  | .hop _ _ empty => some empty
  | _ => none

def Writer.fresh : Writer → Option Index
  | .put _ caller => caller.fresh
  | .sync _ caller => caller.fresh
  | _ => none

def Point.fresh : Point → Option Index
  | .matching _ _ empty _ => some empty
  | .writeLocking _ writer => writer.fresh
  | .writing _ writer => writer.fresh
  | .putting _ caller => caller.fresh
  | .syncing _ caller => caller.fresh
  | .repeating _ caller => caller.fresh
  | .truncating _ caller => caller.fresh
  | _ => none

/-- A place whose inode `iput` has found to be on a device. -/
def Writer.settled : Writer → Option Index
  | .put index _ => some index
  | .sync index _ => some index
  | _ => none

def Point.settled : Point → Option Index
  | .writeLocking _ writer => writer.settled
  | .writing _ writer => writer.settled
  | .syncing index _ => some index
  | .repeating index _ => some index
  | .truncating index _ => some index
  | _ => none

/-- `iget` works on a device. -/
def Caller.Sane : Caller → Prop
  | .hop dev _ _ => dev ≠ 0
  | _ => True

def Writer.Sane : Writer → Prop
  | .empty dev _ => dev ≠ 0
  | .put _ caller => caller.Sane
  | .sync _ caller => caller.Sane
  | .task => True

def Point.Sane : Point → Prop
  | .emptying dev _ _ => dev ≠ 0
  | .matching dev _ _ _ => dev ≠ 0
  | .writeLocking _ writer => writer.Sane
  | .writing _ writer => writer.Sane
  | .putting _ caller => caller.Sane
  | .syncing _ caller => caller.Sane
  | .repeating _ caller => caller.Sane
  | .truncating _ caller => caller.Sane
  | _ => True

/-- No inode of the table is the one of this place. -/
def Table.Alone (table : Table) (place : Index) : Prop :=
  ∀ other, other ≠ place →
    ¬ ((table.inode other).dev = (table.inode place).dev ∧
      (table.inode other).num = (table.inode place).num)

/-- What holds of the places that a task is about to use. -/
structure Task.Fits
    (table : Table)
    (task : Task) : Prop where
  fresh :
    ∀ empty, task.point.fresh = some empty →
      (table.inode empty).dev = 0 ∧ (table.inode empty).count = 1
  settled :
    ∀ place, task.point.settled = some place → (table.inode place).dev ≠ 0
  sane :
    task.point.Sane

/-- An inode keeps its identity. -/
def Inode.SameAs (inode former : Inode) : Prop :=
  inode.dev = former.dev ∧ inode.num = former.num

/--
From a table, and references of a task to its places, to the table and the task at
its next sleep point.
-/
structure Reaches
    (table : Table)
    (refs : Index → Nat)
    (own : Option Index)
    (next : Table × Task) : Prop where
  balance :
    ∀ place, (next.1.inode place).count + refs place =
      (table.inode place).count + next.2.refs place
  gains :
    ∀ place, refs place < next.2.refs place →
      (table.inode place).count = 0 ∨ (table.inode place).dev ≠ 0
  identity :
    ∀ place,
      (next.1.inode place).SameAs (table.inode place) ∨
      (((table.inode place).count = 0 ∨ (next.1.inode place).count = 0 ∨
          own = some place) ∧
        ((next.1.inode place).dev = 0 ∨ next.1.Alone place))
  fits :
    next.2.Fits next.1

section Updates

variable {table : Table} {index place : Index} {value : Inode}

@[simp] theorem set_self : (table.set index value).inode index = value :=
  Function.update_self ..

@[simp] theorem set_other
    (different : place ≠ index) :
    (table.set index value).inode place = table.inode place :=
  Function.update_of_ne different ..

theorem same_self : same index index = 1 :=
  if_pos rfl

theorem same_other
    (different : place ≠ index) :
    same index place = 0 :=
  if_neg (Ne.symm different)

end Updates

variable {table : Table} {refs : Index → Nat} {own : Option Index}
variable {next : Table × Task} {index : Index} {held : List Index}
variable {mounts : Index → Option Nat} {dev nr : Nat}

/-- A point that is not about to use a place. -/
theorem Task.Fits.plain
    {task : Task}
    (noFresh : task.point.fresh = none)
    (noSettled : task.point.settled = none)
    (sane : task.point.Sane) :
    task.Fits table where
  fresh empty isFresh := by
    rw [noFresh] at isFresh
    cases isFresh
  settled place isSettled := by
    rw [noSettled] at isSettled
    cases isSettled
  sane := sane

/-- What each place keeps when only other fields of its inode change. -/
def Table.Agrees (table former : Table) : Prop :=
  ∀ place,
    (table.inode place).count = (former.inode place).count ∧
      (table.inode place).SameAs (former.inode place)

theorem Table.Agrees.refl : table.Agrees table :=
  fun _ => ⟨rfl, rfl, rfl⟩

theorem agrees_set
    {value : Inode}
    (count_eq : value.count = (table.inode index).count)
    (same : value.SameAs (table.inode index)) :
    (table.set index value).Agrees table := by
  intro place
  by_cases isIndex : place = index
  · subst isIndex
    rw [set_self]
    exact ⟨count_eq, same⟩
  · rw [set_other isIndex]
    exact ⟨rfl, rfl, rfl⟩

/-- A step that moves no count and no reference. -/
theorem Reaches.stay
    {task : Task} {later : Table}
    (agrees : later.Agrees table)
    (balanced : ∀ place, task.refs place = refs place)
    (fits : task.Fits later) :
    Reaches table refs own (later, task) where
  balance place := by
    rw [(agrees place).1, balanced]
  gains place more := by
    rw [balanced] at more
    exact absurd more (Nat.lt_irrefl _)
  identity place := Or.inl (agrees place).2
  fits := fits

section Scanning

variable {empty : Index}

theorem scan_refs (place : Index) :
    (scan table dev nr empty held).2.refs place =
      same empty place + held.count place := by
  unfold scan
  split <;> rfl

theorem scan_count (place : Index) :
    ((scan table dev nr empty held).1.inode place).count =
      (table.inode place).count := by
  unfold scan
  split
  · rfl
  · by_cases isEmpty : place = empty
    · subst isEmpty
      rw [set_self]
    · exact congrArg Inode.count (set_other isEmpty)

/-- `iget` gives the empty inode an identity that no other inode has. -/
theorem scan_identity (place : Index) :
    ((scan table dev nr empty held).1.inode place).SameAs
        (table.inode place) ∨
      (place = empty ∧ (scan table dev nr empty held).1.Alone place) := by
  unfold scan
  cases found : (List.finRange nrInode).find? fun index =>
      (table.inode index).dev == dev && (table.inode index).num == nr with
  | some index =>
    exact Or.inl ⟨rfl, rfl⟩
  | none =>
    simp only
    by_cases isEmpty : place = empty
    · subst isEmpty
      refine Or.inr ⟨rfl, fun other different => ?_⟩
      rw [set_other different, set_self]
      have missed :=
        List.find?_eq_none.mp found other (List.mem_finRange other)
      simpa using missed
    · rw [set_other isEmpty]
      exact Or.inl ⟨rfl, rfl⟩

theorem scan_fits
    (onDevice : dev ≠ 0)
    (unused : (table.inode empty).dev = 0)
    (counted : (table.inode empty).count = 1) :
    (scan table dev nr empty held).2.Fits
      (scan table dev nr empty held).1 := by
  unfold scan
  split
  · constructor
    case fresh =>
      intro other isFresh
      cases isFresh
      exact ⟨unused, counted⟩
    case settled =>
      exact fun _ impossible => nomatch impossible
    case sane =>
      exact onDevice
  · exact .plain rfl rfl trivial

end Scanning

section Returning

variable {caller : Caller}

theorem afterPut_refs (place : Index) :
    (afterPut table caller held).2.refs place =
      caller.refs place + held.count place := by
  cases caller with
  | task =>
    rfl
  | hop dev nr empty =>
    exact scan_refs place
  | found index =>
    change 0 + (index :: held).count place = same index place + _
    rw [List.count_cons, Nat.zero_add, Nat.add_comm]
    unfold same
    simp only [beq_iff_eq]

theorem afterPut_count (place : Index) :
    ((afterPut table caller held).1.inode place).count =
      (table.inode place).count := by
  cases caller with
  | task => rfl
  | hop dev nr empty => exact scan_count place
  | found index => rfl

theorem afterPut_identity (place : Index) :
    ((afterPut table caller held).1.inode place).SameAs
        (table.inode place) ∨
      (caller.fresh = some place ∧
        (afterPut table caller held).1.Alone place) := by
  cases caller with
  | task =>
    exact Or.inl ⟨rfl, rfl⟩
  | hop dev nr empty =>
    rcases scan_identity place with kept | ⟨isEmpty, alone⟩
    · exact Or.inl kept
    · subst isEmpty
      exact Or.inr ⟨rfl, alone⟩
  | found index =>
    exact Or.inl ⟨rfl, rfl⟩

theorem afterPut_fits
    (sane : caller.Sane)
    (fresh :
      ∀ empty, caller.fresh = some empty →
        (table.inode empty).dev = 0 ∧ (table.inode empty).count = 1) :
    (afterPut table caller held).2.Fits (afterPut table caller held).1 := by
  cases caller with
  | hop dev nr empty =>
    obtain ⟨unused, counted⟩ := fresh empty rfl
    exact scan_fits sane unused counted
  | task =>
    exact .plain rfl rfl trivial
  | found index =>
    exact .plain rfl rfl trivial

/-- A place that `iget` has not yet used is one that it has a reference to. -/
theorem refs_of_fresh
    {empty : Index}
    (isFresh : caller.fresh = some empty) :
    caller.refs empty = 1 := by
  cases caller with
  | hop dev nr other =>
    cases isFresh
    exact same_self
  | task =>
    nomatch isFresh
  | found index =>
    nomatch isFresh

/-- `iput` gives up one reference, and clears the inode if it was the last. -/
theorem reaches_release
    {value : Inode}
    (enough :
      same index index + caller.refs index ≤ (table.inode index).count)
    (lowered : value.count + 1 = (table.inode index).count)
    (keepsOrClears :
      value.SameAs (table.inode index) ∨ value.count = 0 ∧ value.dev = 0)
    (sane : caller.Sane)
    (fresh :
      ∀ empty, caller.fresh = some empty →
        (table.inode empty).dev = 0 ∧ (table.inode empty).count = 1) :
    Reaches table
      (fun place =>
        same index place + caller.refs place + held.count place)
      caller.fresh (afterPut (table.set index value) caller held) := by
  have freshElsewhere (empty : Index)
      (isFresh : caller.fresh = some empty) : empty ≠ index := by
    intro isIndex
    subst isIndex
    rw [same_self, refs_of_fresh isFresh, (fresh empty isFresh).2] at enough
    omega
  constructor
  case balance =>
    intro place
    rw [afterPut_refs, afterPut_count]
    by_cases isIndex : place = index
    · subst isIndex
      rw [set_self, same_self]
      omega
    · rw [set_other isIndex, same_other isIndex]
      omega
  case gains =>
    intro place more
    rw [afterPut_refs] at more
    omega
  case identity =>
    intro place
    rcases @afterPut_identity (table.set index value) held caller place with
      kept | ⟨isFresh, alone⟩
    · by_cases isIndex : place = index
      · subst isIndex
        rw [set_self] at kept
        rcases keepsOrClears with keeps | ⟨noCount, noDev⟩
        · exact Or.inl
            ⟨kept.1.trans keeps.1, kept.2.trans keeps.2⟩
        · refine Or.inr ⟨Or.inr (Or.inl ?_), Or.inl ?_⟩
          · rw [afterPut_count, set_self]
            exact noCount
          · exact kept.1.trans noDev
      · rw [set_other isIndex] at kept
        exact Or.inl kept
    · exact Or.inr ⟨Or.inr (Or.inr isFresh), Or.inr alone⟩
  case fits =>
    apply afterPut_fits sane
    intro empty isFresh
    rw [set_other (freshElsewhere empty isFresh)]
    exact fresh empty isFresh

end Returning

section Acting

variable {task : Task} {choice : Choice}

/-- `get_empty_inode` up to `wait_on_inode`. -/
theorem reaches_startEmpty
    (onDevice : dev ≠ 0)
    (balanced : ∀ place, held.count place = refs place)
    (started : startEmpty table dev nr held = some next) :
    Reaches table refs own next := by
  unfold startEmpty at started
  split at started
  · cases started
  · cases started
    refine .stay (fun _ => ⟨rfl, rfl, rfl⟩) ?_ (.plain rfl rfl onDevice)
    intro place
    rw [← balanced]
    exact Nat.zero_add _

/-- `get_empty_inode` returns, and `iget` goes through the table. -/
theorem reaches_claim
    (onDevice : dev ≠ 0)
    (unused : (table.inode index).count = 0) :
    Reaches table (fun place => held.count place) own
      (scan (table.set index { Inode.zero with count := 1 }) dev nr index
        held) := by
  constructor
  case balance =>
    intro place
    rw [scan_count, scan_refs]
    by_cases isIndex : place = index
    · subst isIndex
      rw [set_self, same_self, unused]
      change 1 + _ = 0 + (1 + _)
      rw [Nat.zero_add]
    · rw [set_other isIndex, same_other isIndex, Nat.zero_add]
  case gains =>
    intro place more
    rw [scan_refs] at more
    by_cases isIndex : place = index
    · subst isIndex
      exact Or.inl unused
    · rw [same_other isIndex, Nat.zero_add] at more
      exact absurd more (Nat.lt_irrefl _)
  case identity =>
    intro place
    rcases @scan_identity (table.set index { Inode.zero with count := 1 })
        held dev nr index place with kept | ⟨isIndex, alone⟩
    · by_cases isIndex : place = index
      · subst isIndex
        rw [set_self] at kept
        exact Or.inr ⟨Or.inl unused, Or.inl kept.1⟩
      · rw [set_other isIndex] at kept
        exact Or.inl kept
    · subst isIndex
      exact Or.inr ⟨Or.inl unused, Or.inr alone⟩
  case fits =>
    apply scan_fits onDevice
    · rw [set_self]
      rfl
    · rw [set_self]

/-- `iget` takes a reference to an inode that matches. -/
theorem reaches_raise
    {point : Point}
    (onDevice : (table.inode index).dev ≠ 0)
    (fitsWord : (table.inode index).count + 1 < 65536)
    (balanced :
      ∀ place, point.refs place + held.count place = refs place + same index place)
    (fits :
      ({ point := point, held := held } : Task).Fits
        (table.raise index)) :
    Reaches table refs own
      (table.raise index, { point := point, held := held }) := by
  have raised :
      ((table.raise index).inode index).count =
        (table.inode index).count + 1 := by
    unfold Table.raise
    rw [set_self]
    exact Nat.mod_eq_of_lt fitsWord
  constructor
  case balance =>
    intro place
    change _ = _ + (point.refs place + held.count place)
    rw [balanced]
    by_cases isIndex : place = index
    · subst isIndex
      rw [same_self]
      change ((table.raise place).inode place).count + _ = _
      rw [raised]
      omega
    · rw [same_other isIndex]
      change ((table.raise index).inode place).count + _ = _
      unfold Table.raise
      rw [set_other isIndex]
      omega
  case gains =>
    intro place more
    change refs place < point.refs place + held.count place at more
    rw [balanced] at more
    by_cases isIndex : place = index
    · subst isIndex
      exact Or.inr onDevice
    · rw [same_other isIndex] at more
      exact absurd more (Nat.lt_irrefl _)
  case identity =>
    intro place
    refine Or.inl ?_
    change ((table.raise index).inode place).SameAs _
    unfold Table.raise
    by_cases isIndex : place = index
    · subst isIndex
      rw [set_self]
      exact ⟨rfl, rfl⟩
    · rw [set_other isIndex]
      exact ⟨rfl, rfl⟩
  case fits =>
    exact fits

/-- `iput` from `repeat` on. -/
theorem reaches_repeatPut
    {caller : Caller}
    (enough :
      same index index + caller.refs index ≤ (table.inode index).count)
    (onDevice : (table.inode index).dev ≠ 0)
    (sane : caller.Sane)
    (fresh :
      ∀ empty, caller.fresh = some empty →
        (table.inode empty).dev = 0 ∧ (table.inode empty).count = 1) :
    Reaches table
      (fun place =>
        same index place + caller.refs place + held.count place)
      caller.fresh (repeatPut table index caller held) := by
  have some_ref : 1 ≤ (table.inode index).count := by
    rw [same_self] at enough
    omega
  have lowers :
      Reaches table
        (fun place =>
          same index place + caller.refs place + held.count place)
        caller.fresh (afterPut (table.lower index) caller held) :=
    reaches_release enough (Nat.sub_add_cancel some_ref)
      (Or.inl ⟨rfl, rfl⟩) sane fresh
  have settledHere :
      ∀ place, some index = some place → (table.inode place).dev ≠ 0 := by
    intro place isIndex
    cases isIndex
    exact onDevice
  unfold repeatPut
  simp only
  split
  · exact lowers
  · split
    · exact .stay .refl (fun _ => rfl) ⟨fresh, settledHere, sane⟩
    · split
      · exact .stay .refl (fun _ => rfl) ⟨fresh, settledHere, sane⟩
      · exact lowers

end Acting

end Inodes

end HitOs
