import HitOs.Deletion

namespace HitOs

/-!
# What iget and iput do to the inode between two sleep points
-/

namespace Deletion

/-- The references to the inode that a task has. -/
def Point.refs : Point → Nat
  | .reading | .spare | .got => 1
  | .putting | .writing | .repeating | .truncating => 1
  | _ => 0

/-- Who has set `i_lock`. -/
def Point.holds : Point → Bool
  | .reading | .writing | .emptyWriting | .flushing => true
  | _ => false

/-- `iget`, before it has a reference. -/
def Point.seeks : Point → Bool
  | .emptying | .emptyWriting | .matching => true
  | _ => false

def Fs.locked (fs : Fs) : Bool :=
  match fs.slot with
  | none => false
  | some slot => slot.lock

/-- `iput` decides to truncate the inode and to free it. -/
def Decides (fs : Fs) (point : Point) : Prop :=
  (point = .putting ∧ fs.blk = false ∨ point = .repeating) ∧
    ∃ slot, fs.slot = some slot ∧ slot.count ≤ 1 ∧ slot.nlinks = 0

/-- What a step of `iget` or `iput` does. -/
structure Moves
    (fs : Fs)
    (point : Point)
    (next : Fs × Point) : Prop where
  entry :
    next.1.entry = fs.entry
  others :
    next.1.others = fs.others
  balance :
    next.1.count + point.refs = fs.count + next.2.refs
  gains :
    point.refs < next.2.refs → point.seeks = true
  seeks :
    next.2.seeks = true → point.seeks = true ∨ point = .rest
  takesLock :
    next.2.holds = true → fs.locked = false ∧ next.1.slot ≠ none
  locked :
    next.1.slot ≠ none → next.1.locked = (next.2.holds || (fs.locked && !point.holds))
  nlinks :
    ∀ slot, next.1.slot = some slot →
      next.2 = .reading ∨
      (point = .reading ∧ slot.nlinks = fs.disk) ∨
      (point ≠ .reading ∧ ∃ former, fs.slot = some former ∧ slot.nlinks = former.nlinks)
  disk :
    next.1.disk = fs.disk ∨
      point.holds = true ∧ point ≠ .reading ∧
        ∃ slot, fs.slot = some slot ∧ next.1.disk = slot.nlinks
  appears :
    fs.slot = none → next.1.slot ≠ none → point.seeks = true
  vanishes :
    fs.locked = true → next.1.slot = none → next.1.allocated = false
  allocated :
    next.1.allocated = fs.allocated ∨
      point = .truncating ∧ next.1.slot = none ∧ next.1.allocated = false
  truncates :
    next.2 = .truncating →
      point.refs = 1 ∧ fs.locked = false ∧ next.1 = fs ∧ Decides fs point

variable {fs : Fs} {point : Point} {slot : Slot} {choice : Choice}

theorem notReading
    (free : point.holds = false) :
    point ≠ .reading := by
  intro is
  rw [is] at free
  cases free

theorem slot_of_locked
    (locked : fs.locked = true) :
    fs.slot ≠ none := by
  intro absent
  unfold Fs.locked at locked
  rw [absent] at locked
  cases locked

theorem locked_eq
    (stands : fs.slot = some slot) :
    fs.locked = slot.lock := by
  unfold Fs.locked
  rw [stands]

theorem count_eq
    (stands : fs.slot = some slot) :
    fs.count = slot.count := by
  unfold Fs.count
  rw [stands]

/-- A step that leaves the files as they are. -/
theorem Moves.stay
    {later : Point}
    (refs_eq : later.refs = point.refs)
    (seeks : later.seeks = true → point.seeks = true ∨ point = .rest)
    (before : point.holds = false)
    (after : later.holds = false)
    (decided :
      later = .truncating →
        point.refs = 1 ∧ fs.locked = false ∧ fs = fs ∧ Decides fs point) :
    Moves fs point (fs, later) where
  entry := rfl
  others := rfl
  balance := by
    rw [refs_eq]
  gains more := by
    rw [refs_eq] at more
    exact absurd more (Nat.lt_irrefl _)
  seeks := seeks
  takesLock holds := by
    rw [after] at holds
    exact absurd holds Bool.false_ne_true
  locked _ := by
    rw [before, after, Bool.not_false, Bool.and_true, Bool.false_or]
  nlinks slot stands := Or.inr (Or.inr ⟨notReading before, slot, stands, rfl⟩)
  disk := Or.inl rfl
  appears absent present := absurd absent present
  vanishes locked absent := absurd absent (slot_of_locked locked)
  allocated := Or.inl rfl
  truncates := decided

/-- `iget` claims the place it has got for the inode, which is at no place. -/
theorem moves_claim
    (seeks : point.seeks = true)
    (none : point.refs = 0)
    (unused : fs.count = 0)
    (unlocked : fs.locked = false) :
    Moves fs point
      ({ fs with
        slot := some { count := 1, nlinks := 0, lock := true, dirt := false } },
        .reading) where
  entry := rfl
  others := rfl
  balance := by
    rw [none, unused]
    rfl
  gains _ := seeks
  seeks _ := Or.inl seeks
  takesLock _ := ⟨unlocked, fun absent => by cases absent⟩
  locked _ := rfl
  nlinks _ _ := Or.inl rfl
  disk := Or.inl rfl
  appears _ _ := seeks
  vanishes _ absent := by cases absent
  allocated := Or.inl rfl
  truncates is := by cases is

theorem moves_scan
    (seeks : point.seeks = true)
    (before : point.holds = false)
    (none : point.refs = 0) :
    Moves fs point (scan fs) := by
  unfold scan
  cases stands : fs.slot with
  | none =>
    apply moves_claim seeks none
    · unfold Fs.count
      rw [stands]
    · unfold Fs.locked
      rw [stands]
  | some slot =>
    exact .stay none.symm (fun _ => Or.inl seeks) before rfl
      nofun

/-- The place of the inode is changed, and keeps its `i_nlinks`. -/
theorem moves_withSlot
    {former : Slot} {later : Point}
    (stands : fs.slot = some former)
    (nlinks : slot.nlinks = former.nlinks)
    (balance : slot.count + point.refs = former.count + later.refs)
    (gains : point.refs < later.refs → point.seeks = true)
    (seeks : later.seeks = true → point.seeks = true)
    (before : point.holds = false)
    (unlocked : former.lock = false)
    (lock : slot.lock = later.holds)
    (different : later ≠ .truncating) :
    Moves fs point (fs.withSlot slot, later) where
  entry := rfl
  others := rfl
  balance := by
    rw [count_eq stands]
    exact balance
  gains := gains
  seeks is := Or.inl (seeks is)
  takesLock _ :=
    ⟨(locked_eq stands).trans unlocked, fun absent => by cases absent⟩
  locked _ := by
    rw [(locked_eq stands).trans unlocked, Bool.false_and, Bool.or_false]
    exact lock
  nlinks other isSlot := by
    cases isSlot
    exact Or.inr (Or.inr ⟨notReading before, former, stands, nlinks⟩)
  disk := Or.inl rfl
  appears absent := by
    rw [absent] at stands
    cases stands
  vanishes _ absent := by cases absent
  allocated := Or.inl rfl
  truncates is := absurd is different

/-- The end of `write_inode`. -/
theorem moves_written
    (later : Point) {next : Fs × Point}
    (refs_eq : later.refs = point.refs)
    (seeks : later.seeks = true → point.seeks = true)
    (before : point.holds = true)
    (after : later.holds = false)
    (writes : point ≠ .reading)
    (different : later ≠ .truncating)
    (acted : written fs later = some next) :
    Moves fs point next := by
  unfold written at acted
  cases stands : fs.slot with
  | none =>
    rw [stands] at acted
    cases acted
    constructor
    case entry => rfl
    case others => rfl
    case balance => rw [refs_eq]
    case gains =>
      intro more
      rw [refs_eq] at more
      exact absurd more (Nat.lt_irrefl _)
    case seeks => exact fun is => Or.inl (seeks is)
    case takesLock =>
      intro holds
      rw [after] at holds
      exact absurd holds Bool.false_ne_true
    case locked => exact fun present => absurd stands present
    case nlinks =>
      intro other isSlot
      rw [stands] at isSlot
      cases isSlot
    case disk => exact Or.inl rfl
    case appears => exact fun _ present => absurd stands present
    case vanishes =>
      exact fun locked => absurd stands (slot_of_locked locked)
    case allocated => exact Or.inl rfl
    case truncates => exact fun is => absurd is different
  | some slot =>
    rw [stands] at acted
    cases acted
    constructor
    case entry => rfl
    case others => rfl
    case balance =>
      rw [count_eq stands, refs_eq]
      rfl
    case gains =>
      intro more
      rw [refs_eq] at more
      exact absurd more (Nat.lt_irrefl _)
    case seeks => exact fun is => Or.inl (seeks is)
    case takesLock =>
      intro holds
      rw [after] at holds
      exact absurd holds Bool.false_ne_true
    case locked =>
      intro _
      rw [before, after, Bool.not_true, Bool.and_false]
      rfl
    case nlinks =>
      intro other isSlot
      cases isSlot
      exact Or.inr (Or.inr ⟨writes, slot, stands, rfl⟩)
    case disk => exact Or.inr ⟨before, writes, slot, stands, rfl⟩
    case appears =>
      intro absent
      rw [absent] at stands
      cases stands
    case vanishes => exact fun _ absent => by cases absent
    case allocated => exact Or.inl rfl
    case truncates => exact fun is => absurd is different

theorem moves_repeatPut
    (stands : fs.slot = some slot)
    (some_ref : 1 ≤ slot.count)
    (unlocked : slot.lock = false)
    (refs_eq : point.refs = 1)
    (before : point.holds = false)
    (decider : point = .putting ∧ fs.blk = false ∨ point = .repeating) :
    Moves fs point (repeatPut fs slot) := by
  have noGain {later : Point} (same : later.refs ≤ 1) :
      point.refs < later.refs → point.seeks = true := by
    intro more
    omega
  have noSeek {later : Point} (never : later.seeks = false) :
      later.seeks = true → point.seeks = true := by
    intro seeks
    rw [never] at seeks
    exact absurd seeks Bool.false_ne_true
  have lowers :
      Moves fs point
        (fs.withSlot { slot with count := slot.count - 1 }, .rest) := by
    refine moves_withSlot stands rfl ?_ (noGain (Nat.zero_le 1)) (noSeek rfl)
      before unlocked unlocked ?_
    · rw [refs_eq]
      exact Nat.sub_add_cancel some_ref
    · exact nofun
  unfold repeatPut
  split
  · exact lowers
  · split
    case isFalse.isTrue last unlinked =>
      refine .stay refs_eq.symm (fun is => Or.inl (noSeek rfl is)) before rfl ?_
      intro _
      exact ⟨refs_eq, (locked_eq stands).trans unlocked, rfl, decider, slot, stands,
        Nat.le_of_not_lt last, unlinked⟩
    · split
      · refine moves_withSlot stands rfl ?_ (noGain (Nat.le_refl 1)) (noSeek rfl)
          before unlocked rfl ?_
        · rw [refs_eq]
          rfl
        · exact nofun
      · exact lowers

/-- `free_inode` -/
theorem moves_free
    (stands : fs.slot = some slot)
    (last : slot.count = 1) :
    Moves fs .truncating
      ({ fs with slot := none, allocated := false }, .rest) where
  entry := rfl
  others := rfl
  balance := by
    rw [count_eq stands, last]
    rfl
  gains more := absurd more (Nat.not_lt_zero _)
  seeks impossible := absurd impossible Bool.false_ne_true
  takesLock impossible := absurd impossible Bool.false_ne_true
  locked present := absurd rfl present
  nlinks other isSlot := by cases isSlot
  disk := Or.inl rfl
  appears _ present := absurd rfl present
  vanishes _ _ := rfl
  allocated := Or.inr ⟨rfl, rfl, rfl⟩
  truncates impossible := by cases impossible

/-- The end of `read_inode`. -/
theorem moves_load
    (stands : fs.slot = some slot) :
    Moves fs .reading
      (fs.withSlot { slot with nlinks := fs.disk, lock := false }, .got) where
  entry := rfl
  others := rfl
  balance := by
    rw [count_eq stands]
    rfl
  gains more := absurd more (Nat.lt_irrefl _)
  seeks impossible := absurd impossible Bool.false_ne_true
  takesLock impossible := absurd impossible Bool.false_ne_true
  locked _ := by
    change false = (false || (fs.locked && !true))
    rw [Bool.not_true, Bool.and_false]
    rfl
  nlinks other isSlot := by
    cases isSlot
    exact Or.inr (Or.inl ⟨rfl, rfl⟩)
  disk := Or.inl rfl
  appears absent := by
    rw [absent] at stands
    cases stands
  vanishes _ absent := by cases absent
  allocated := Or.inl rfl
  truncates impossible := by cases impossible

/-- A task sets `i_dirt` of an inode that it has a reference to. -/
theorem moves_touch
    (stands : fs.slot = some slot)
    (before : point.holds = false)
    (got : point = .got) :
    Moves fs point (fs.withSlot { slot with dirt := true }, point) where
  entry := rfl
  others := rfl
  balance := by
    rw [count_eq stands]
    rfl
  gains more := absurd more (Nat.lt_irrefl _)
  seeks is := Or.inl is
  takesLock holds := by
    rw [before] at holds
    exact absurd holds Bool.false_ne_true
  locked _ := by
    rw [before, locked_eq stands, Bool.not_false, Bool.and_true, Bool.false_or]
    rfl
  nlinks other isSlot := by
    cases isSlot
    exact Or.inr (Or.inr ⟨notReading before, slot, stands, rfl⟩)
  disk := Or.inl rfl
  appears absent := by
    rw [absent] at stands
    cases stands
  vanishes _ absent := by cases absent
  allocated := Or.inl rfl
  truncates is := by
    rw [got] at is
    cases is

/-- `get_empty_inode` of another task takes the place of the inode. -/
theorem moves_evict
    (stands : fs.slot = some slot)
    (unused : slot.count = 0)
    (unlocked : slot.lock = false)
    (rests : point = .rest) :
    Moves fs point ({ fs with slot := none }, point) where
  entry := rfl
  others := rfl
  balance := by
    rw [count_eq stands, unused]
    rfl
  gains more := absurd more (Nat.lt_irrefl _)
  seeks is := Or.inl is
  takesLock holds := by
    rw [rests] at holds
    cases holds
  locked present := absurd rfl present
  nlinks other isSlot := by cases isSlot
  disk := Or.inl rfl
  appears _ present := absurd rfl present
  vanishes locked := by
    rw [locked_eq stands, unlocked] at locked
    cases locked
  allocated := Or.inl rfl
  truncates is := by
    rw [rests] at is
    cases is

/-- What is known of a task in `iget` and `iput`. -/
structure Fits (fs : Fs) (point : Point) : Prop where
  enough :
    point.refs ≤ fs.count
  room :
    point.seeks = true → fs.count + 1 < 65536

theorem moves_act
    {next : Fs × Point}
    (fits : Fits fs point)
    (acted : act choice fs point = some next) :
    Moves fs point next := by
  have enough {slot : Slot} (stands : fs.slot = some slot) :
      point.refs ≤ slot.count := by
    rw [← count_eq stands]
    exact fits.enough
  cases point with
  | rest => cases acted
  | got => cases acted
  | emptying =>
    unfold act at acted
    cases choice with
    | same =>
      cases stands : fs.slot with
      | none =>
        rw [stands] at acted
        cases acted
      | some slot =>
        rw [stands] at acted
        simp only at acted
        split at acted
        case isTrue => cases acted
        case isFalse free =>
          obtain ⟨used, lock⟩ := not_or.mp free
          have unused : slot.count = 0 := not_not.mp used
          have unlocked := eq_false_of_ne_true lock
          split at acted
          case isTrue =>
            cases acted
            exact moves_withSlot stands rfl rfl
              (fun more => absurd more (Nat.lt_irrefl _))
              (fun _ => rfl) rfl unlocked rfl (by decide)
          case isFalse =>
            cases acted
            apply moves_claim rfl rfl
            · exact (count_eq stands).trans unused
            · exact (locked_eq stands).trans unlocked
    | _ =>
      cases acted
      exact moves_scan rfl rfl rfl
  | emptyWriting =>
    exact moves_written .emptying rfl (fun _ => rfl) rfl rfl (by decide)
      (by decide) acted
  | matching =>
    unfold act at acted
    cases stands : fs.slot with
    | none =>
      rw [stands] at acted
      cases acted
      exact moves_scan rfl rfl rfl
    | some slot =>
      rw [stands] at acted
      simp only at acted
      split at acted
      case isTrue => cases acted
      case isFalse unlocked =>
        cases acted
        have room := fits.room rfl
        rw [count_eq stands] at room
        refine moves_withSlot stands rfl ?_ (fun _ => rfl)
          (fun impossible => absurd impossible Bool.false_ne_true) rfl
          (eq_false_of_ne_true unlocked) (eq_false_of_ne_true unlocked)
          (by decide)
        exact Nat.mod_eq_of_lt room
  | reading =>
    unfold act at acted
    cases stands : fs.slot with
    | none =>
      rw [stands] at acted
      cases acted
    | some slot =>
      rw [stands] at acted
      cases acted
      exact moves_load stands
  | spare =>
    cases acted
    exact .stay rfl (fun impossible => Or.inl impossible) rfl rfl
      nofun
  | putting =>
    unfold act at acted
    cases stands : fs.slot with
    | none =>
      rw [stands] at acted
      cases acted
    | some slot =>
      rw [stands] at acted
      simp only at acted
      split at acted
      case isTrue => cases acted
      case isFalse free =>
        have unlocked := eq_false_of_ne_true (not_or.mp free).1
        split at acted
        · cases acted
          exact .stay rfl (fun impossible => Or.inl impossible) rfl rfl
            nofun
        case isFalse notBlock =>
          cases acted
          exact moves_repeatPut stands (enough stands) unlocked rfl rfl
            (Or.inl ⟨rfl, eq_false_of_ne_true notBlock⟩)
  | writing =>
    exact moves_written .repeating rfl (fun impossible => impossible) rfl rfl
      (by decide) (by decide) acted
  | repeating =>
    unfold act at acted
    cases stands : fs.slot with
    | none =>
      rw [stands] at acted
      cases acted
    | some slot =>
      rw [stands] at acted
      simp only at acted
      split at acted
      case isTrue => cases acted
      case isFalse unlocked =>
        cases acted
        exact moves_repeatPut stands (enough stands)
          (eq_false_of_ne_true unlocked) rfl rfl (Or.inr rfl)
  | truncating =>
    unfold act at acted
    cases stands : fs.slot with
    | none =>
      rw [stands] at acted
      cases acted
    | some slot =>
      rw [stands] at acted
      simp only at acted
      split at acted
      case isTrue => cases acted
      case isFalse passes =>
        cases acted
        exact moves_free stands
          (Nat.le_antisymm (Nat.le_of_not_lt (not_or.mp passes).1)
            (enough stands))
  | flushing =>
    exact moves_written .rest rfl (fun impossible => impossible) rfl rfl
      (by decide) (by decide) acted

end Deletion

end HitOs
