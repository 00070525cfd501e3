import HitOs.DeletionSteps

namespace HitOs

/-!
# Deletion that a lookup does not overlap

The invariant of the runs in which no `iput` decides to truncate the inode while the
opener has its number and no reference to it.
-/

namespace Deletion

variable {fs : Fs} {slot : Slot}

/-- A task has the number of the inode, and no reference to it. -/
def Place.Seeks (place : Place) : Prop :=
  place.stage = .close ∨ place.point.seeks = true

instance (place : Place) : Decidable place.Seeks :=
  inferInstanceAs (Decidable (_ ∨ _))

/-- What the stage of a task says of its point. -/
def Shape : Party → Place → Prop
  | .opener, place => place.stage = .returned → place.point = .got
  | .unlinker, place => place.stage ≠ .close
  | .others, place =>
    place.stage ≠ .close ∧ (place.point = .rest ∨ place.point = .flushing)

/-- The invariant of the runs. -/
structure Safe (world : World Party Fs Place) : Prop where
  shapes :
    ∀ party, Shape party (world.point party)
  room :
    world.shared.others + 2 < 65536
  balance :
    world.shared.count = world.shared.others + ∑ party, (world.point party).point.refs
  pinned :
    (world.point .unlinker).Seeks → world.shared.entry = true
  exclusive :
    ∀ party other, party ≠ other →
      (world.point party).point.holds = true → (world.point other).point.holds = false
  held :
    ∀ party, (world.point party).point.holds = true →
      world.shared.locked = true ∨
        world.shared.slot = none ∧ world.shared.allocated = false
  linked :
    world.shared.entry = true →
      world.shared.allocated = true ∧ world.shared.disk ≠ 0 ∧
      ∀ slot, world.shared.slot = some slot →
        slot.nlinks ≠ 0 ∨ ∃ party, (world.point party).point = .reading
  dying :
    ∀ party, (world.point party).point = .truncating →
      world.shared.entry = false ∧ world.shared.count = 1 ∧
      (∀ slot, world.shared.slot = some slot → slot.nlinks = 0) ∧
      ∀ other, ¬ (world.point other).Seeks
  freed :
    world.shared.allocated = false →
      world.shared.entry = false ∧ world.shared.slot = none ∧
      ∀ party, ¬ (world.point party).Seeks

section Steps

variable {world : World Party Fs Place} {party : Party}
variable {next : Fs × Place}

theorem slot_of_count
    (used : fs.count ≠ 0) :
    ∃ slot, fs.slot = some slot ∧ fs.count = slot.count := by
  cases stands : fs.slot with
  | none =>
    unfold Fs.count at used
    rw [stands] at used
    exact absurd rfl used
  | some slot =>
    exact ⟨slot, rfl, count_eq stands⟩

theorem Safe.refs_le
    (safe : Safe world)
    (party : Party) :
    world.shared.others + (world.point party).point.refs ≤
      world.shared.count := by
  have among := world.one_le_sum (fun place => place.point.refs) party
  have balance := safe.balance
  omega

/-- Two tasks with a reference each make two references. -/
theorem Safe.alone
    (safe : Safe world)
    {other : Party}
    (last : world.shared.count = 1)
    (owns : (world.point party).point.refs = 1)
    (different : other ≠ party) :
    (world.point other).point.refs = 0 := by
  have apart := world.two_le_sum (fun place => place.point.refs) different
  have balance := safe.balance
  omega

theorem truncating_refs
    {point : Point}
    (is : point = .truncating) :
    point.refs = 1 := by
  rw [is]
  rfl

theorem reading_holds
    {point : Point}
    (is : point = .reading) :
    point.holds = true := by
  rw [is]
  rfl

/-- While the entry is there, nobody truncates the inode. -/
theorem Safe.entry_of_decides
    (safe : Safe world)
    (unlocked : world.shared.locked = false)
    (stands : world.shared.slot = some slot)
    (unlinked : slot.nlinks = 0) :
    world.shared.entry = false := by
  by_contra present
  obtain ⟨-, -, linked⟩ := safe.linked (eq_true_of_ne_false present)
  rcases linked slot stands with more | ⟨reader, reads⟩
  · exact more unlinked
  · rcases safe.held reader (reading_holds reads) with locked | ⟨absent, -⟩
    · rw [unlocked] at locked
      exact absurd locked Bool.false_ne_true
    · rw [absent] at stands
      cases stands

/-- Nobody begins to look for an inode that has no entry. -/
theorem noSeeks_moved
    (noSeeks : ∀ other, ¬ (world.point other).Seeks)
    (removed : world.shared.entry = false)
    (seeks :
      next.2.Seeks → (world.point party).Seeks ∨ world.shared.entry = true)
    (other : Party) :
    ¬ ((world.moved party next).point other).Seeks := by
  by_cases isParty : other = party
  · subst isParty
    rw [World.moved_self]
    intro now
    rcases seeks now with before | entry
    · exact noSeeks _ before
    · rw [removed] at entry
      exact absurd entry Bool.false_ne_true
  · rw [World.moved_other isParty]
    exact noSeeks other

/-- Other tasks do not look for the inode. -/
theorem Safe.others_idle
    (safe : Safe world) :
    ¬ (world.point .others).Seeks := by
  obtain ⟨notClosing, points⟩ := safe.shapes .others
  rintro (closes | seeks)
  · exact notClosing closes
  · rcases points with rests | flushes
    · rw [rests] at seeks
      cases seeks
    · rw [flushes] at seeks
      cases seeks

theorem Safe.exclusive_moved
    (safe : Safe world)
    (moves :
      Moves world.shared (world.point party).point (next.1, next.2.point))
    {other : Party}
    (takes : next.2.point.holds = true) :
    (world.point other).point.holds = false := by
  obtain ⟨unlocked, present⟩ := moves.takesLock takes
  by_contra holds
  rcases safe.held other (eq_true_of_ne_false holds) with
    locked | ⟨absent, free⟩
  · rw [unlocked] at locked
    exact Bool.false_ne_true locked
  · exact (safe.freed free).2.2 party (Or.inr (moves.appears absent present))

theorem Safe.held_moved
    (safe : Safe world)
    (moves :
      Moves world.shared (world.point party).point (next.1, next.2.point))
    {other : Party}
    (holds : ((world.moved party next).point other).point.holds = true) :
    next.1.locked = true ∨
      next.1.slot = none ∧ next.1.allocated = false := by
  by_cases isParty : other = party
  · subst isParty
    rw [World.moved_self] at holds
    have locked := moves.locked (moves.takesLock holds).2
    rw [holds, Bool.true_or] at locked
    exact Or.inl locked
  · rw [World.moved_other isParty] at holds
    by_cases present : next.1.slot = none
    · refine Or.inr ⟨present, ?_⟩
      rcases safe.held other holds with locked | ⟨-, free⟩
      · exact moves.vanishes locked present
      · rcases moves.allocated with same | ⟨-, -, now⟩
        · exact same.trans free
        · exact now
    · rcases safe.held other holds with locked | ⟨absent, free⟩
      · have stays := moves.locked present
        rw [locked, safe.exclusive other party isParty holds] at stays
        rw [stays, Bool.not_false, Bool.and_true, Bool.or_true]
        exact Or.inl rfl
      · exact absurd (Or.inr (moves.appears absent present))
          ((safe.freed free).2.2 party)

theorem Safe.linked_moved
    (safe : Safe world)
    (moves :
      Moves world.shared (world.point party).point (next.1, next.2.point))
    (entry : world.shared.entry = true) :
    next.1.allocated = true ∧ next.1.disk ≠ 0 ∧
      ∀ slot, next.1.slot = some slot →
        slot.nlinks ≠ 0 ∨
          ∃ other, ((world.moved party next).point other).point =
            .reading := by
  obtain ⟨allocated, disk, linked⟩ := safe.linked entry
  refine ⟨?_, ?_, ?_⟩
  · rcases moves.allocated with same | ⟨truncates, -⟩
    · exact same.trans allocated
    · have removed := (safe.dying party truncates).1
      rw [entry] at removed
      exact absurd removed.symm Bool.false_ne_true
  · rcases moves.disk with same | ⟨holds, writes, slot, stands, wrote⟩
    · intro zero
      exact disk (same.symm.trans zero)
    · intro zero
      rcases linked slot stands with more | ⟨reader, reads⟩
      · exact more (wrote.symm.trans zero)
      · by_cases isParty : reader = party
        · subst isParty
          exact writes reads
        · have alone := safe.exclusive party reader (Ne.symm isParty) holds
          rw [reading_holds reads] at alone
          exact Bool.false_ne_true alone.symm
  · intro slot stands
    rcases moves.nlinks slot stands with
      reads | ⟨-, loaded⟩ | ⟨noRead, former, was, same⟩
    · refine Or.inr ⟨party, ?_⟩
      rw [World.moved_self]
      exact reads
    · exact Or.inl fun zero => disk (loaded.symm.trans zero)
    · rcases linked former was with more | ⟨reader, reads⟩
      · exact Or.inl fun zero => more (same.symm.trans zero)
      · have isOther : reader ≠ party := by
          intro isParty
          subst isParty
          exact noRead reads
        refine Or.inr ⟨reader, ?_⟩
        rw [World.moved_other isOther]
        exact reads

/-- The places that other tasks have not yet found are left alone. -/
theorem Safe.dying_other
    (safe : Safe world)
    (moves :
      Moves world.shared (world.point party).point (next.1, next.2.point))
    {other : Party}
    (different : other ≠ party)
    (truncates : (world.point other).point = .truncating) :
    next.1.count = 1 ∧
      ∀ slot, next.1.slot = some slot → slot.nlinks = 0 := by
  obtain ⟨-, last, unlinked, noSeeks⟩ := safe.dying other truncates
  have none :=
    safe.alone last (truncating_refs truncates) (Ne.symm different)
  have balance := moves.balance
  have noGain : next.2.point.refs = 0 := by
    by_contra gains
    refine noSeeks party (Or.inr (moves.gains ?_))
    rw [none]
    exact Nat.pos_of_ne_zero gains
  refine ⟨by simp only at balance; omega, ?_⟩
  intro slot stands
  rcases moves.nlinks slot stands with
    reads | ⟨reads, -⟩ | ⟨-, former, was, same⟩
  · simp only at reads
    rw [reads] at noGain
    cases noGain
  · rw [reads] at none
    cases none
  · exact same.trans (unlinked former was)

/-- A task that moves as `iget` and `iput` do keeps the invariant. -/
theorem Safe.moved
    (safe : Safe world)
    (moves :
      Moves world.shared (world.point party).point (next.1, next.2.point))
    (shape : Shape party next.2)
    (seeks :
      next.2.Seeks → (world.point party).Seeks ∨ world.shared.entry = true)
    (guarded :
      next.2.point = .truncating → (world.point party).point ≠ .truncating →
        ¬ (world.point .opener).Seeks) :
    Safe (world.moved party next) where
  shapes other := by
    by_cases isParty : other = party
    · subst isParty
      rw [World.moved_self]
      exact shape
    · rw [World.moved_other isParty]
      exact safe.shapes other
  room := by
    change next.1.others + 2 < 65536
    rw [moves.others]
    exact safe.room
  balance := by
    have sums :=
      world.sum_moved (fun place => place.point.refs) party next
    have balance := moves.balance
    have others := moves.others
    have balanced := safe.balance
    change next.1.count = next.1.others + _
    simp only at balance others
    omega
  pinned now := by
    change next.1.entry = true
    rw [moves.entry]
    by_cases isParty : Party.unlinker = party
    · subst isParty
      rw [World.moved_self] at now
      rcases seeks now with before | entry
      · exact safe.pinned before
      · exact entry
    · rw [World.moved_other isParty] at now
      exact safe.pinned now
  exclusive first second different holds := by
    by_cases isFirst : first = party
    · subst isFirst
      rw [World.moved_self] at holds
      rw [World.moved_other (Ne.symm different)]
      exact safe.exclusive_moved moves holds
    · rw [World.moved_other isFirst] at holds
      by_cases isSecond : second = party
      · subst isSecond
        rw [World.moved_self]
        by_contra takes
        have free : (world.point first).point.holds = false :=
          safe.exclusive_moved moves (eq_true_of_ne_false takes)
        rw [holds] at free
        exact Bool.false_ne_true free.symm
      · rw [World.moved_other isSecond]
        exact safe.exclusive first second different holds
  held other holds := safe.held_moved moves holds
  linked entry := safe.linked_moved moves (moves.entry.symm.trans entry)
  dying other truncates := by
    by_cases isParty : other = party
    · subst isParty
      rw [World.moved_self] at truncates
      obtain ⟨owns, unlocked, same, -, slot, stands, atMost, unlinked⟩ :=
        moves.truncates truncates
      have removed := safe.entry_of_decides unlocked stands unlinked
      have atLeast := safe.refs_le other
      have atOnce := count_eq stands
      have noSeeks : ∀ seeker, ¬ (world.point seeker).Seeks := by
        by_cases already : (world.point other).point = .truncating
        · exact (safe.dying other already).2.2.2
        · intro seeker isSeeking
          cases seeker with
          | opener => exact guarded truncates already isSeeking
          | unlinker =>
            have entry := safe.pinned isSeeking
            rw [removed] at entry
            exact Bool.false_ne_true entry
          | others => exact safe.others_idle isSeeking
      have last : world.shared.count = 1 := by omega
      have later : next.1 = world.shared := same
      refine ⟨moves.entry.trans removed, ?_, ?_, noSeeks_moved noSeeks removed seeks⟩
      · change next.1.count = 1
        rw [later]
        exact last
      · intro found isSlot
        change next.1.slot = some found at isSlot
        rw [later, stands] at isSlot
        cases isSlot
        exact unlinked
    · rw [World.moved_other isParty] at truncates
      obtain ⟨removed, -, -, noSeeks⟩ := safe.dying other truncates
      obtain ⟨last, unlinked⟩ := safe.dying_other moves isParty truncates
      exact ⟨moves.entry.trans removed, last, unlinked,
        noSeeks_moved noSeeks removed seeks⟩
  freed free := by
    rcases moves.allocated with same | ⟨truncates, absent, -⟩
    · obtain ⟨removed, absent, noSeeks⟩ := safe.freed (same.symm.trans free)
      refine ⟨moves.entry.trans removed, ?_, noSeeks_moved noSeeks removed seeks⟩
      by_contra present
      exact noSeeks party (Or.inr (moves.appears absent present))
    · obtain ⟨removed, -, -, noSeeks⟩ := safe.dying party truncates
      exact ⟨moves.entry.trans removed, absent, noSeeks_moved noSeeks removed seeks⟩

theorem sum_parties (measure : Party → Nat) :
    ∑ party, measure party =
      measure .opener + measure .unlinker + measure .others := by
  have elements : Finset.univ = ({.opener, .unlinker, .others} : Finset Party) :=
    rfl
  rw [elements, Finset.sum_insert (by decide), Finset.sum_insert (by decide),
    Finset.sum_singleton]
  exact (Nat.add_assoc _ _ _).symm

theorem refs_le_one (point : Point) : point.refs ≤ 1 := by
  cases point <;> decide

theorem refs_of_seeks
    {point : Point}
    (seeks : point.seeks = true) :
    point.refs = 0 := by
  cases point <;> first | rfl | cases seeks

/-- `i_count` does not pass its 16 bits. -/
theorem Safe.fits
    (safe : Safe world)
    (party : Party) :
    Fits world.shared (world.point party).point where
  enough := by
    have atLeast := safe.refs_le party
    omega
  room seeks := by
    have balance := safe.balance
    have room := safe.room
    have mine := refs_of_seeks seeks
    have opener := refs_le_one (world.point .opener).point
    have unlinker := refs_le_one (world.point .unlinker).point
    have others : (world.point .others).point.refs = 0 := by
      rcases (safe.shapes .others).2 with rests | flushes
      · rw [rests]
        rfl
      · rw [flushes]
        rfl
    rw [sum_parties] at balance
    cases party with
    | opener => omega
    | unlinker => omega
    | others =>
      rcases (safe.shapes .others).2 with rests | flushes
      · rw [rests] at seeks
        cases seeks
      · rw [flushes] at seeks
        cases seeks

theorem written_point
    (later : Point) {result : Fs × Point}
    (acted : written fs later = some result) :
    result.2 = later := by
  unfold written at acted
  split at acted <;> cases acted <;> rfl

/-- No task that decides to free the inode does so while the opener looks for it. -/
def Guarded
    (label : Party × Choice)
    (world : World Party Fs Place) : Prop :=
  Decides world.shared (world.point label.1).point → ¬ (world.point .opener).Seeks

theorem Safe.within
    {stage : Stage} {choice : Choice}
    (safe : Safe world)
    (guarded : Guarded (party, choice) world)
    (atStage : (world.point party).stage = stage)
    (shape : ∀ point, next.2 = { stage := stage, point := point } → Shape party next.2)
    (acted :
      within stage
        (act choice world.shared (world.point party).point) = some next) :
    Safe (world.moved party next) := by
  obtain ⟨result, inner, rfl⟩ := Option.map_eq_some_iff.mp acted
  have moves := moves_act (safe.fits party) inner
  refine safe.moved moves (shape result.2 rfl) ?_ ?_
  · rintro (closes | seeks)
    · exact Or.inl (Or.inl (atStage.trans closes))
    · rcases moves.seeks seeks with before | rests
      · exact Or.inl (Or.inr before)
      · rw [rests] at inner
        cases inner
  · exact fun truncates _ => guarded (moves.truncates truncates).2.2.2

/-- A step that leaves the files, and does not decide anything. -/
theorem Safe.stays
    {point : Point} {later : Place}
    (safe : Safe world)
    (atPoint : (world.point party).point = point)
    (refs_eq : later.point.refs = point.refs)
    (before : point.holds = false)
    (after : later.point.holds = false)
    (different : later.point ≠ .truncating)
    (shape : Shape party later)
    (rests : later.point.seeks = true → point = .rest)
    (seeks :
      later.Seeks → (world.point party).Seeks ∨ world.shared.entry = true) :
    Safe (world.moved party (world.shared, later)) := by
  subst atPoint
  refine safe.moved ?_ shape seeks (fun is => absurd is different)
  exact .stay refs_eq (fun is => Or.inr (rests is)) before after
    (fun is => absurd is different)

/-- A step after which the task seeks nothing. -/
theorem Safe.rests
    {point : Point} {later : Place}
    (safe : Safe world)
    (atPoint : (world.point party).point = point)
    (refs_eq : later.point.refs = point.refs)
    (before : point.holds = false)
    (after : later.point.holds = false)
    (different : later.point ≠ .truncating)
    (shape : Shape party later)
    (idle : ¬ later.Seeks) :
    Safe (world.moved party (world.shared, later)) :=
  safe.stays atPoint refs_eq before after different shape
    (fun seeks => absurd (Or.inr seeks) idle) (fun seeks => absurd seeks idle)

/-- `namei` and `open_namei`. -/
theorem Safe.opening
    {choice : Choice}
    (safe : Safe world)
    (guarded : Guarded (.opener, choice) world)
    (acted :
      opening choice world.shared (world.point .opener) = some next) :
    Safe (world.moved .opener next) := by
  unfold Deletion.opening at acted
  split at acted
  case h_1 atStage atPoint =>
    split at acted
    case isTrue entry =>
      cases acted
      exact safe.stays atPoint rfl rfl rfl (by decide)
        nofun
        nofun (fun _ => Or.inr entry)
    case isFalse =>
      cases acted
      exact safe.rests atPoint rfl rfl rfl (by decide) nofun (by decide)
  case h_2 atStage atPoint =>
    split at acted
    · cases acted
      exact safe.rests atPoint rfl rfl rfl (by decide) nofun (by decide)
    · cases acted
      exact safe.stays atPoint rfl rfl rfl (by decide)
        nofun (fun _ => rfl)
        (fun _ => Or.inl (Or.inl atStage))
  case h_3 atStage atPoint =>
    have free : (world.point .opener).point.holds = false := by
      rw [atPoint]
      rfl
    split at acted
    · cases acted
      exact safe.rests atPoint rfl rfl rfl (by decide) nofun (by decide)
    case h_2 slot stands =>
      cases acted
      refine safe.moved (moves_touch stands free atPoint) ?_ (fun is => Or.inl is)
        ?_
      · intro returned
        rw [atStage] at returned
        cases returned
      · intro truncates
        rw [atPoint] at truncates
        cases truncates
    · cases acted
      exact safe.rests atPoint rfl rfl rfl (by decide) (fun _ => rfl) (by decide)
  case h_4 atStage different =>
    exact safe.within guarded atStage
      (fun point is impossible => by rw [is] at impossible; cases impossible)
      acted
  case h_5 atStage =>
    exact safe.within guarded atStage
      (fun point is impossible => by rw [is] at impossible; cases impossible)
      acted
  case h_6 => cases acted

/-- `de->inode = 0` -/
theorem Safe.removes
    (safe : Safe world)
    (atPoint : (world.point .unlinker).point = .got)
    (stands : world.shared.slot = some slot) :
    Safe (world.moved .unlinker
      (removed world.shared slot,
        { stage := .leave, point := .putting })) := by
  have owns : (world.point .unlinker).point.refs = 1 := by
    rw [atPoint]
    rfl
  have free : (world.point .unlinker).point.holds = false := by
    rw [atPoint]
    rfl
  have locked_same : (removed world.shared slot).locked = world.shared.locked :=
    (locked_eq stands).symm
  have count_same : (removed world.shared slot).count = world.shared.count :=
    (count_eq stands).symm
  constructor
  case shapes =>
    intro other
    by_cases isParty : other = .unlinker
    · subst isParty
      rw [World.moved_self]
      exact nofun
    · rw [World.moved_other isParty]
      exact safe.shapes other
  case room => exact safe.room
  case balance =>
    have sums :=
      world.sum_moved (fun place => place.point.refs) .unlinker
        (removed world.shared slot, { stage := .leave, point := .putting })
    have balanced := safe.balance
    change (removed world.shared slot).count = world.shared.others + _
    simp only [owns] at sums
    rw [count_same, balanced]
    exact congrArg _ (Nat.add_right_cancel sums).symm
  case pinned =>
    rw [World.moved_self]
    rintro (impossible | impossible) <;> cases impossible
  case exclusive =>
    intro first second different holds
    by_cases isFirst : first = .unlinker
    · subst isFirst
      rw [World.moved_self] at holds
      cases holds
    · rw [World.moved_other isFirst] at holds
      by_cases isSecond : second = .unlinker
      · subst isSecond
        rw [World.moved_self]
        rfl
      · rw [World.moved_other isSecond]
        exact safe.exclusive first second different holds
  case held =>
    intro other holds
    by_cases isParty : other = .unlinker
    · subst isParty
      rw [World.moved_self] at holds
      cases holds
    · rw [World.moved_other isParty] at holds
      rcases safe.held other holds with locked | ⟨absent, -⟩
      · exact Or.inl (locked_same.trans locked)
      · rw [absent] at stands
        cases stands
  case linked => exact nofun
  case dying =>
    intro other truncates
    by_cases isParty : other = .unlinker
    · subst isParty
      rw [World.moved_self] at truncates
      cases truncates
    · rw [World.moved_other isParty] at truncates
      have alone :=
        safe.alone (safe.dying other truncates).2.1
          (truncating_refs truncates) (Ne.symm isParty)
      rw [owns] at alone
      cases alone
  case freed =>
    intro unallocated
    have absent := (safe.freed unallocated).2.1
    rw [absent] at stands
    cases stands

/-- `sys_unlink` -/
theorem Safe.unlinking
    {choice : Choice}
    (safe : Safe world)
    (guarded : Guarded (.unlinker, choice) world)
    (acted :
      unlinking choice world.shared (world.point .unlinker) = some next) :
    Safe (world.moved .unlinker next) := by
  unfold Deletion.unlinking at acted
  split at acted
  case h_1 atStage atPoint =>
    split at acted
    case isTrue entry =>
      cases acted
      exact safe.stays atPoint rfl rfl rfl (by decide)
        nofun (fun _ => rfl)
        (fun _ => Or.inr entry)
    case isFalse =>
      cases acted
      exact safe.rests atPoint rfl rfl rfl (by decide) nofun (by decide)
  case h_2 atStage atPoint =>
    split at acted
    · cases acted
      exact safe.rests atPoint rfl rfl rfl (by decide) nofun (by decide)
    case h_2 slot stands =>
      cases acted
      exact safe.removes atPoint stands
    · cases acted
  case h_3 atStage different =>
    exact safe.within guarded atStage
      (fun point is impossible => by rw [is] at impossible; cases impossible)
      acted
  case h_4 atStage =>
    exact safe.within guarded atStage
      (fun point is impossible => by rw [is] at impossible; cases impossible)
      acted
  case h_5 => cases acted

/-- Other tasks. -/
theorem Safe.flushing
    {choice : Choice}
    (safe : Safe world)
    (guarded : Guarded (.others, choice) world)
    (acted :
      flushing choice world.shared (world.point .others) = some next) :
    Safe (world.moved .others next) := by
  unfold Deletion.flushing at acted
  split at acted
  case h_1 atPoint =>
    obtain ⟨result, inner, rfl⟩ := Option.map_eq_some_iff.mp acted
    have ends := written_point .rest inner
    have moves :
        Moves world.shared (world.point .others).point result := by
      rw [atPoint]
      exact moves_written .rest rfl (fun impossible => impossible) rfl rfl
        (by decide) (by decide) inner
    refine safe.moved moves ⟨nofun, Or.inl ends⟩ ?_ ?_
    · rintro (impossible | impossible)
      · cases impossible
      · rw [ends] at impossible
        cases impossible
    · intro truncates
      rw [ends] at truncates
      cases truncates
  case h_2 slot atPoint stands =>
    split at acted
    case isFalse => cases acted
    case isTrue dirty =>
      have unlocked : slot.lock = false := by
        cases isLocked : slot.lock with
        | false => rfl
        | true =>
          rw [isLocked, Bool.not_true, Bool.and_false] at dirty
          cases dirty
      cases acted
      refine safe.moved
        (moves_withSlot stands rfl ?_ ?_ nofun
          ?_ unlocked rfl nofun)
        ⟨nofun, Or.inr rfl⟩ ?_ nofun
      · rw [atPoint]
        rfl
      · rw [atPoint]
        exact fun more => absurd more (Nat.lt_irrefl _)
      · rw [atPoint]
        rfl
      · rintro (impossible | impossible) <;> cases impossible
  case h_3 slot atPoint stands =>
    split at acted
    case isFalse => cases acted
    case isTrue clean =>
      obtain ⟨unused, -, unlocked⟩ := clean
      cases acted
      refine safe.moved (moves_evict stands unused unlocked atPoint)
        (safe.shapes .others) (fun is => Or.inl is) ?_
      exact fun now before => absurd now before
  case h_4 => cases acted

theorem Safe.step
    {label : Party × Choice}
    (safe : Safe world)
    (guarded : Guarded label world)
    (acted :
      program label.1 label.2 world.shared (world.point label.1) = some next) :
    Safe (world.moved label.1 next) := by
  obtain ⟨party, choice⟩ := label
  cases party with
  | opener => exact safe.opening guarded acted
  | unlinker => exact safe.unlinking guarded acted
  | others => exact safe.flushing guarded acted

end Steps

/-- Nobody has begun, and the file system is consistent. -/
structure Begins (world : World Party Fs Place) : Prop where
  idle :
    ∀ party, world.point party = { stage := .find, point := .rest }
  room :
    world.shared.others + 2 < 65536
  counted :
    world.shared.count = world.shared.others
  unlocked :
    world.shared.locked = false
  inTable :
    world.shared.slot ≠ none → world.shared.allocated = true
  linked :
    world.shared.entry = true →
      world.shared.allocated = true ∧ world.shared.disk ≠ 0 ∧
        ∀ slot, world.shared.slot = some slot → slot.nlinks ≠ 0

variable {start last : World Party Fs Place}
variable {labels : List (Party × Choice)}

theorem Begins.safe
    (begins : Begins start) :
    Safe start := by
  have noSeeks (party : Party) : ¬ (start.point party).Seeks := by
    rw [begins.idle party]
    rintro (impossible | impossible) <;> cases impossible
  constructor
  case shapes =>
    intro party
    rw [begins.idle party]
    cases party with
    | opener => exact nofun
    | unlinker => exact nofun
    | others => exact ⟨nofun, Or.inl rfl⟩
  case room => exact begins.room
  case balance =>
    rw [begins.counted]
    symm
    apply Nat.add_eq_left.mpr
    apply Finset.sum_eq_zero
    intro party _
    rw [begins.idle party]
    rfl
  case pinned => exact fun seeks => absurd seeks (noSeeks _)
  case exclusive =>
    intro party other _ holds
    rw [begins.idle party] at holds
    cases holds
  case held =>
    intro party holds
    rw [begins.idle party] at holds
    cases holds
  case linked =>
    intro entry
    obtain ⟨allocated, disk, linked⟩ := begins.linked entry
    exact ⟨allocated, disk, fun slot stands => Or.inl (linked slot stands)⟩
  case dying =>
    intro party truncates
    rw [begins.idle party] at truncates
    cases truncates
  case freed =>
    intro free
    refine ⟨?_, ?_, noSeeks⟩
    · by_contra entry
      have allocated := (begins.linked (eq_true_of_ne_false entry)).1
      rw [free] at allocated
      exact Bool.false_ne_true allocated
    · by_contra present
      have allocated := begins.inTable present
      rw [free] at allocated
      exact Bool.false_ne_true allocated

theorem safe_of_run
    (begins : Begins start)
    (ran : Traces (program.StepIf Guarded) labels start last) :
    Safe last := by
  refine ran.invariant ?_ begins.safe
  intro label before after safe ⟨stepped, guarded⟩
  obtain ⟨next, acted, rfl⟩ := Program.Step.inversion stepped
  exact safe.step guarded acted

/-- `free_inode` finds no other reference, and what is opened is allocated. -/
def KeepsOpened (world : World Party Fs Place) : Prop :=
  (∀ party, (world.point party).point = .truncating → world.shared.count ≤ 1) ∧
  ((world.point .opener).stage = .returned →
    world.shared.slot ≠ none ∧ world.shared.allocated = true)

/--
In every run in which no task decides to free the inode while the opener has its
number and no reference to it, `free_inode` does not panic, and the inode that the
opener gets stays allocated.
-/
theorem opened_is_kept
    (begins : Begins start)
    (ran : Traces (program.StepIf Guarded) labels start last) :
    KeepsOpened last := by
  have safe := safe_of_run begins ran
  refine ⟨?_, ?_⟩
  · intro party truncates
    exact Nat.le_of_eq (safe.dying party truncates).2.1
  · intro returned
    have owns := safe.refs_le .opener
    rw [safe.shapes .opener returned] at owns
    have used : last.shared.count ≠ 0 := by
      intro zero
      rw [zero] at owns
      exact absurd owns (Nat.not_succ_le_zero _)
    obtain ⟨slot, stands, -⟩ := slot_of_count used
    refine ⟨(fun absent => by rw [absent] at stands; cases stands), ?_⟩
    by_contra free
    have absent := (safe.freed (eq_false_of_ne_true free)).2.1
    rw [absent] at stands
    cases stands

/-- A file with one name, which is not in the table. -/
def oneName : World Party Fs Place where
  shared :=
    { entry := true, slot := none, allocated := true, disk := 1
      blk := false, others := 0 }
  point _ := { stage := .find, point := .rest }

theorem oneName_begins : Begins oneName where
  idle _ := rfl
  room := by decide
  counted := rfl
  unlocked := rfl
  inTable absent := absurd rfl absent
  linked _ :=
    ⟨rfl, Nat.one_ne_zero, fun _ impossible => by cases impossible⟩

/-- Whether a step is guarded. -/
def isGuarded
    (label : Party × Choice)
    (world : World Party Fs Place) : Bool :=
  ((world.point label.1).point != .putting &&
      (world.point label.1).point != .repeating) ||
    ((world.point .opener).stage != .close &&
      !(world.point .opener).point.seeks)

theorem guarded_of_isGuarded
    {label : Party × Choice} {world : World Party Fs Place}
    (passes : isGuarded label world = true) :
    Guarded label world := by
  rintro ⟨decides, -⟩ seeks
  unfold isGuarded at passes
  rcases Bool.or_eq_true_iff.mp passes with elsewhere | looked
  · obtain ⟨notPutting, notRepeating⟩ := Bool.and_eq_true_iff.mp elsewhere
    rcases decides with ⟨putting, -⟩ | repeating
    · exact bne_iff_ne.mp notPutting putting
    · exact bne_iff_ne.mp notRepeating repeating
  · obtain ⟨notClosing, notSeeking⟩ := Bool.and_eq_true_iff.mp looked
    rcases seeks with closing | seeking
    · exact bne_iff_ne.mp notClosing closing
    · rw [seeking] at notSeeking
      cases notSeeking

/-- The file is deleted after the opener has got it. -/
theorem opened_is_kept_oneName :
    ∃ labels last,
      Traces (program.StepIf Guarded) labels oneName last ∧
      (last.point .opener).stage = .returned ∧
      last.shared.entry = false ∧
      last.shared.allocated = true := by
  have runs :
      ∃ last,
        program.runIf isGuarded
          [(.opener, .go), (.unlinker, .go), (.opener, .go), (.opener, .go),
            (.unlinker, .go), (.opener, .go), (.unlinker, .go),
            (.unlinker, .go), (.opener, .go), (.unlinker, .go),
            (.unlinker, .go)] oneName = some last ∧
        (last.point .opener).stage = .returned ∧
        last.shared.entry = false :=
    ⟨_, rfl, rfl, rfl⟩
  obtain ⟨last, run, returned, removed⟩ := runs
  have traces :
      Traces (program.StepIf Guarded) _ oneName last :=
    Program.traces_of_runIf (fun _ _ => guarded_of_isGuarded) run
  exact ⟨_, last, traces, returned, removed,
    ((opened_is_kept oneName_begins traces).2 returned).2⟩

/-- What the two tasks do until the unlinker is in `truncate`. -/
def overlapping : List (Party × Choice) :=
  [(.opener, .go), (.opener, .go), (.unlinker, .go), (.unlinker, .go),
    (.unlinker, .go), (.unlinker, .go), (.unlinker, .go)]

/--
The opener has the number of the inode while the unlinker truncates it: either it
takes a reference and `free_inode` panics, or it gets an inode that is not allocated.
-/
theorem not_keepsOpened :
    (∃ labels last,
      Traces program.Step labels oneName last ∧
      (last.point .unlinker).point = .truncating ∧
      last.shared.count = 2) ∧
    (∃ labels last,
      Traces program.Step labels oneName last ∧
      (last.point .opener).stage = .returned ∧
      last.shared.allocated = false) := by
  have panics :
      ∃ last,
        program.run (overlapping ++ [(.opener, .go), (.opener, .go)])
          oneName = some last ∧
        (last.point .unlinker).point = .truncating ∧
        last.shared.count = 2 :=
    ⟨_, rfl, rfl, rfl⟩
  have returns :
      ∃ last,
        program.run
          (overlapping ++ [(.unlinker, .go), (.opener, .go), (.opener, .go),
            (.opener, .go)]) oneName = some last ∧
        (last.point .opener).stage = .returned ∧
        last.shared.allocated = false :=
    ⟨_, rfl, rfl, rfl⟩
  obtain ⟨panicking, panicRun, truncating, two⟩ := panics
  obtain ⟨opened, openRun, returned, free⟩ := returns
  exact ⟨⟨_, panicking, Program.traces_of_run panicRun, truncating, two⟩,
    ⟨_, opened, Program.traces_of_run openRun, returned, free⟩⟩

end Deletion

end HitOs
