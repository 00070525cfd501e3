import HitOs.EvictionRuns

namespace HitOs

/-!
# When a buffer can be evicted

`getblk` returns if and only if it has the block, or finds a clean buffer, or can write
the one that it has chosen: the device has a driver, and `sync_inodes` finds all inodes
unlocked, all their blocks readable and a clean buffer for each block that needs one.
-/

namespace Evictions

open Routine
open Inodes (Index nrInode)

variable {n : Nat} {devices : Devices} {done : Nat → Fin n → Bool}
variable {wanted : Set Place} {heads heads' : Heads n}
variable {inodes : Index → Inode} {kernel : Kernel n} {bh other : Fin n}
variable {dev block : Nat} {place : Place}

/-! ## The condition -/

/-- The buffers of a device that nobody uses. -/
def Kernel.own (dev : Nat) (kernel : Kernel n) : Finset (Fin n) :=
  Finset.univ.filter fun bh =>
    (kernel.buffer bh).count = 0 ∧ (kernel.buffer bh).dev = dev

/-- The blocks of dirty inodes that are in no other buffer. -/
def Kernel.loose
    (devices : Devices)
    (dev : Nat)
    (kernel : Kernel n) : Finset Place :=
  (homes devices kernel.inode allInodes).toFinset.filter fun place =>
    ∀ bh, (headOf (kernel.buffer bh)).place = place → bh ∈ kernel.own dev

/-- A dirty buffer of a device can be evicted, where all other ones are dirty. -/
structure CanSync
    (devices : Devices)
    (kernel : Kernel n)
    (dev : Nat) : Prop where
  driven :
    devices.drives dev = true
  writable :
    Writable devices kernel.inode allInodes
  room :
    (kernel.loose devices dev).card ≤ (kernel.own dev).card

/-- The buffer of the block is there, or there is one that can become it. -/
def Evicts
    (devices : Devices)
    (kernel : Kernel n)
    (dev block : Nat) : Prop :=
  (Buffers.findBuffer dev block kernel.cache).isSome ∨
    (∃ bh, (kernel.buffer bh).count = 0 ∧ (kernel.buffer bh).dirt = false) ∨
    ∃ bh, Buffers.choose kernel.cache = some bh ∧
      CanSync devices kernel (kernel.buffer bh).dev

theorem written_count :
    (written devices dev (List.finRange n) heads bh).count =
      (heads bh).count := by
  unfold written
  split <;> rfl

theorem written_place :
    (written devices dev (List.finRange n) heads bh).place =
      (heads bh).place := by
  unfold written
  split <;> rfl

theorem written_own
    (driven : devices.drives dev = true)
    (own : (heads bh).dev = dev) :
    (written devices dev (List.finRange n) heads bh).dirt = false := by
  unfold written
  rw [if_pos ⟨List.mem_finRange bh, own, driven⟩]

theorem written_other
    (foreign : (heads bh).dev ≠ dev) :
    written devices dev (List.finRange n) heads bh = heads bh :=
  if_neg fun all => foreign all.2.1

theorem written_undriven
    (undriven : devices.drives dev = false) :
    written devices dev (List.finRange n) heads = heads := by
  funext bh
  refine if_neg fun all => ?_
  exact nomatch undriven.symm.trans all.2.2

section AllDirty

variable (shows : Shows devices wanted heads inodes kernel)
variable (allDirty : ∀ other, ¬ Clean heads other)
variable (driven : devices.drives dev = true)

include shows allDirty driven

/-- The buffers that are clean when those of the device have been written. -/
theorem clean_written :
    Clean (written devices dev (List.finRange n) heads) bh ↔
      bh ∈ kernel.own dev := by
  unfold Kernel.own
  rw [Finset.mem_filter, and_iff_right (Finset.mem_univ bh),
    show (kernel.buffer bh).count = (heads bh).count from
      congrArg Head.count (shows.head bh),
    show (kernel.buffer bh).dev = (heads bh).dev from
      congrArg Head.dev (shows.head bh)]
  constructor
  · rintro ⟨unused, isClean⟩
    rw [written_count] at unused
    refine ⟨unused, ?_⟩
    by_contra foreign
    rw [written_other foreign] at isClean
    exact allDirty bh ⟨unused, isClean⟩
  · rintro ⟨unused, own⟩
    refine ⟨?_, written_own driven own⟩
    rw [written_count]
    exact unused

theorem secured_written :
    ¬ Secured (written devices dev (List.finRange n) heads) place ↔
      ∀ bh, (headOf (kernel.buffer bh)).place = place →
        bh ∈ kernel.own dev := by
  unfold Secured
  rw [not_exists]
  refine forall_congr' fun bh => ?_
  rw [written_place, shows.head, not_and, not_not, clean_written shows allDirty driven]

theorem fits_written :
    Fits (written devices dev (List.finRange n) heads)
        (homes devices inodes allInodes) ↔
      (kernel.loose devices dev).card ≤ (kernel.own dev).card := by
  have cleansEq :
      cleans (written devices dev (List.finRange n) heads) =
        kernel.own dev := by
    ext bh
    rw [mem_cleans, clean_written shows allDirty driven]
  have needs :
      needed (written devices dev (List.finRange n) heads)
          (homes devices inodes allInodes) =
        kernel.loose devices dev := by
    ext place
    unfold Kernel.loose
    rw [mem_needed, Finset.mem_filter, List.mem_toFinset, shows.table,
      secured_written shows allDirty driven]
  unfold Fits
  rw [cleansEq, needs]

end AllDirty

/-! ## The inodes after `sync_inodes` -/

theorem pending_flushed
    {index : Index} :
    (flushed inodes allInodes index).pending = false := by
  unfold flushed
  by_cases pending : (inodes index).pending = true
  · rw [if_pos ⟨List.mem_finRange index, pending⟩]
    rfl
  · rw [if_neg fun both => pending both.2]
    exact Bool.eq_false_of_not_eq_true pending

theorem homes_flushed :
    homes devices (flushed inodes allInodes) allInodes = [] := by
  unfold homes
  have isNone :
      allInodes.filter
          (fun index => (flushed inodes allInodes index).pending) = [] := by
    rw [List.filter_eq_nil_iff]
    intro index _
    rw [pending_flushed]
    exact Bool.false_ne_true
  rw [isNone]
  rfl

theorem Writable.flushed
    (writable : Writable devices inodes allInodes) :
    Writable devices (flushed inodes allInodes) allInodes where
  unlocked index member := by
    have unlocked := writable.unlocked index member
    unfold Evictions.flushed
    split
    · exact unlocked
    · exact unlocked
  home index _ pending :=
    nomatch pending_flushed.symm.trans pending

theorem fits_nil : Fits heads [] :=
  Nat.zero_le _

/-! ## `while (bh->b_dirt)` -/

variable {enough : Prop} {fuel turns : Nat}

/-- How the loop ends: the buffer is not in use, and it is not to be looked for again. -/
def Cleaned
    (devices : Devices)
    (wanted : Set Place)
    (again : Bool)
    (after : Kernel n) : Prop :=
  again = true ∧ ∃ heads inodes, Shows devices wanted heads inodes after

section Returns

variable (shows : Shows devices wanted heads inodes kernel)

include shows

theorem returnsIff_clean_done
    {inner : Nat → Nat → Routine (Kernel n) (Fin n)}
    (isClean : (heads bh).dirt = false) :
    ReturnsIff (1 ≤ turns) True (clean devices done inner bh turns) kernel
      (Cleaned devices wanted) := by
  cases turns with
  | zero =>
    exact returnsIff_of_not_enough (by decide) rfl
  | succ turns =>
    refine (satisfies_clean shows isClean).returnsIff.mono ?_
    rintro _ _ _ ⟨rfl, rfl⟩
    exact ⟨rfl, heads, inodes, shows⟩

/-- A turn after which the buffer is not in use. -/
theorem returnsIff_clean_turn
    {condition : Prop}
    (fueled : enough → 2 ≤ fuel)
    (dirty : (heads bh).dirt = true)
    (unused : (heads bh).count = 0)
    (isDev : (heads bh).dev = dev)
    (goesOn :
      ∀ {heads' : Heads n} {middle : Kernel n},
        Writable devices inodes allInodes →
          StoresAll (written devices dev (List.finRange n) heads)
              (homes devices inodes allInodes) heads' →
            Shows devices wanted
                (written devices dev (List.finRange n) heads')
                (flushed inodes allInodes) middle →
              (written devices dev (List.finRange n) heads' bh).count =
                  0 →
                ReturnsIff enough condition
                  (clean devices done (getblk devices done fuel) bh turns)
                  middle (Cleaned devices wanted)) :
    ReturnsIff enough
      ((Writable devices inodes allInodes ∧
          Fits (written devices dev (List.finRange n) heads)
            (homes devices inodes allInodes)) ∧
        condition)
      (clean devices done (getblk devices done fuel) bh (turns + 1)) kernel
      (Cleaned devices wanted) := by
  rw [clean, returnsIff_read_bind,
    show (kernel.buffer bh).dirt = true from
      (congrArg Head.dirt (shows.head bh)).trans dirty,
    Bool.not_true, if_neg Bool.false_ne_true]
  refine ((returnsIff_pass (nested_getblk fuel) shows isDev).weaken
    fueled).andThen ?_
  rintro _ middle ⟨writable, _⟩ ⟨heads', stores, shown⟩
  have unused' :
      (written devices dev (List.finRange n) heads' bh).count = 0 := by
    rw [written_count, stores.count, written_count]
    exact unused
  rw [returnsIff_read_bind,
    show (middle.buffer bh).count = 0 from
      (congrArg Head.count (shown.head bh)).trans unused',
    if_neg (not_not.mpr rfl)]
  exact goesOn writable stores shown unused'

/-- When all inodes are clean, the buffer is after one more turn, if it was not. -/
theorem returnsIff_clean_again
    (unused : (heads bh).count = 0)
    (driven : (heads bh).dirt = true → devices.drives (heads bh).dev = true)
    (writable : Writable devices inodes allInodes)
    (nothing : homes devices inodes allInodes = []) :
    ReturnsIff (2 ≤ fuel ∧ 2 ≤ turns) True
      (clean devices done (getblk devices done fuel) bh turns) kernel
      (Cleaned devices wanted) := by
  cases dirty : (heads bh).dirt with
  | false =>
    exact (returnsIff_clean_done shows dirty).weaken
      fun both => Nat.le_of_succ_le both.2
  | true =>
    cases turns with
    | zero =>
      exact returnsIff_of_not_enough (fun both => by omega) rfl
    | succ turns =>
      have turn :
          ReturnsIff (2 ≤ fuel ∧ 2 ≤ turns + 1) _
            (clean devices done (getblk devices done fuel) bh
              (turns + 1)) kernel (Cleaned devices wanted) :=
        returnsIff_clean_turn shows And.left dirty unused rfl
          (by
            intro heads' middle _ stores shown _
            rw [nothing] at stores
            cases stores
            refine (returnsIff_clean_done shown ?_).weaken
              fun both => Nat.le_of_succ_le_succ both.2
            apply written_own (driven dirty)
            exact congrArg Prod.fst written_place)
      refine turn.of_iff (iff_of_true ⟨⟨writable, ?_⟩, trivial⟩ trivial)
      rw [nothing]
      exact fits_nil

/-- Without a driver the buffer stays dirty, and the loop does not end. -/
theorem never_clean_undriven
    (allDirty : ∀ other, ¬ Clean heads other)
    (unused : (heads bh).count = 0)
    (isDev : (heads bh).dev = dev)
    (undriven : devices.drives dev = false) :
    ReturnsIff (2 ≤ fuel) False
      (clean devices done (getblk devices done fuel) bh turns) kernel
      (Cleaned devices wanted) := by
  induction turns generalizing heads inodes kernel with
  | zero =>
    exact returnsIff_abandon
  | succ turns inductionHypothesis =>
    have dirty : (heads bh).dirt = true := by
      by_contra isClean
      exact allDirty bh ⟨unused, Bool.eq_false_of_not_eq_true isClean⟩
    have turn :
        ReturnsIff (2 ≤ fuel) _
          (clean devices done (getblk devices done fuel) bh (turns + 1))
          kernel (Cleaned devices wanted) :=
      returnsIff_clean_turn shows id dirty unused isDev
        (by
          intro heads' middle _ stores shown unused'
          rw [written_undriven undriven] at stores shown unused'
          refine inductionHypothesis shown
            (fun other => (stores.stays (allDirty other)).2) unused' ?_
          rw [← isDev]
          exact congrArg Prod.fst (stores.stays (allDirty bh)).1)
    exact turn.of_iff (iff_of_false And.right id)

/-- With a driver it ends if the inodes can be written. -/
theorem returnsIff_clean_driven
    (dirty : (heads bh).dirt = true)
    (unused : (heads bh).count = 0)
    (isDev : (heads bh).dev = dev)
    (driven : devices.drives dev = true) :
    ReturnsIff (2 ≤ fuel ∧ 3 ≤ turns)
      (Writable devices inodes allInodes ∧
        Fits (written devices dev (List.finRange n) heads)
          (homes devices inodes allInodes))
      (clean devices done (getblk devices done fuel) bh turns) kernel
      (Cleaned devices wanted) := by
  cases turns with
  | zero =>
    exact returnsIff_of_not_enough (fun both => by omega) rfl
  | succ turns =>
    have turn :
        ReturnsIff (2 ≤ fuel ∧ 3 ≤ turns + 1) _
          (clean devices done (getblk devices done fuel) bh (turns + 1))
          kernel (Cleaned devices wanted) :=
      returnsIff_clean_turn shows And.left dirty unused isDev
        (by
          intro heads' middle writable stores shown unused'
          refine (returnsIff_clean_again shown unused' ?_
            writable.flushed homes_flushed).weaken
              fun both => ⟨both.1, Nat.le_of_succ_le_succ both.2⟩
          -- The buffer has become that of an inode, or belongs to the device.
          intro dirty'
          rw [show (written devices dev (List.finRange n) heads' bh).dev =
            (heads' bh).dev from congrArg Prod.fst written_place]
          rcases stores.cases bh with same | ⟨_, inHomes⟩
          · rw [same, show (written devices dev (List.finRange n)
              heads bh).dev = (heads bh).dev from
                congrArg Prod.fst written_place, isDev]
            exact driven
          · obtain ⟨index, inPending, isHome⟩ :=
              List.mem_filterMap.mp inHomes
            rw [List.mem_filter] at inPending
            obtain ⟨place, isHome', readable⟩ :=
              writable.home index inPending.1 inPending.2
            cases isHome.symm.trans isHome'
            exact (Bool.and_eq_true_iff.mp readable).1)
    exact turn.of_iff (and_iff_left trivial)

/-! ## `getblk` -/

/-- `getblk` after the loop. -/
theorem satisfies_finish :
    (do
      let kernel ← read
      if (Buffers.findBuffer dev block kernel.cache).isSome then
        getblk devices done (fuel + 1) dev block
      else
        match Buffers.claim dev block bh kernel.cache with
        | none =>
          Routine.panic "Free block list corrupted"
        | some claimed =>
          update fun kernel => { kernel with cache := claimed }
          pure bh :
      Routine (Kernel n) (Fin n)).Satisfies kernel
      (fun _ _ => True) (fun _ => False) := by
  rw [satisfies_bind, satisfies_read]
  cases found : Buffers.findBuffer dev block kernel.cache with
  | some bh =>
    rw [Option.isSome_some, if_pos rfl, getblk]
    refine (satisfies_getHashTable shows).andThen ?_
    rintro _ after ⟨rfl, _⟩
    rw [found]
    trivial
  | none =>
    rw [Option.isSome_none, if_neg Bool.false_ne_true]
    obtain ⟨claimed, result⟩ :=
      (shows.wellFormed.claim_isSome :
        ∃ claimed, Buffers.claim dev block bh kernel.cache = some claimed)
    rw [result]
    trivial

/-- When the victim gets clean. -/
theorem returnsIff_victim
    {waited : Kernel n}
    (shown : Shows devices wanted heads inodes waited)
    (missed : Buffers.findBuffer dev block kernel.cache = none)
    (chosen : Buffers.choose kernel.cache = some bh)
    (unused : (heads bh).count = 0)
    (best : (heads bh).dirt = true → ∀ other, ¬ Clean heads other) :
    ReturnsIff (4 ≤ fuel + 1) (Evicts devices kernel dev block)
      (clean devices done (getblk devices done fuel) bh fuel) waited
      (Cleaned devices wanted) := by
  have isClean_iff :
      (∃ bh, (kernel.buffer bh).count = 0 ∧
          (kernel.buffer bh).dirt = false) ↔
        ∃ bh, Clean heads bh := by
    rw [← shows.heads]
    rfl
  unfold Evicts
  rw [missed, isClean_iff, chosen, Option.isSome_none]
  cases dirty : (heads bh).dirt with
  | false =>
    refine ((returnsIff_clean_done shown dirty).weaken
      fun _ => by omega).of_iff (iff_of_true trivial ?_)
    exact Or.inr (Or.inl ⟨bh, unused, dirty⟩)
  | true =>
    have allDirty := best dirty
    have onlySync :
        (false = true ∨ (∃ bh, Clean heads bh) ∨
            ∃ bh', some bh = some bh' ∧
              CanSync devices kernel (kernel.buffer bh').dev) ↔
          CanSync devices kernel (heads bh).dev := by
      rw [← show (kernel.buffer bh).dev = (heads bh).dev from
        congrArg Head.dev (shows.head bh)]
      constructor
      · rintro (impossible | ⟨other, isClean⟩ | ⟨_, ⟨⟩, canSync⟩)
        · cases impossible
        · exact absurd isClean (allDirty other)
        · exact canSync
      · exact fun canSync => Or.inr (Or.inr ⟨bh, rfl, canSync⟩)
    refine ReturnsIff.of_iff ?_ onlySync.symm
    by_cases driven : devices.drives (heads bh).dev = true
    · refine ((returnsIff_clean_driven shown dirty unused rfl
        driven).weaken fun _ => ⟨by omega, by omega⟩).of_iff ?_
      rw [fits_written shows allDirty driven, ← shows.table]
      exact ⟨fun both => ⟨driven, both.1, both.2⟩,
        fun canSync => ⟨canSync.writable, canSync.room⟩⟩
    · refine ((never_clean_undriven shown allDirty unused rfl
        (Bool.eq_false_of_not_eq_true driven)).weaken
          fun _ => by omega).of_iff (iff_of_false id ?_)
      exact fun canSync => driven canSync.driven

theorem returnsIff_getblk
    (unused : ∃ bh, (heads bh).count = 0) :
    ReturnsIff (4 ≤ fuel) (Evicts devices kernel dev block)
      (getblk devices done fuel dev block) kernel
      (fun _ _ => True) := by
  cases fuel with
  | zero =>
    exact returnsIff_of_not_enough (by decide) rfl
  | succ fuel =>
    rw [getblk]
    refine (satisfies_getHashTable shows).andThenIff ?_
    rintro found middle ⟨rfl, unchanged, _⟩
    cases found : Buffers.findBuffer dev block kernel.cache with
    | some bh =>
      have returned :
          (pure bh : Routine (Kernel n) (Fin n)).Satisfies middle
            (fun _ _ => True) (fun _ => False) :=
        trivial
      refine returned.returnsIff.of_iff
        (iff_of_true trivial (Or.inl ?_))
      rw [found]
      rfl
    | none =>
      rw [unchanged found]
      simp only
      rw [returnsIff_read_bind]
      cases chosen : Buffers.choose kernel.cache with
      | none =>
        obtain ⟨bh, unused⟩ := unused
        exact absurd unused (shows.choose_none chosen bh)
      | some bh =>
        obtain ⟨unused, best⟩ := shows.choose chosen
        simp only
        refine (satisfies_waitOnBuffer shows).andThenIff ?_
        rintro _ waited ⟨shown, _⟩
        rw [returnsIff_read_bind,
          show (waited.buffer bh).count = 0 from
            (congrArg Head.count (shown.head bh)).trans unused,
          if_neg (not_not.mpr rfl)]
        cases fuel with
        | zero =>
          exact returnsIff_of_not_enough (by decide) rfl
        | succ fuel =>
          refine (returnsIff_victim shows shown found chosen unused
            best).andThenSatisfies ?_
          rintro _ after _ ⟨rfl, heads', inodes', shown'⟩
          exact satisfies_finish shown'

/-! ## One pass makes the buffer clean -/

/-- The blocks of dirty inodes of other devices are all in buffers. -/
def AtHome (devices : Devices) (kernel : Kernel n) (dev : Nat) : Prop :=
  ∀ place ∈ homes devices kernel.inode allInodes,
    place.1 = dev ∨ ∃ bh, (headOf (kernel.buffer bh)).place = place

/-- No inode of another device takes the buffer. -/
theorem dev_stays
    (allDirty : ∀ other, ¬ Clean heads other)
    (isDev : (heads bh).dev = dev)
    (atHome : AtHome devices kernel dev)
    (stores :
      StoresAll (written devices dev (List.finRange n) heads)
        (homes devices inodes allInodes) heads') :
    (heads' bh).dev = dev := by
  have former :
      (written devices dev (List.finRange n) heads bh).dev = dev :=
    (congrArg Prod.fst written_place).trans isDev
  rcases stores.cases bh with same | ⟨_, inHomes⟩
  · rw [same]
    exact former
  by_contra foreign
  have moved :
      (heads' bh).place ≠
        (written devices dev (List.finRange n) heads bh).place := by
    intro same
    exact foreign ((congrArg Prod.fst same).trans former)
  rw [← shows.table] at inHomes
  rcases atHome _ inHomes with own | ⟨other, here⟩
  · exact foreign own
  · -- A buffer of another device has not been written, and is not clean.
    rw [shows.head] at here
    have foreign' : (heads other).dev ≠ dev := by
      rw [show (heads other).dev = (heads' bh).dev from
        congrArg Prod.fst here]
      exact foreign
    refine stores.not_secured moved ⟨other, ?_, ?_⟩
    · rw [written_place]
      exact here
    · unfold Clean
      rw [written_other foreign']
      exact allDirty other

theorem pass_cleans
    {waited : Kernel n}
    (shown : Shows devices wanted heads inodes waited)
    (allDirty : ∀ other, ¬ Clean heads other)
    (isDev : (heads bh).dev = dev)
    (canSync : CanSync devices kernel dev)
    (atHome : AtHome devices kernel dev) :
    ∃ after,
      pass devices done (getblk devices done 2) bh waited = .ret () after ∧
        (after.buffer bh).dirt = false := by
  have fits :=
    (fits_written shows allDirty canSync.driven).mpr canSync.room
  have writable := canSync.writable
  rw [shows.table] at writable
  have passes :
      ReturnsIff (2 ≤ 2) _ (pass devices done (getblk devices done 2) bh)
        waited _ :=
    returnsIff_pass (nested_getblk 2) shown isDev
  obtain ⟨_, after, returned⟩ :=
    passes.returns (Nat.le_refl 2) ⟨writable, fits⟩
  obtain ⟨_, heads', stores, shown'⟩ := passes.ensures _ _ returned
  refine ⟨after, returned, ?_⟩
  rw [show (after.buffer bh).dirt = _ from
    congrArg Head.dirt (shown'.head bh)]
  exact written_own canSync.driven
    (dev_stays shows allDirty isDev atHome stores)

end Returns

/--
`getblk` returns if and only if there is a way to get a buffer; and if no block of an
inode of another device has to be read for it, one pass makes the chosen buffer clean.
-/
theorem getblk_returns
    (wellFormed : kernel.cache.WellFormed)
    (readable :
      ∀ bh index,
        (kernel.inode index).home devices =
            some (headOf (kernel.buffer bh)).place →
          (kernel.buffer bh).uptodate = true →
            devices.readable (kernel.buffer bh).dev
              (kernel.buffer bh).blocknr = true)
    (unused : ∃ bh, (kernel.buffer bh).count = 0) :
    ((∃ fuel bh after,
        getblk devices done fuel dev block kernel = .ret bh after) ↔
      Evicts devices kernel dev block) ∧
    ∀ bh,
      Buffers.findBuffer dev block kernel.cache = none →
        Buffers.choose kernel.cache = some bh →
          (kernel.buffer bh).dirt = true →
            Evicts devices kernel dev block →
              AtHome devices kernel (kernel.buffer bh).dev →
                ∃ waited after,
                  waitOnBuffer devices done bh kernel = .ret () waited ∧
                    pass devices done (getblk devices done 2) bh waited =
                      .ret () after ∧
                    (after.buffer bh).dirt = false := by
  have shows :
      Shows devices
        {place | ∃ index, (kernel.inode index).home devices = some place}
        kernel.heads kernel.inode kernel := by
    refine ⟨rfl, rfl, wellFormed, ?_, ?_⟩
    · rintro bh ⟨index, home⟩
      exact readable bh index home
    · exact fun index place home => ⟨index, home⟩
  constructor
  · have exactly :
        ∀ fuel,
          ReturnsIff (4 ≤ fuel) (Evicts devices kernel dev block)
            (getblk devices done fuel dev block) kernel
            (fun _ _ => True) :=
      fun _ => returnsIff_getblk shows unused
    constructor
    · rintro ⟨fuel, bh, after, returned⟩
      exact ((exactly fuel).ensures bh after returned).1
    · intro evicts
      obtain ⟨bh, after, returned⟩ :=
        (exactly 4).returns (Nat.le_refl 4) evicts
      exact ⟨4, bh, after, returned⟩
  · intro bh missed chosen dirty evicts atHome
    have allDirty := (shows.choose chosen).2 dirty
    obtain ⟨_, waited, isWaited, shown, _⟩ :=
      (satisfies_waitOnBuffer shows :
        (waitOnBuffer devices done bh).Satisfies kernel _ _).returns
    have canSync : CanSync devices kernel (kernel.buffer bh).dev := by
      rcases evicts with found | ⟨other, isClean⟩ | ⟨_, same, canSync⟩
      · rw [missed] at found
        cases found
      · exact absurd isClean (allDirty other)
      · cases chosen.symm.trans same
        exact canSync
    obtain ⟨after, returned, isClean⟩ :=
      pass_cleans shows shown allDirty rfl canSync atHome
    exact ⟨waited, after, isWaited, returned, isClean⟩

/-! ## One buffer -/

/-- A cache with one buffer, which nobody uses. -/
def oneBuffer (dev blocknr : Nat) (dirt : Bool) : Buffers.Cache 1 where
  buffer _ :=
    { dev := dev, blocknr := blocknr, count := 0, dirt := dirt,
      lock := false, uptodate := false }
  chain := { next := fun _ => none, prev := fun _ => none }
  free := { next := fun _ => some 0, prev := fun _ => some 0 }
  hash := fun key =>
    if key = Buffers.hashfn dev blocknr then some 0 else none
  freeList := 0

theorem oneBuffer_wellFormed
    {blocknr : Nat} {dirt : Bool}
    (hasDevice : dev ≠ 0) :
    (oneBuffer dev blocknr dirt).WellFormed where
  freeRing :=
    ⟨[], List.nodup_singleton 0,
      fun index => List.mem_singleton.mpr (Subsingleton.elim index 0),
      rfl, rfl, trivial⟩
  chains key := by
    have bucket (index : Fin 1) :
        (oneBuffer dev blocknr dirt).bucket index = some (Buffers.hashfn dev blocknr) :=
      if_neg hasDevice
    by_cases this : key = Buffers.hashfn dev blocknr
    · refine ⟨[0], List.nodup_singleton 0, ?_, if_pos this, rfl, rfl,
        trivial⟩
      intro index
      rw [bucket, this, Subsingleton.elim index 0]
      exact iff_of_true List.mem_cons_self rfl
    · refine ⟨[], List.nodup_nil, ?_, if_neg this, trivial⟩
      intro index
      rw [bucket]
      exact iff_of_false List.not_mem_nil
        (fun same => this (Option.some_inj.mp same).symm)
  loose _ noDevice := absurd noDevice hasDevice
  unique _ _ _ _ _ := Subsingleton.elim _ _

/-- Only hard disks have a driver, and the inodes begin at their third block. -/
def hardDisks : Devices where
  requestFn major := major == 3
  super dev := if dev / 256 = 3 then some 3 else none
  bad _ _ := false

/-- A kernel with one buffer, and some dirty inodes of a hard disk. -/
def oneBufferKernel
    (dev blocknr : Nat)
    (nums : List Nat) : Kernel 1 where
  cache := oneBuffer dev blocknr true
  inode index :=
    match nums[index.val]? with
    | none => { dev := 0, num := 0, dirt := false, lock := false, pipe := false }
    | some num =>
      { dev := 0x301, num := num, dirt := true, lock := false, pipe := false }
  time := 0

section OneBuffer

variable {blocknr : Nat} {nums : List Nat}

theorem writable_oneBuffer :
    Writable hardDisks (oneBufferKernel dev blocknr nums).inode
      allInodes where
  unlocked index _ := by
    unfold oneBufferKernel
    simp only
    split <;> rfl
  home index _ := by
    unfold oneBufferKernel
    simp only
    split
    · exact fun pending => nomatch pending
    · rename_i num _
      have readable : (hardDisks.drives 0x301 && !false) = true := by decide
      have mounted : hardDisks.super 0x301 = some 3 := by decide
      refine fun _ => ⟨(0x301, 3 + (num - 1) / 32), ?_, readable⟩
      unfold Inode.home
      rw [mounted]
      rfl

theorem shows_oneBuffer
    (hasDevice : dev ≠ 0) :
    Shows hardDisks Set.univ (oneBufferKernel dev blocknr nums).heads
      (oneBufferKernel dev blocknr nums).inode
      (oneBufferKernel dev blocknr nums) where
  heads := rfl
  table := rfl
  wellFormed := oneBuffer_wellFormed hasDevice
  readable _ _ uptodate := nomatch uptodate
  wants _ place _ := Set.mem_univ place

theorem oneBuffer_readable :
    ∀ bh index,
      ((oneBufferKernel dev blocknr nums).inode index).home hardDisks =
          some (headOf ((oneBufferKernel dev blocknr nums).buffer bh)).place →
        ((oneBufferKernel dev blocknr nums).buffer bh).uptodate = true →
          hardDisks.readable ((oneBufferKernel dev blocknr nums).buffer bh).dev
            ((oneBufferKernel dev blocknr nums).buffer bh).blocknr = true :=
  fun _ _ _ uptodate => nomatch uptodate

end OneBuffer

/-- The buffer becomes that of an inode, which is written in the same pass. -/
theorem getblk_returns_oneBuffer :
    (∃ fuel bh after,
      getblk hardDisks (fun _ _ => true) fuel 0x301 9
        (oneBufferKernel 0x301 7 [5]) = .ret bh after) ∧
      ∃ waited after,
        waitOnBuffer hardDisks (fun _ _ => true) 0
            (oneBufferKernel 0x301 7 [5]) = .ret () waited ∧
          pass hardDisks (fun _ _ => true)
              (getblk hardDisks (fun _ _ => true) 2) 0 waited =
            .ret () after ∧
          (after.buffer 0).dirt = false := by
  have evicts : Evicts hardDisks (oneBufferKernel 0x301 7 [5]) 0x301 9 :=
    Or.inr (Or.inr ⟨0, by decide, by decide, writable_oneBuffer, by decide⟩)
  have hasDevice : 0x301 ≠ 0 := by decide
  constructor
  · exact (getblk_returns (oneBuffer_wellFormed hasDevice)
      oneBuffer_readable ⟨0, rfl⟩).1.mpr evicts
  · exact (getblk_returns (oneBuffer_wellFormed hasDevice)
      oneBuffer_readable ⟨0, rfl⟩).2 0 (by decide) (by decide) rfl evicts
        (by unfold AtHome; decide)

/-- A device without a driver, and more blocks of inodes than buffers. -/
theorem getblk_hangs :
    (¬∃ done fuel bh after,
      getblk hardDisks done fuel 0x301 9 (oneBufferKernel 0x500 7 []) = .ret bh after) ∧
    ¬∃ done fuel bh after,
      getblk hardDisks done fuel 0x301 9 (oneBufferKernel 0x301 7 [5, 40]) =
        .ret bh after := by
  constructor
  · rintro ⟨done, fuel, bh, after, returned⟩
    have evicts :=
      ((returnsIff_getblk (shows_oneBuffer (by decide)) ⟨0, rfl⟩).ensures bh
        after returned).1
    rcases evicts with found | ⟨_, _, isClean⟩ | ⟨_, _, canSync⟩
    · exact absurd found (by decide)
    · exact nomatch (isClean : true = false)
    · have driven : hardDisks.drives 0x500 = true := canSync.driven
      exact absurd driven (by decide)
  · rintro ⟨done, fuel, bh, after, returned⟩
    have evicts :=
      ((returnsIff_getblk (shows_oneBuffer (by decide)) ⟨0, rfl⟩).ensures bh
        after returned).1
    rcases evicts with found | ⟨_, _, isClean⟩ | ⟨_, _, canSync⟩
    · exact absurd found (by decide)
    · exact nomatch (isClean : true = false)
    · have room :
          ((oneBufferKernel 0x301 7 [5, 40]).loose hardDisks 0x301).card ≤
            ((oneBufferKernel 0x301 7 [5, 40]).own 0x301).card :=
        canSync.room
      exact absurd room (by decide)

end Evictions

end HitOs
