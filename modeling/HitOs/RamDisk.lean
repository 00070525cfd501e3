import HitOs.SuperBlocks

namespace HitOs

/-!
# Loading the RAM disk

`rd_load` copies an image from the boot floppy, from block 256 on.  The number of its
blocks is a signed integer that is counted down to zero, so a negative number passes the
test of the size and is then counted down around.

An address is its distance from `rd_start`.
-/

namespace RamDisk

open SuperBlocks

/-- What is done with the blocks of the floppy. -/
inductive Action where
  | breada (first : Nat) (ahead : List Nat)
  | bread (block : Nat)
  /-- `memcpy(cp, bh->b_data, BLOCK_SIZE)` -/
  | copy (cp block : Nat)
  deriving Repr, DecidableEq

/-- The blocks of the floppy and which of them can be read. -/
structure Disk where
  readable : Nat → Bool
  data : Nat → Block

structure State where
  memory : Nat → UInt8
  /-- `ROOT_DEV` -/
  rootDev : Nat
  /-- What has been done, the last action at the end. -/
  actions : List Action

namespace State

def log (action : Action) (state : State) : State :=
  { state with actions := state.actions ++ [action] }

def copy (cp block : Nat) (data : Block) (state : State) : State :=
  { state.log (.copy cp block) with
    memory := fun address =>
      if cp ≤ address ∧ address < cp + 1024 then data (address - cp)
      else state.memory address }

end State

/-- The call that reads a block, with others ahead unless it is one of the last. -/
def fetch (nblocks : BitVec 32) (block : Nat) : Action :=
  if 2 < nblocks.toInt then
    .breada block [block + 1, block + 2]
  else
    .bread block

/-- `while (nblocks)`, and what is done behind it -/
def load
    (disk : Disk)
    (nblocks : BitVec 32)
    (block cp : Nat)
    (state : State) : State :=
  if nblocks = 0 then
    { state with rootDev := 0x0101 }
  else
    let state := state.log (fetch nblocks block)
    if !disk.readable block then
      state
    else
      load disk (nblocks - 1) (block + 1) (cp + 1024)
        (state.copy cp block (disk.data block))
termination_by nblocks.toNat
decreasing_by bv_omega

/-- `s.s_nzones << s.s_log_zone_size` -/
def nblocks (image : Block) : BitVec 32 :=
  BitVec.ofNat 32 (fields image .nzones) <<< (fields image .logZoneSize % 32)

def rdLoad
    (disk : Disk)
    (length : BitVec 32)
    (memory : Nat → UInt8)
    (rootDev : Nat) : State :=
  let state : State := ⟨memory, rootDev, []⟩
  if length = 0 then
    state
  else if rootDev / 256 ≠ 2 then
    state
  else
    let state := state.log (.breada 257 [256, 258])
    if !disk.readable 257 then
      state
    else if fields (disk.data 257) .magic ≠ superMagic then
      state
    else if (length.sshiftRight 10).toInt < (nblocks (disk.data 257)).toInt then
      state
    else
      load disk (nblocks (disk.data 257)) 256 0 state

/-! ## The loop -/

/-- Where blocks are copied to, and which. -/
def copies (actions : List Action) : List (Nat × Nat) :=
  actions.filterMap fun
    | .copy cp block => some (cp, block)
    | _ => none

@[simp] theorem copies_fetch
    (actions : List Action)
    (nblocks : BitVec 32)
    (block : Nat) :
    copies (actions ++ [fetch nblocks block]) = copies actions := by
  unfold fetch
  split <;> simp [copies]

@[simp] theorem copies_copy
    (actions : List Action)
    (cp block : Nat) :
    copies (actions ++ [.copy cp block]) = copies actions ++ [(cp, block)] := by
  simp [copies]

/-- The copies of `length` blocks of the image, from one on. -/
def image (first length : Nat) : List (Nat × Nat) :=
  (List.range' first length).map fun block => (1024 * block, 256 + block)

/--
The loop has copied `done` of `length` blocks from `first` on, all of them or up to one
that cannot be read.
-/
structure Loads
    (disk : Disk)
    (first length : Nat)
    (before after : State)
    (done : Nat) : Prop where
  most :
    done ≤ length
  read :
    ∀ block < done, disk.readable (256 + first + block) = true
  stopped :
    done < length → disk.readable (256 + first + done) = false
  copies :
    copies after.actions = copies before.actions ++ image first done
  rootDev :
    after.rootDev = if done = length then 0x0101 else before.rootDev
  memory :
    ∀ address, after.memory address =
      if 1024 * first ≤ address ∧ address < 1024 * (first + done) then
        disk.data (256 + address / 1024) (address % 1024)
      else
        before.memory address

variable {disk : Disk} {state : State}

/-- Nothing is left to do. -/
theorem loads_zero
    (first : Nat) :
    Loads disk first 0 state { state with rootDev := 0x0101 } 0 where
  most := Nat.le_refl 0
  read _ below := absurd below (Nat.not_lt_zero _)
  stopped below := absurd below (Nat.not_lt_zero _)
  copies := by simp [image]
  rootDev := rfl
  memory address := by
    rw [if_neg (by omega)]

/-- The block after the ones before cannot be read. -/
theorem loads_failed
    {first length : Nat} {nblocks : BitVec 32}
    (failed : disk.readable (256 + first) = false) :
    Loads disk first (length + 1) state (state.log (fetch nblocks (256 + first)))
      0 where
  most := Nat.zero_le _
  read _ below := absurd below (Nat.not_lt_zero _)
  stopped _ := failed
  copies := by simp [image, State.log]
  rootDev := rfl
  memory address := by
    rw [if_neg (by omega)]
    rfl

/-- One more block in front of the others. -/
theorem loads_succ
    {first length done : Nat} {nblocks : BitVec 32} {after : State}
    (good : disk.readable (256 + first) = true)
    (loads :
      Loads disk (first + 1) length
        ((state.log (fetch nblocks (256 + first))).copy (1024 * first)
          (256 + first) (disk.data (256 + first)))
        after done) :
    Loads disk first (length + 1) state after (done + 1) where
  most := Nat.succ_le_succ loads.most
  read block below := by
    cases block with
    | zero =>
      exact good
    | succ block =>
      have read := loads.read block (Nat.lt_of_succ_lt_succ below)
      rwa [show 256 + first + (block + 1) = 256 + (first + 1) + block by omega]
  stopped below := by
    have stopped := loads.stopped (Nat.lt_of_succ_lt_succ below)
    rwa [show 256 + first + (done + 1) = 256 + (first + 1) + done by omega]
  copies := by
    rw [loads.copies]
    change
      RamDisk.copies
            (state.actions ++ [fetch nblocks (256 + first)] ++
              [.copy (1024 * first) (256 + first)]) ++
          image (first + 1) done =
        _
    rw [copies_copy, copies_fetch, List.append_assoc]
    rfl
  rootDev := by
    rw [loads.rootDev]
    simp [State.copy, State.log]
  memory address := by
    rw [loads.memory address]
    by_cases later :
        1024 * (first + 1) ≤ address ∧ address < 1024 * (first + 1 + done)
    · rw [if_pos later, if_pos (by omega)]
    · rw [if_neg later]
      by_cases now : 1024 * first ≤ address ∧ address < 1024 * first + 1024
      · have block : address / 1024 = first := by
          omega
        have rest : address - 1024 * first = address % 1024 := by
          omega
        rw [if_pos (by omega), block]
        simp only [State.copy, if_pos now, rest]
      · rw [if_neg (by omega)]
        simp only [State.copy, if_neg now]
        rfl

/-- The run of the loop, however large the number is that it counts down from. -/
theorem loads_load
    {length : Nat}
    (nblocks : BitVec 32)
    (first : Nat)
    (state : State)
    (size : nblocks.toNat = length) :
    ∃ done, Loads disk first length state
      (load disk nblocks (256 + first) (1024 * first) state) done := by
  induction length generalizing nblocks first state with
  | zero =>
    have zero : nblocks = 0 := BitVec.eq_of_toNat_eq size
    unfold load
    rw [if_pos zero]
    exact ⟨0, loads_zero first⟩
  | succ length inductionHypothesis =>
    have nonzero : nblocks ≠ 0 := by
      intro zero
      subst zero
      cases size
    unfold load
    rw [if_neg nonzero]
    dsimp only
    cases good : disk.readable (256 + first) with
    | false =>
      exact ⟨0, loads_failed good⟩
    | true =>
      have less : (nblocks - 1).toNat = length := by
        bv_omega
      obtain ⟨done, loads⟩ :=
        inductionHypothesis (nblocks - 1) (first + 1) _ less
      exact ⟨done + 1, loads_succ good loads⟩

/-! ## A call of `rd_load` -/

/-- The test of the size is reached. -/
structure Finds (disk : Disk) (rootDev : Nat) : Prop where
  floppy :
    rootDev / 256 = 2
  readable :
    disk.readable 257 = true
  magic :
    fields (disk.data 257) .magic = superMagic

/--
No byte is copied to a place behind the RAM disk, and it only becomes the root device
with all blocks of the image.
-/
structure Bounded
    (disk : Disk)
    (length : BitVec 32)
    (rootDev : Nat)
    (after : State) : Prop where
  inside :
    ∀ copy ∈ copies after.actions, copy.1 + 1024 ≤ length.toNat
  complete :
    after.rootDev ≠ rootDev →
      after.rootDev = 0x0101 ∧
        ∃ count : Nat, (nblocks (disk.data 257)).toInt = count ∧
          copies after.actions = image 0 count ∧
          ∀ address < 1024 * count,
            after.memory address = disk.data (256 + address / 1024) (address % 1024)

variable {length : BitVec 32} {memory : Nat → UInt8} {rootDev : Nat}

/-- A call that copies nothing and keeps the root device. -/
theorem bounded_unchanged
    {after : State}
    (isNone : copies after.actions = [])
    (kept : after.rootDev = rootDev) :
    Bounded disk length rootDev after where
  inside copy member := by
    rw [isNone] at member
    cases member
  complete changed := absurd kept changed

/-- The copies of the first blocks stay inside exactly where there is room for them. -/
theorem image_inside_iff
    {count room : Nat} :
    (∀ copy ∈ image 0 count, copy.1 + 1024 ≤ room) ↔ count ≤ room / 1024 := by
  constructor
  · intro inside
    cases count with
    | zero =>
      exact Nat.zero_le _
    | succ count =>
      have last : (1024 * count, 256 + count) ∈ image 0 (count + 1) :=
        List.mem_map.mpr ⟨count, List.mem_range'_1.mpr (by omega), rfl⟩
      have fits : 1024 * count + 1024 ≤ room := inside _ last
      omega
  · intro few copy member
    obtain ⟨block, below, rfl⟩ := List.mem_map.mp member
    have below' := (List.mem_range'_1.mp below).2
    show 1024 * block + 1024 ≤ room
    omega

/-- What the loop does with a number that has passed the test of the size. -/
theorem bounded_load_iff
    {before after : State} {done : Nat}
    (room : length.toNat < 2 ^ 31)
    (passed : (nblocks (disk.data 257)).toInt ≤ (length.toNat / 1024 : Nat))
    (nothing : copies before.actions = [])
    (kept : before.rootDev = rootDev)
    (loads :
      Loads disk 0 (nblocks (disk.data 257)).toNat before after done) :
    Bounded disk length rootDev after ↔
      0 ≤ (nblocks (disk.data 257)).toInt ∨
        ∃ block ≤ length.toNat / 1024, disk.readable (256 + block) = false := by
  have copied : copies after.actions = image 0 done := by
    rw [loads.copies, nothing, List.nil_append]
  have most := loads.most
  have sign := BitVec.toInt_eq_toNat_cond (nblocks (disk.data 257))
  have bound := (nblocks (disk.data 257)).isLt
  by_cases negative : 2 * (nblocks (disk.data 257)).toNat < 2 ^ 32
  · rw [if_pos negative] at sign
    refine iff_of_true ⟨?_, ?_⟩ (Or.inl (by omega))
    · rw [copied]
      exact image_inside_iff.mpr (by omega)
    · intro changed
      rw [loads.rootDev, kept] at changed
      have all : done = (nblocks (disk.data 257)).toNat :=
        Classical.byContradiction fun less => changed (if_neg less)
      refine ⟨?_, done, ?_, copied, ?_⟩
      · rw [loads.rootDev, if_pos all]
      · rw [sign, all]
      · intro address below
        rw [loads.memory address, if_pos (by omega)]
  · rw [if_neg negative] at sign
    have below : ¬0 ≤ (nblocks (disk.data 257)).toInt := by
      omega
    constructor
    · intro bounded
      have few : done ≤ length.toNat / 1024 := by
        have inside := bounded.inside
        rw [copied] at inside
        exact image_inside_iff.mp inside
      exact Or.inr ⟨done, few, loads.stopped (by omega)⟩
    · rintro (signed | ⟨block, few, failed⟩)
      · exact absurd signed below
      · have early : done ≤ block := by
          refine Nat.not_lt.mp fun less => ?_
          have read := loads.read block less
          rw [Nat.add_zero, failed] at read
          cases read
        refine ⟨?_, ?_⟩
        · rw [copied]
          exact image_inside_iff.mpr (Nat.le_trans early few)
        · intro changed
          rw [loads.rootDev, if_neg (by omega), kept] at changed
          exact absurd rfl changed

theorem toInt_sshiftRight_ten
    (positive : 0 < length.toInt) :
    length.toNat < 2 ^ 31 ∧
      (length.sshiftRight 10).toInt = (length.toNat / 1024 : Nat) := by
  have sign := BitVec.toInt_eq_toNat_cond length
  have bound := length.isLt
  have small : length.toNat < 2 ^ 31 := by
    split at sign <;> omega
  refine ⟨small, ?_⟩
  rw [if_pos (by omega)] at sign
  rw [BitVec.toInt_sshiftRight, sign, Int.shiftRight_eq_div_pow]
  omega

/-- The state before the loop. -/
def started (memory : Nat → UInt8) (rootDev : Nat) : State :=
  State.log (.breada 257 [256, 258]) ⟨memory, rootDev, []⟩

theorem rdLoad_load
    (positive : 0 < length.toInt)
    (finds : Finds disk rootDev)
    (passed : (nblocks (disk.data 257)).toInt ≤ (length.toNat / 1024 : Nat)) :
    rdLoad disk length memory rootDev =
      load disk (nblocks (disk.data 257)) 256 0 (started memory rootDev) := by
  have nonzero : length ≠ 0 := by
    rintro rfl
    exact absurd positive (by decide)
  unfold rdLoad
  dsimp only
  rw [if_neg nonzero, if_neg (not_not_intro finds.floppy), finds.readable,
    if_neg (by decide), if_neg (not_not_intro finds.magic),
    (toInt_sshiftRight_ten positive).2, if_neg (Int.not_lt.mpr passed)]
  rfl

/--
Loading stays inside exactly where the number of blocks is not negative, or where a block
cannot be read before the RAM disk is full.
-/
theorem bounded_iff
    (disk : Disk)
    (length : BitVec 32)
    (memory : Nat → UInt8)
    (rootDev : Nat)
    (positive : 0 < length.toInt) :
    Bounded disk length rootDev (rdLoad disk length memory rootDev) ↔
      (Finds disk rootDev →
        0 ≤ (nblocks (disk.data 257)).toInt ∨
          ∃ block ≤ length.toNat / 1024,
            disk.readable (256 + block) = false) := by
  obtain ⟨room, shifted⟩ := toInt_sshiftRight_ten positive
  by_cases finds : Finds disk rootDev
  · by_cases passed :
        (nblocks (disk.data 257)).toInt ≤ (length.toNat / 1024 : Nat)
    · rw [rdLoad_load positive finds passed]
      obtain ⟨done, loads⟩ :=
        loads_load (nblocks (disk.data 257)) 0 (started memory rootDev) rfl
      have loaded := bounded_load_iff room passed rfl rfl loads
      exact loaded.trans ⟨fun holds _ => holds, fun holds => holds finds⟩
    · refine iff_of_true ?_ fun _ => Or.inl (by omega)
      unfold rdLoad
      dsimp only
      rw [shifted, if_pos (Int.not_le.mp passed)]
      repeat' split
      all_goals exact bounded_unchanged rfl rfl
  · refine iff_of_true ?_ fun found => absurd found finds
    unfold rdLoad
    dsimp only
    split
    · exact bounded_unchanged rfl rfl
    split
    · exact bounded_unchanged rfl rfl
    rename_i floppy
    split
    · exact bounded_unchanged rfl rfl
    rename_i readable
    split
    · exact bounded_unchanged rfl rfl
    rename_i magic
    have found : Finds disk rootDev :=
      { floppy := Classical.not_not.mp floppy
        readable := by simpa using readable
        magic := Classical.not_not.mp magic }
    exact absurd found finds

/-- A super block of a file system of so many zones of `2 ^ logZoneSize` blocks. -/
def superOf (nzones logZoneSize : UInt8) : Block :=
  fun offset =>
    if offset = 2 then nzones
    else if offset = 10 then logZoneSize
    else if offset = 16 then 0x7f
    else if offset = 17 then 0x13
    else 0

/-- A floppy whose blocks can all be read. -/
def floppyOf (nzones logZoneSize : UInt8) : Disk where
  readable _ := true
  data _ := superOf nzones logZoneSize

theorem bounded_iff_oneBlock :
    Bounded (floppyOf 1 0) 1024 0x21c
      (rdLoad (floppyOf 1 0) 1024 (fun _ => 0) 0x21c) :=
  (bounded_iff (floppyOf 1 0) 1024 (fun _ => 0) 0x21c (by decide)).mpr
    fun _ => Or.inl (by decide)

/-- One zone of 2^31 blocks is a negative number of blocks. -/
theorem not_always_bounded :
    ¬∀ (disk : Disk) (length : BitVec 32) (memory : Nat → UInt8)
        (rootDev : Nat),
      0 < length.toInt →
        Bounded disk length rootDev (rdLoad disk length memory rootDev) := by
  intro always
  have positive : 0 < (1024 : BitVec 32).toInt := by
    decide
  have finds : Finds (floppyOf 1 31) 0x21c :=
    ⟨rfl, rfl, rfl⟩
  have passed :
      (nblocks ((floppyOf 1 31).data 257)).toInt ≤
        ((1024 : BitVec 32).toNat / 1024 : Nat) := by
    decide
  have bounded :=
    always (floppyOf 1 31) 1024 (fun _ => 0) 0x21c positive
  rw [rdLoad_load positive finds passed] at bounded
  obtain ⟨done, loads⟩ :=
    loads_load (nblocks ((floppyOf 1 31).data 257)) 0
      (started (fun _ => 0) 0x21c) rfl
  rcases (bounded_load_iff (by decide) passed rfl rfl loads).mp bounded with
    signed | ⟨block, _, failed⟩
  · exact absurd signed (by decide)
  · cases failed

end RamDisk

end HitOs
