import Mathlib.Tactic.Basic
import Mathlib.Tactic.IntervalCases

namespace HitOs

/-!
# 32-bit words and page-table entries

A directory entry or page-table entry is a 32-bit word: the page's physical
address in its upper twenty bits, and flags in its lower twelve.  The memory
manager manipulates entries with masks; the lemmas say what each mask does to
the frame number and to the three flags that matter.
-/

/-- An `unsigned long` of the 80386. -/
abbrev Word :=
  BitVec 32

/-- A byte. -/
abbrev Byte :=
  BitVec 8

namespace Word

/-- Some bit of `mask` is set. -/
def has (entry mask : Word) : Bool :=
  entry &&& mask != 0#32

/-- The present bit, `1 & entry`. -/
def present (entry : Word) : Bool :=
  entry.has 1#32

/-- The read/write bit. -/
def writable (entry : Word) : Bool :=
  entry.has 2#32

/-- The dirty bit, which the processor sets. -/
def dirty (entry : Word) : Bool :=
  entry.has 0x40#32

/-- The page number of the address `0xfffff000 & entry`. -/
def frame (entry : Word) : Nat :=
  (entry >>> 12).toNat

/-- The physical address of the page with the given number. -/
def pageAddr (page : Nat) : Word :=
  BitVec.ofNat 32 page <<< 12

/-- `entry & ~2` -/
def writeProtect (entry : Word) : Word :=
  entry &&& ~~~2#32

/-- `entry | 2` -/
def writeEnable (entry : Word) : Word :=
  entry ||| 2#32

/-- `page | 7`: a present, writable user entry with a clear dirty bit. -/
def userEntry (page : Nat) : Word :=
  pageAddr page ||| 7#32

/-- The processor's update of an entry through which it stores. -/
def markDirty (entry : Word) : Word :=
  entry ||| 0x40#32

/-! ## Masks and flags -/

theorem has_and
    {entry mask flag : Word}
    (kept : mask &&& flag = flag) :
    has (entry &&& mask) flag = has entry flag := by
  unfold has
  rw [BitVec.and_assoc, kept]

theorem has_and_eq_false
    {entry mask flag : Word}
    (cleared : mask &&& flag = 0#32) :
    has (entry &&& mask) flag = false := by
  unfold has
  rw [BitVec.and_assoc, cleared]
  simp

theorem has_or
    {entry mask flag : Word}
    (disjoint : mask &&& flag = 0#32) :
    has (entry ||| mask) flag = has entry flag := by
  unfold has
  rw [BitVec.and_or_distrib_right, disjoint, BitVec.or_zero]

@[simp] theorem present_writeProtect
    (entry : Word) :
    (writeProtect entry).present = entry.present :=
  has_and (by decide)

@[simp] theorem dirty_writeProtect
    (entry : Word) :
    (writeProtect entry).dirty = entry.dirty :=
  has_and (by decide)

@[simp] theorem writable_writeProtect
    (entry : Word) :
    (writeProtect entry).writable = false :=
  has_and_eq_false (by decide)

@[simp] theorem present_writeEnable
    (entry : Word) :
    (writeEnable entry).present = entry.present :=
  has_or (by decide)

@[simp] theorem present_markDirty
    (entry : Word) :
    (markDirty entry).present = entry.present :=
  has_or (by decide)

@[simp] theorem writable_markDirty
    (entry : Word) :
    (markDirty entry).writable = entry.writable :=
  has_or (by decide)

/-- A flag that the mask sets is set. -/
theorem has_or_of_flag
    {entry mask flag : Word}
    (set : mask &&& flag = flag)
    (nonzero : flag ≠ 0#32) :
    has (entry ||| mask) flag = true := by
  unfold has
  rw [BitVec.and_or_distrib_right, set, bne_iff_ne]
  intro zero
  apply nonzero
  have absorbed :
      flag = (entry &&& flag ||| flag) &&& flag := by
    rw [BitVec.and_or_distrib_right, BitVec.and_assoc, BitVec.and_self]
    ext bit
    simp
  rw [absorbed, zero]
  simp

@[simp] theorem writable_writeEnable
    (entry : Word) :
    (writeEnable entry).writable = true :=
  has_or_of_flag (by decide) (by decide)

@[simp] theorem dirty_markDirty
    (entry : Word) :
    (markDirty entry).dirty = true :=
  has_or_of_flag (by decide) (by decide)

@[simp] theorem present_userEntry
    (page : Nat) :
    (userEntry page).present = true :=
  has_or_of_flag (by decide) (by decide)

@[simp] theorem writable_userEntry
    (page : Nat) :
    (userEntry page).writable = true :=
  has_or_of_flag (by decide) (by decide)

/-- Testing a one-bit mask is reading the bit. -/
theorem has_twoPow
    {entry : Word}
    {bit : Nat}
    (inRange : bit < 32) :
    has entry (BitVec.twoPow 32 bit) = entry.getLsbD bit := by
  unfold has
  rw [BitVec.and_twoPow]
  cases entry.getLsbD bit
  · simp
  · simp only [↓reduceIte, bne_iff_ne]
    intro zero
    have bitValue :=
      congrArg (fun word : Word => word.getLsbD bit) zero
    simp [inRange] at bitValue

@[simp] theorem present_zero :
    present 0#32 = false :=
  rfl

/-! ## Masks and frame numbers -/

@[simp] theorem frame_writeProtect
    (entry : Word) :
    (writeProtect entry).frame = entry.frame := by
  unfold frame writeProtect
  rw [BitVec.ushiftRight_and_distrib,
    show (~~~2#32 : Word) >>> 12 = BitVec.allOnes 32 >>> 12 by decide,
    ← BitVec.ushiftRight_and_distrib, BitVec.and_allOnes]

theorem frame_or
    {entry mask : Word}
    (low : mask >>> 12 = 0#32) :
    (entry ||| mask).frame = entry.frame := by
  unfold frame
  rw [BitVec.ushiftRight_or_distrib, low, BitVec.or_zero]

@[simp] theorem frame_writeEnable
    (entry : Word) :
    (writeEnable entry).frame = entry.frame :=
  frame_or (by decide)

@[simp] theorem frame_markDirty
    (entry : Word) :
    (markDirty entry).frame = entry.frame :=
  frame_or (by decide)

theorem frame_eq_div
    (entry : Word) :
    entry.frame = entry.toNat / 4096 := by
  unfold frame
  rw [BitVec.toNat_ushiftRight, Nat.shiftRight_eq_div_pow]

/-- Page numbers of the 4 GB address space survive the round trip. -/
theorem frame_userEntry
    {page : Nat}
    (inRange : page < 2 ^ 20) :
    (userEntry page).frame = page := by
  unfold userEntry
  rw [frame_or (by decide), frame_eq_div]
  unfold pageAddr
  rw [BitVec.toNat_shiftLeft, BitVec.toNat_ofNat, Nat.shiftLeft_eq]
  omega

/-! ## The tests of the source -/

/-- A present entry is an odd word. -/
theorem toNat_odd_of_present
    {entry : Word}
    (isPresent : entry.present = true) :
    entry.toNat % 2 = 1 := by
  unfold present has at isPresent
  rw [bne_iff_ne] at isPresent
  have masked : (entry &&& 1#32).toNat ≠ 0 := by
    intro zero
    exact isPresent (BitVec.eq_of_toNat_eq zero)
  rw [BitVec.toNat_and] at masked
  have oneBit :
      entry.toNat &&& (1#32).toNat = entry.toNat % 2 := by
    exact Nat.and_one_is_mod entry.toNat
  omega

/--
`this_page > LOW_MEM` compares the whole entry, flags included; for a present
entry it says that the page lies at or above 1 MB.
-/
theorem lowMem_lt_iff
    {entry : Word}
    (isPresent : entry.present = true) :
    0x100000#32 < entry ↔ 256 ≤ entry.frame := by
  have odd := toNat_odd_of_present isPresent
  rw [BitVec.lt_def, frame_eq_div]
  simp only [BitVec.toNat_ofNat]
  omega

/-- `(this_page - LOW_MEM) >> 12` is the page's index in `mem_map`. -/
theorem mapNr_eq
    {entry : Word}
    (aboveLow : 256 ≤ entry.frame) :
    ((entry - 0x100000#32) >>> 12).toNat = entry.frame - 256 := by
  rw [frame_eq_div] at aboveLow ⊢
  rw [BitVec.toNat_ushiftRight, Nat.shiftRight_eq_div_pow, BitVec.toNat_sub]
  simp only [BitVec.toNat_ofNat]
  have bound := entry.isLt
  omega

/-- A masked comparison tests one flag for set and the other for clear. -/
theorem and_two_flags
    {entry : Word}
    {firstBit secondBit : Nat}
    (different : firstBit ≠ secondBit)
    (firstRange : firstBit < 32)
    (secondRange : secondBit < 32) :
    entry &&&
          (BitVec.twoPow 32 firstBit ||| BitVec.twoPow 32 secondBit) =
        BitVec.twoPow 32 firstBit ↔
      has entry (BitVec.twoPow 32 firstBit) = true ∧
        has entry (BitVec.twoPow 32 secondBit) = false := by
  rw [has_twoPow firstRange, has_twoPow secondRange]
  constructor
  · intro same
    have atFirst :=
      congrArg (fun word : Word => word.getLsbD firstBit) same
    have atSecond :=
      congrArg (fun word : Word => word.getLsbD secondBit) same
    simp only [BitVec.getLsbD_and, BitVec.getLsbD_or,
      BitVec.getLsbD_twoPow] at atFirst atSecond
    simp [firstRange, secondRange, different] at atFirst atSecond
    simp [firstRange, secondRange, atFirst, atSecond]
  · rintro ⟨atFirst, atSecond⟩
    rw [BitVec.and_or_distrib_left, BitVec.and_twoPow,
      BitVec.and_twoPow, atFirst, atSecond]
    simp

/-- `(phys_addr & 0x41) == 0x01`: the page is present and clean. -/
theorem clean_iff
    (entry : Word) :
    entry &&& 0x41#32 = 1#32 ↔ entry.present = true ∧ entry.dirty = false :=
  and_two_flags
    (show 0 ≠ 6 by decide) (by decide) (by decide)

/-- `(3 & entry) == 1`: the page is present and not writable. -/
theorem readOnly_iff
    (entry : Word) :
    3#32 &&& entry = 1#32 ↔
      entry.present = true ∧ entry.writable = false := by
  rw [BitVec.and_comm]
  exact and_two_flags
    (show 0 ≠ 1 by decide) (by decide) (by decide)

/-! ## The bytes of a word -/

/-- The byte at an address within a word, lowest byte first. -/
def byte (word : Word) (lane : Nat) : Byte :=
  word.extractLsb' (8 * lane) 8

/-- Replace one byte of a word. -/
def setByte (word : Word) (lane : Nat) (value : Byte) : Word :=
  word &&& ~~~(0xff#32 <<< (8 * lane)) |||
    value.setWidth 32 <<< (8 * lane)

theorem getLsbD_lowByte
    (index : Nat) :
    (0xff#32).getLsbD index = decide (index < 8) := by
  by_cases inByte : index < 8
  · interval_cases index <;> rfl
  · have small : 0xff#32 = (0xff#8).setWidth 32 := by
      decide
    rw [small, BitVec.getLsbD_setWidth, BitVec.getLsbD_of_ge _ _ (by omega)]
    simp [inByte]

theorem getLsbD_setByte
    (word : Word)
    {lane : Nat}
    (value : Byte)
    {index : Nat}
    (inWord : index < 32) :
    (word.setByte lane value).getLsbD index =
      if 8 * lane ≤ index ∧ index < 8 * lane + 8 then
        value.getLsbD (index - 8 * lane)
      else
        word.getLsbD index := by
  unfold setByte
  rw [BitVec.getLsbD_or, BitVec.getLsbD_and, BitVec.getLsbD_not,
    BitVec.getLsbD_shiftLeft, BitVec.getLsbD_shiftLeft,
    BitVec.getLsbD_setWidth, getLsbD_lowByte]
  by_cases below : index < 8 * lane
  · rw [if_neg (by omega)]
    simp [inWord, below]
  · by_cases inLane : index < 8 * lane + 8
    · rw [if_pos (by omega)]
      have offset : index - 8 * lane < 8 := by
        omega
      simp [inWord, below, offset]
      omega
    · rw [if_neg (by omega)]
      have outside : ¬ index - 8 * lane < 8 := by
        omega
      have noBit : value.getLsbD (index - 8 * lane) = false :=
        BitVec.getLsbD_of_ge value _ (by omega)
      simp [inWord, outside, noBit]

/-- A byte read from the lane just stored to, or from another one. -/
theorem byte_setByte
    (word : Word)
    {lane other : Nat}
    (value : Byte)
    (laneRange : other < 4) :
    (word.setByte lane value).byte other =
      if other = lane then value else word.byte other := by
  apply BitVec.eq_of_getLsbD_eq
  intro index inByte
  have inWord : 8 * other + index < 32 := by
    omega
  have inByte' : index < 8 := inByte
  rw [byte, BitVec.getLsbD_extractLsb', getLsbD_setByte word value inWord]
  by_cases same : other = lane
  · subst same
    rw [if_pos rfl, if_pos (by omega), Nat.add_sub_cancel_left]
    simp [inByte']
  · rw [if_neg same, if_neg (by omega), byte,
      BitVec.getLsbD_extractLsb']

/-- The word with the given bytes. -/
def ofBytes (bytes : Nat → Byte) : Word :=
  (((setByte 0#32 0 (bytes 0)).setByte 1 (bytes 1)).setByte 2
    (bytes 2)).setByte 3 (bytes 3)

theorem byte_ofBytes
    (bytes : Nat → Byte)
    {lane : Nat}
    (laneRange : lane < 4) :
    (ofBytes bytes).byte lane = bytes lane := by
  unfold ofBytes
  rw [byte_setByte _ _ laneRange, byte_setByte _ _ laneRange,
    byte_setByte _ _ laneRange, byte_setByte _ _ laneRange]
  interval_cases lane <;> simp

end Word

end HitOs
