import HitOs.ExecLimits
import HitOs.PageWord

namespace HitOs

/-!
# Segment descriptors

The macros of `sched.h` that read and write a descriptor, instruction by instruction: bytes
of a descriptor go through the halves of `%edx`, which is turned by sixteen bits between
them and is taken from the stack again in the end.  What the instructions do to the bytes
is what `_set_base`, `_set_limit` and `_get_base` do to a descriptor as a whole.
-/

namespace Segments

open Execve (Descriptor)

/-- The state that the instructions work on. -/
structure Cpu where
  edx : Word
  stack : List Word
  memory : Nat → Byte

namespace Cpu

/-- `push %edx` -/
def push (cpu : Cpu) : Cpu :=
  { cpu with stack := cpu.edx :: cpu.stack }

/-- `pop %edx` -/
def pop (cpu : Cpu) : Cpu :=
  { cpu with edx := cpu.stack.headD 0, stack := cpu.stack.tail }

/-- `movb`, from the byte of `%edx` that `%dl` or `%dh` is. -/
def storeByte (lane place : Nat) (cpu : Cpu) : Cpu :=
  { cpu with memory := Function.update cpu.memory place (cpu.edx.byte lane) }

/-- `movw %dx,place` -/
def storeWord (place : Nat) (cpu : Cpu) : Cpu :=
  (cpu.storeByte 0 place).storeByte 1 (place + 1)

/-- `movb`, to a byte of `%edx`. -/
def loadByte (lane place : Nat) (cpu : Cpu) : Cpu :=
  { cpu with edx := cpu.edx.setByte lane (cpu.memory place) }

/-- `movw place,%dx` -/
def loadWord (place : Nat) (cpu : Cpu) : Cpu :=
  (cpu.loadByte 0 place).loadByte 1 (place + 1)

/-- `rorl $16,%edx` -/
def turn (cpu : Cpu) : Cpu :=
  { cpu with edx := cpu.edx.rotateRight 16 }

/-- `shll $16,%edx` -/
def shift (cpu : Cpu) : Cpu :=
  { cpu with edx := cpu.edx <<< 16 }

/-- `andb $mask,%dh` -/
def maskHigh (mask : Byte) (cpu : Cpu) : Cpu :=
  { cpu with edx := cpu.edx.setByte 1 (mask &&& cpu.edx.byte 1) }

/-- `orb %dh,%dl` -/
def join (cpu : Cpu) : Cpu :=
  { cpu with edx := cpu.edx.setByte 0 (cpu.edx.byte 1 ||| cpu.edx.byte 0) }

/-- The descriptor at an address. -/
def descriptor (address : Nat) (cpu : Cpu) : Descriptor :=
  fun index => cpu.memory (address + index)

end Cpu

/-- `_set_base` -/
def setBase (address : Nat) (base : Word) (cpu : Cpu) : Cpu :=
  let cpu := { cpu with edx := base }
  let cpu := cpu.push
  let cpu := cpu.storeWord (address + 2)
  let cpu := cpu.turn
  let cpu := cpu.storeByte 0 (address + 4)
  let cpu := cpu.storeByte 1 (address + 7)
  cpu.pop

/-- `_set_limit` -/
def setLimitField (address : Nat) (limit : Word) (cpu : Cpu) : Cpu :=
  let cpu := { cpu with edx := limit }
  let cpu := cpu.push
  let cpu := cpu.storeWord address
  let cpu := cpu.turn
  let cpu := cpu.loadByte 1 (address + 6)
  let cpu := cpu.maskHigh 0xf0
  let cpu := cpu.join
  let cpu := cpu.storeByte 0 (address + 6)
  cpu.pop

/-- `set_limit` -/
def setLimit (address : Nat) (limit : Word) : Cpu → Cpu :=
  setLimitField address ((limit - 1) >>> 12)

/-- `_get_base`, where `%edx` is as it happens to be. -/
def getBase (address : Nat) (cpu : Cpu) : Word :=
  let cpu := cpu.loadByte 1 (address + 7)
  let cpu := cpu.loadByte 0 (address + 4)
  let cpu := cpu.shift
  let cpu := cpu.loadWord (address + 2)
  cpu.edx

/-- `lsll`: the limit as the processor reads it, in bytes if the flag says pages. -/
def loadLimit (descriptor : Descriptor) : Word :=
  let raw := BitVec.ofNat 32 descriptor.limitField
  if descriptor 6 &&& 0x80 = 0 then raw else raw <<< 12 ||| 0xfff

/-- `get_limit`, of the segment with the descriptor at an address. -/
def getLimit (address : Nat) (cpu : Cpu) : Word :=
  loadLimit (cpu.descriptor address) + 1

/-! ## Bytes of words -/

section Bytes

variable {word other : Word} {lane : Nat} {value : Byte}

/-- Words of the same bytes are the same. -/
theorem eq_of_bytes
    (same : ∀ lane < 4, word.byte lane = other.byte lane) :
    word = other := by
  apply BitVec.eq_of_getLsbD_eq
  intro index inside
  have inByte : index % 8 < 8 := Nat.mod_lt index (by decide)
  have place : 8 * (index / 8) + index % 8 = index := Nat.div_add_mod index 8
  have bits := congrArg (fun byte : Byte => byte.getLsbD (index % 8))
    (same (index / 8) (by omega))
  simpa [Word.byte, inByte, place] using bits

/-- A turn by sixteen bits exchanges the halves of a word. -/
theorem byte_rotateRight (inside : lane < 4) :
    Word.byte (word.rotateRight 16) lane = word.byte ((lane + 2) % 4) := by
  apply BitVec.eq_of_getLsbD_eq
  intro index inByte
  rw [Word.byte, Word.byte, BitVec.getLsbD_extractLsb',
    BitVec.getLsbD_extractLsb', BitVec.getLsbD_rotateRight]
  by_cases low : 8 * lane + index < 16
  · have place : 8 * ((lane + 2) % 4) + index = 16 + (8 * lane + index) := by omega
    simp [low, place]
  · have place : 8 * ((lane + 2) % 4) + index = 8 * lane + index - 16 := by omega
    have bit : 8 * lane + index < 32 := by omega
    simp [low, bit, place]

theorem byte_shiftLeft (inside : lane < 4) :
    Word.byte (word <<< 16) lane = if lane < 2 then 0 else word.byte (lane - 2) := by
  apply BitVec.eq_of_getLsbD_eq
  intro index inByte
  rw [Word.byte, BitVec.getLsbD_extractLsb', BitVec.getLsbD_shiftLeft]
  by_cases low : lane < 2
  · have before : 8 * lane + index < 16 := by omega
    simp [low, before]
  · have bit : 8 * lane + index < 32 := by omega
    have place : 8 * lane + index - 16 = 8 * (lane - 2) + index := by omega
    have after : ¬ 8 * lane + index < 16 := by omega
    simp [low, bit, place, after, Word.byte]

/-- The bytes of a word that is put together from four bytes. -/
theorem byte_append {first second third fourth : Byte} (inside : lane < 4) :
    Word.byte (fourth ++ third ++ second ++ first) lane =
      [first, second, third, fourth].getD lane 0 := by
  apply BitVec.eq_of_getLsbD_eq
  intro index inByte
  rw [Word.byte, BitVec.getLsbD_extractLsb']
  change (_ && (fourth ++ third ++ second ++ first : BitVec (8 + 8 + 8 + 8)).getLsbD _) = _
  simp only [BitVec.getLsbD_append]
  interval_cases lane <;> grind

end Bytes

/-! ## The instructions and a descriptor as a whole -/

section Instructions

variable {cpu : Cpu} {address place : Nat} {base limit : Word}

/-- The bytes that `_set_base` stores, where they are. -/
theorem memory_setBase :
    (setBase address base cpu).memory =
      Function.update
        (Function.update
          (Function.update
            (Function.update cpu.memory (address + 2) (base.byte 0))
            (address + 3) (base.byte 1))
          (address + 4) (base.byte 2))
        (address + 7) (base.byte 3) := by
  simp [setBase, Cpu.push, Cpu.storeWord, Cpu.storeByte, Cpu.turn, Cpu.pop,
    byte_rotateRight]

/-- The bytes that `_set_limit` stores; the flags are read and stored again. -/
theorem memory_setLimitField :
    (setLimitField address limit cpu).memory =
      Function.update
        (Function.update
          (Function.update cpu.memory address (limit.byte 0))
          (address + 1) (limit.byte 1))
        (address + 6)
        (0xf0 &&& cpu.memory (address + 6) ||| limit.byte 2) := by
  simp [setLimitField, Cpu.push, Cpu.storeWord, Cpu.storeByte, Cpu.turn,
    Cpu.loadByte, Cpu.maskHigh, Cpu.join, Cpu.pop, byte_rotateRight,
    Word.byte_setByte, Function.update]

/-- `%edx` and the stack are as they were. -/
theorem registers_setBase :
    (setBase address base cpu).edx = base ∧
      (setBase address base cpu).stack = cpu.stack :=
  ⟨rfl, rfl⟩

theorem registers_setLimitField :
    (setLimitField address limit cpu).edx = limit ∧
      (setLimitField address limit cpu).stack = cpu.stack :=
  ⟨rfl, rfl⟩

theorem descriptor_setBase :
    (setBase address base cpu).descriptor address =
      (cpu.descriptor address).setBase base := by
  funext index
  simp [Cpu.descriptor, memory_setBase, Descriptor.setBase, Function.update, Word.byte]

theorem descriptor_setLimit :
    (setLimit address limit cpu).descriptor address =
      (cpu.descriptor address).setLimit limit := by
  funext index
  simp [Cpu.descriptor, setLimit, memory_setLimitField, Descriptor.setLimit,
    Descriptor.setLimitField, Function.update, Word.byte, BitVec.and_comm]

/-- The bytes of the base are where `_get_base` looks for them. -/
theorem getBase_eq :
    getBase address cpu = (cpu.descriptor address).getBase := by
  apply eq_of_bytes
  intro lane inside
  rw [Descriptor.getBase, byte_append inside]
  interval_cases lane <;>
    simp [getBase, Cpu.loadByte, Cpu.loadWord, Cpu.shift, Cpu.descriptor,
      Word.byte_setByte, byte_shiftLeft]

end Instructions

/-! ## What the macros promise -/

/-- The last byte of a segment whose limit counts pages, as the processor reads it. -/
def pagedLimit (descriptor : Descriptor) : Nat :=
  descriptor.limitField * 2 ^ 12 + 0xfff

/-- A base and a limit go into one descriptor without touching anything else. -/
structure Consistent
    (address : Nat)
    (base limit : Word)
    (cpu : Cpu) : Prop where
  based :
    getBase address (setBase address base cpu) = base
  baseOnly :
    ∀ place, place ∉ [address + 2, address + 3, address + 4, address + 7] →
      (setBase address base cpu).memory place = cpu.memory place
  limited :
    ((setLimit address limit cpu).descriptor address).limitField =
      ((limit - 1) >>> 12).toNat
  limitOnly :
    ∀ place, place ∉ [address, address + 1, address + 6] →
      (setLimit address limit cpu).memory place = cpu.memory place
  flags :
    (setLimit address limit cpu).memory (address + 6) &&& 0xf0 =
      cpu.memory (address + 6) &&& 0xf0
  commute :
    (setLimit address limit (setBase address base cpu)).memory =
      (setBase address base (setLimit address limit cpu)).memory
  rounded :
    1 ≤ limit.toNat →
      pagedLimit ((setLimit address limit cpu).descriptor address) + 1 =
        Execve.roundUp limit.toNat
  read :
    1 ≤ limit.toNat → cpu.memory (address + 6) &&& 0x80 ≠ 0 →
      getLimit address (setLimit address limit cpu) =
        BitVec.ofNat 32 (Execve.roundUp limit.toNat)
  restored :
    (setBase address base cpu).edx = base ∧
      (setBase address base cpu).stack = cpu.stack ∧
      (setLimit address limit cpu).edx = (limit - 1) >>> 12 ∧
      (setLimit address limit cpu).stack = cpu.stack

section Promises

variable {cpu : Cpu} {descriptor : Descriptor} {address : Nat}
variable {base limit : Word}

theorem getBase_setBase : (descriptor.setBase base).getBase = base := by
  apply eq_of_bytes
  intro lane inside
  rw [Descriptor.getBase, byte_append inside]
  interval_cases lane <;>
    simp [Descriptor.setBase, Function.update, Word.byte]

theorem pages_lt : ((limit - 1) >>> 12).toNat < 2 ^ 20 := by
  rw [BitVec.toNat_ushiftRight, Nat.shiftRight_eq_div_pow]
  have below := (limit - 1).isLt
  omega

theorem limitField_setLimit :
    (descriptor.setLimit limit).limitField = ((limit - 1) >>> 12).toNat :=
  Descriptor.limitField_setLimitField pages_lt

/-- Whole pages, from the number of the last one. -/
theorem pagedLimit_setLimit (positive : 1 ≤ limit.toNat) :
    pagedLimit (descriptor.setLimit limit) + 1 = Execve.roundUp limit.toNat := by
  have less : (limit - 1).toNat = limit.toNat - 1 := by bv_omega
  rw [pagedLimit, limitField_setLimit, BitVec.toNat_ushiftRight,
    Nat.shiftRight_eq_div_pow, less, Execve.roundUp, Execve.pageSize]
  omega

/-- Where the flag says pages, the limit is read as such. -/
theorem loadLimit_of_pages (pages : descriptor 6 &&& 0x80 ≠ 0) :
    loadLimit descriptor = BitVec.ofNat 32 (pagedLimit descriptor) := by
  have joined (number : Nat) :
      number * 2 ^ 12 ||| 0xfff = number * 2 ^ 12 + 0xfff := by
    rw [Nat.mul_comm]
    exact (Nat.two_pow_add_eq_or_of_lt (by decide) number).symm
  have turns (number : Nat) :
      number % 2 ^ 32 * 2 ^ 12 % 2 ^ 32 = number % 2 ^ 20 * 2 ^ 12 := by
    omega
  rw [loadLimit, if_neg pages, pagedLimit]
  apply BitVec.eq_of_toNat_eq
  rw [BitVec.toNat_or, BitVec.toNat_shiftLeft, BitVec.toNat_ofNat,
    BitVec.toNat_ofNat, Nat.shiftLeft_eq, turns]
  refine (joined _).trans ?_
  omega

theorem getLimit_setLimit
    (positive : 1 ≤ limit.toNat)
    (pages : cpu.memory (address + 6) &&& 0x80 ≠ 0) :
    getLimit address (setLimit address limit cpu) =
      BitVec.ofNat 32 (Execve.roundUp limit.toNat) := by
  have kept :
      (cpu.descriptor address).setLimit limit 6 &&& 0x80 ≠ 0 := by
    have part : (0x80 : Byte) = 0xf0 &&& 0x80 := by decide
    rw [part, ← BitVec.and_assoc, Descriptor.setLimit_flags, BitVec.and_assoc, ← part]
    exact pages
  rw [getLimit, descriptor_setLimit, loadLimit_of_pages kept,
    ← pagedLimit_setLimit positive, BitVec.ofNat_add]
  rfl

/-- What one of the macros stores, the other one leaves alone. -/
theorem memory_commute :
    (setLimit address limit (setBase address base cpu)).memory =
      (setBase address base (setLimit address limit cpu)).memory := by
  funext place
  simp only [setLimit, memory_setLimitField, memory_setBase, Function.update]
  grind

end Promises

/--
For every descriptor in memory, every base and every limit, what is stored is read back,
the two stores touch nothing else and commute, and a limit is rounded up to pages.
-/
theorem descriptors_consistent
    (cpu : Cpu)
    (address : Nat)
    (base limit : Word) :
    Consistent address base limit cpu where
  based := by
    rw [getBase_eq, descriptor_setBase, getBase_setBase]
  baseOnly place outside := by
    simp only [List.mem_cons, List.not_mem_nil, or_false, not_or] at outside
    simp [memory_setBase, Function.update, outside]
  limited := by
    rw [descriptor_setLimit, limitField_setLimit]
  limitOnly place outside := by
    simp only [List.mem_cons, List.not_mem_nil, or_false, not_or] at outside
    simp [setLimit, memory_setLimitField, Function.update, outside]
  flags := by
    have kept :
        (cpu.descriptor address).setLimit limit 6 &&& 0xf0 =
          cpu.descriptor address 6 &&& 0xf0 :=
      Descriptor.setLimit_flags
    rwa [← descriptor_setLimit] at kept
  commute :=
    memory_commute
  rounded positive := by
    rw [descriptor_setLimit, pagedLimit_setLimit positive]
  read :=
    getLimit_setLimit
  restored :=
    ⟨registers_setBase.1, registers_setBase.2,
      registers_setLimitField.1, registers_setLimitField.2⟩

end Segments

end HitOs
