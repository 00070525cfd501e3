import HitOs.ExecArguments

namespace HitOs

/-!
# The slot of a program

Descriptors of the local table as the processor reads them, with `_set_base` and
`_set_limit`, and the sizes that a program has when `do_execve` has accepted its
header.  The additions of the checks are those of 32 bits.
-/

namespace Execve

open ByteStrings

/-! ## Descriptors -/

/-- The eight bytes of a `desc_struct`. -/
abbrev Descriptor := Nat → Byte

namespace Descriptor

/-- `ldt[1]` in `INIT_TASK`. -/
def initTask : Descriptor :=
  putLong 0x9f 0 (putLong 0xc0fa00 4 fun _ => 0)

/-- `_set_base` -/
def setBase (base : BitVec 32) (descriptor : Descriptor) : Descriptor :=
  let descriptor := Function.update descriptor 2 (base.extractLsb' 0 8)
  let descriptor := Function.update descriptor 3 (base.extractLsb' 8 8)
  let descriptor := Function.update descriptor 4 (base.extractLsb' 16 8)
  Function.update descriptor 7 (base.extractLsb' 24 8)

/-- `_get_base` -/
def getBase (descriptor : Descriptor) : BitVec 32 :=
  descriptor 7 ++ descriptor 4 ++ descriptor 3 ++ descriptor 2

/-- `_set_limit` -/
def setLimitField (limit : BitVec 32) (descriptor : Descriptor) : Descriptor :=
  let descriptor := Function.update descriptor 0 (limit.extractLsb' 0 8)
  let descriptor := Function.update descriptor 1 (limit.extractLsb' 8 8)
  let dh := descriptor 6 &&& 0xf0
  Function.update descriptor 6 (dh ||| limit.extractLsb' 16 8)

/-- `set_limit` -/
def setLimit (limit : BitVec 32) : Descriptor → Descriptor :=
  setLimitField ((limit - 1) >>> 12)

/-- The limit in a descriptor, of twenty bits. -/
def limitField (descriptor : Descriptor) : Nat :=
  (descriptor 0).toNat + 2 ^ 8 * (descriptor 1).toNat +
    2 ^ 16 * (descriptor 6 &&& 0x0f).toNat

/-- How many bytes a segment has; the flag says that the limit counts pages. -/
def size (descriptor : Descriptor) : Nat :=
  if descriptor 6 &&& 0x80 = 0 then
    descriptor.limitField + 1
  else
    (descriptor.limitField + 1) * pageSize

/-- What the kernel does with a descriptor of a task. -/
inductive Change where
  | base (address : BitVec 32)
  | limit (bytes : BitVec 32)

def change (descriptor : Descriptor) : Change → Descriptor
  | .base address => descriptor.setBase address
  | .limit bytes => descriptor.setLimit bytes

/-- The descriptor of a code segment after what forks and programs have done. -/
def ofChanges (changes : List Change) : Descriptor :=
  changes.foldl change initTask

end Descriptor

/-- What `change_ldt` does with the descriptor of the code segment. -/
def codeSegment (textSize : BitVec 32) (code : Descriptor) : Descriptor :=
  let codeLimit := textSize + 4096 - 1
  let codeLimit := codeLimit &&& 0xfffff000
  let codeBase := code.getBase
  (code.setBase codeBase).setLimit codeLimit

/-! ## What is promised -/

/-- A number rounded up to pages. -/
def roundUp (number : Nat) : Nat :=
  (number + (pageSize - 1)) / pageSize * pageSize

/-- A program with its file and its code segment stays inside of its slot. -/
structure InSlot
    (ex : Exec)
    (size : BitVec 32)
    (program : Program)
    (code : Descriptor) : Prop where
  text : ex.text.toNat ≤ 0x3000000
  data : ex.data.toNat ≤ 0x3000000
  bss : ex.bss.toNat ≤ 0x3000000
  sum : ex.text.toNat + ex.data.toNat + ex.bss.toNat ≤ 0x3000000
  file : 1024 + ex.text.toNat + ex.data.toNat ≤ size.toNat
  codeFirst : program.endCode.toNat ≤ program.endData.toNat
  dataSecond : program.endData.toNat ≤ program.brk.toNat
  heap : program.brk.toNat ≤ 0x3000000
  limit : code.size = roundUp ex.text.toNat
  slot : code.size ≤ dataLimit

/--
There is text, the sizes do not wrap, and if they do so with the symbols, then the file
has the text and the data all the same.
-/
structure Exec.IsExact (ex : Exec) (size : BitVec 32) : Prop where
  text : ex.text ≠ 0
  sum : ex.text.toNat + ex.data.toNat + ex.bss.toNat < 2 ^ 32
  symbols :
    ex.text.toNat + ex.data.toNat + ex.syms.toNat + 1024 < 2 ^ 32 ∨
      1024 + ex.text.toNat + ex.data.toNat ≤ size.toNat

/-! ## The limit -/

namespace Descriptor

variable {descriptor : Descriptor} {base limit : BitVec 32}

/-- Bases are not where the flags are. -/
theorem setBase_six : descriptor.setBase base 6 = descriptor 6 := by
  unfold setBase
  simp [Function.update]

theorem setLimitField_six :
    descriptor.setLimitField limit 6 =
      descriptor 6 &&& 0xf0 ||| limit.extractLsb' 16 8 := by
  unfold setLimitField
  simp [Function.update]

/-- The highest bits of a limit of twenty bits are a nibble. -/
theorem nibble_low (short : limit.toNat < 2 ^ 20) :
    limit.extractLsb' 16 8 &&& 0x0f = limit.extractLsb' 16 8 := by
  apply BitVec.eq_of_toNat_eq
  rw [BitVec.toNat_and, BitVec.extractLsb'_toNat, Nat.shiftRight_eq_div_pow]
  have small : limit.toNat / 2 ^ 16 % 2 ^ 8 < 2 ^ 4 := by omega
  exact Nat.and_two_pow_sub_one_of_lt_two_pow small

theorem nibble_high (short : limit.toNat < 2 ^ 20) :
    limit.extractLsb' 16 8 &&& 0xf0 = 0#8 := by
  have apart : (0x0f : Byte) &&& 0xf0 = 0#8 := by decide
  rw [← nibble_low short, BitVec.and_assoc, apart, BitVec.and_zero]

/-- A limit of twenty bits leaves the flags alone. -/
theorem setLimitField_flags (short : limit.toNat < 2 ^ 20) :
    descriptor.setLimitField limit 6 &&& 0xf0 = descriptor 6 &&& 0xf0 := by
  rw [setLimitField_six, BitVec.and_comm, BitVec.and_or_distrib_left,
    BitVec.and_comm _ (limit.extractLsb' 16 8), nibble_high short,
    BitVec.or_zero, BitVec.and_comm, BitVec.and_assoc, BitVec.and_self]

theorem setLimit_flags :
    descriptor.setLimit limit 6 &&& 0xf0 = descriptor 6 &&& 0xf0 := by
  refine setLimitField_flags ?_
  rw [BitVec.toNat_ushiftRight, Nat.shiftRight_eq_div_pow]
  have below := (limit - 1).isLt
  omega

/-- The limit that is stored is read. -/
theorem limitField_setLimitField (short : limit.toNat < 2 ^ 20) :
    (descriptor.setLimitField limit).limitField = limit.toNat := by
  have first : descriptor.setLimitField limit 0 = limit.extractLsb' 0 8 := by
    unfold setLimitField
    simp [Function.update]
  have second : descriptor.setLimitField limit 1 = limit.extractLsb' 8 8 := by
    unfold setLimitField
    simp [Function.update]
  have third :
      descriptor.setLimitField limit 6 &&& 0x0f = limit.extractLsb' 16 8 := by
    have apart : (0xf0 : Byte) &&& 0x0f = 0#8 := by decide
    rw [setLimitField_six, BitVec.and_comm, BitVec.and_or_distrib_left,
      BitVec.and_comm _ (limit.extractLsb' 16 8), nibble_low short,
      BitVec.and_comm, BitVec.and_assoc, apart, BitVec.and_zero,
      BitVec.zero_or]
  unfold limitField
  rw [first, second, third]
  simp only [BitVec.extractLsb'_toNat, Nat.shiftRight_eq_div_pow]
  omega

/-- The flag that a limit counts pages. -/
def CountsPages (descriptor : Descriptor) : Prop :=
  descriptor 6 &&& 0xf0 = 0xc0

theorem countsPages_ofChanges (changes : List Change) :
    (ofChanges changes).CountsPages := by
  unfold ofChanges
  have initially : initTask.CountsPages := by
    show initTask 6 &&& 0xf0 = 0xc0
    decide
  generalize initTask = descriptor at initially
  induction changes generalizing descriptor with
  | nil =>
    exact initially
  | cons first changes inductionHypothesis =>
    refine inductionHypothesis _ ?_
    cases first with
    | base address =>
      show descriptor.setBase address 6 &&& 0xf0 = 0xc0
      rw [setBase_six]
      exact initially
    | limit bytes =>
      exact setLimit_flags.trans initially

/-- The bytes of a segment whose limit is set; a limit of zero wraps. -/
theorem size_setLimit (countsPages : descriptor.CountsPages) :
    (descriptor.setLimit limit).size =
      ((limit - 1).toNat / pageSize + 1) * pageSize := by
  have flags : (descriptor.setLimit limit).CountsPages :=
    setLimit_flags.trans countsPages
  have counts : descriptor.setLimit limit 6 &&& 0x80 ≠ 0 := by
    have part : (0x80 : Byte) = 0xf0 &&& 0x80 := by decide
    rw [part, ← BitVec.and_assoc, show _ &&& _ = _ from flags]
    decide
  have value : ((limit - 1) >>> 12).toNat = (limit - 1).toNat / pageSize := by
    rw [BitVec.toNat_ushiftRight, Nat.shiftRight_eq_div_pow]
    rfl
  have field : (descriptor.setLimit limit).limitField =
      ((limit - 1) >>> 12).toNat := by
    refine limitField_setLimitField ?_
    have below := (limit - 1).isLt
    rw [value]
    unfold pageSize
    omega
  unfold size
  rw [if_neg counts, field, value]

end Descriptor

/-! ## Rounding -/

theorem and_pageMask (number : BitVec 32) :
    number &&& (0xfffff000 : BitVec 32) = (number >>> 12) <<< 12 := by
  have mask : (0xfffff000 : BitVec 32) = BitVec.allOnes 32 <<< 12 := by
    decide
  rw [mask]
  ext i inside
  simp only [BitVec.getElem_and, BitVec.getElem_shiftLeft,
    BitVec.getElem_allOnes, BitVec.getElem_ushiftRight]
  by_cases low : i < 12
  · simp [low]
  · have place : 12 + (i - 12) = i := by omega
    simp [low, place, BitVec.getLsbD_eq_getElem inside]

theorem toNat_and_pageMask (number : BitVec 32) :
    (number &&& (0xfffff000 : BitVec 32)).toNat =
      number.toNat / pageSize * pageSize := by
  have below := number.isLt
  rw [and_pageMask, BitVec.toNat_shiftLeft, BitVec.toNat_ushiftRight,
    Nat.shiftRight_eq_div_pow, Nat.shiftLeft_eq]
  unfold pageSize
  omega

section Segments

variable {ex : Exec} {size text : BitVec 32} {code : Descriptor}

/-- Text that is not empty and does not wrap has a segment of whole pages. -/
theorem size_codeSegment
    (countsPages : code.CountsPages)
    (nonzero : text ≠ 0)
    (small : text.toNat ≤ 0x3000000) :
    (codeSegment text code).size = roundUp text.toNat := by
  have positive : text.toNat ≠ 0 := fun zero =>
    nonzero (BitVec.eq_of_toNat_eq zero)
  have base : (code.setBase code.getBase).CountsPages := by
    unfold Descriptor.CountsPages
    rw [Descriptor.setBase_six]
    exact countsPages
  have rounded :
      ((text + 4096 - 1) &&& (0xfffff000 : BitVec 32)).toNat =
        roundUp text.toNat := by
    rw [toNat_and_pageMask]
    unfold roundUp
    have sum : (text + 4096 - 1).toNat = text.toNat + (pageSize - 1) := by
      unfold pageSize
      bv_omega
    rw [sum]
  unfold codeSegment
  rw [Descriptor.size_setLimit base]
  generalize (text + 4096 - 1) &&& (0xfffff000 : BitVec 32) = limit at rounded
  have less : (limit - 1).toNat = roundUp text.toNat - 1 := by
    rw [← rounded]
    unfold roundUp pageSize at rounded
    bv_omega
  rw [less]
  unfold roundUp pageSize
  omega

/-- Without text the limit wraps, and the segment is the whole address space. -/
theorem size_codeSegment_zero (countsPages : code.CountsPages) :
    (codeSegment 0 code).size = 2 ^ 32 := by
  have base : (code.setBase code.getBase).CountsPages := by
    unfold Descriptor.CountsPages
    rw [Descriptor.setBase_six]
    exact countsPages
  unfold codeSegment
  rw [Descriptor.size_setLimit base]
  rfl

/-- What the checks of `do_execve` say of the numbers in a header. -/
theorem accepted_sizes
    (accepted : ex.isBad size = false) :
    (ex.text + ex.data + ex.bss).toNat ≤ 0x3000000 ∧
      (ex.text + ex.data + ex.syms + 1024).toNat ≤ size.toNat := by
  have offset := nTxtoff_eq accepted
  unfold Exec.isBad at accepted
  simp only [Bool.or_eq_false_iff] at accepted
  have sum : ¬ 0x3000000 < ex.text + ex.data + ex.bss := by
    simpa using accepted.1.2
  have file : ¬ size < ex.text + ex.data + ex.syms + ex.nTxtoff := by
    simpa using accepted.2
  rw [offset] at file
  constructor
  · bv_omega
  · bv_omega

/-- A header without wraps and with text keeps its program in the slot. -/
theorem Exec.IsExact.inSlot
    {caller : Caller} {inode : Inode} {sp : Nat} {bytes : Nat → Byte}
    (exactly : ex.IsExact size)
    (accepted : ex.isBad size = false)
    (countsPages : code.CountsPages) :
    InSlot ex size (caller.program inode ex sp bytes)
      (codeSegment ex.text code) := by
  obtain ⟨isSome, sum, symbols⟩ := exactly
  obtain ⟨small, file⟩ := accepted_sizes accepted
  have total : ex.text.toNat + ex.data.toNat + ex.bss.toNat ≤ 0x3000000 := by
    bv_omega
  have whole := size_codeSegment countsPages isSome (by omega)
  have endData : (ex.data + ex.text).toNat = ex.data.toNat + ex.text.toNat := by
    bv_omega
  have brk : (ex.bss + (ex.data + ex.text)).toNat =
      ex.bss.toNat + (ex.data.toNat + ex.text.toNat) := by
    bv_omega
  refine
    { text := by omega, data := by omega, bss := by omega, sum := total
      file := ?_, codeFirst := ?_, dataSecond := ?_, heap := ?_
      limit := whole, slot := ?_ }
  · rcases symbols with noWrap | long
    · bv_omega
    · exact long
  · show ex.text.toNat ≤ (ex.data + ex.text).toNat
    omega
  · show (ex.data + ex.text).toNat ≤ (ex.bss + (ex.data + ex.text)).toNat
    omega
  · show (ex.bss + (ex.data + ex.text)).toNat ≤ 0x3000000
    omega
  · rw [whole]
    unfold roundUp dataLimit pageSize
    omega

/--
An accepted header keeps its program inside of its slot if and only if there is text
and the sizes do not wrap, or do so with the symbols only and the file is long enough.
-/
theorem stays_in_slot_iff
    (caller : Caller)
    (inode : Inode)
    (sp : Nat)
    (bytes : Nat → Byte)
    (changes : List Descriptor.Change)
    (accepted : ex.isBad inode.size = false) :
    InSlot ex inode.size (caller.program inode ex sp bytes)
        (codeSegment ex.text (Descriptor.ofChanges changes)) ↔
      ex.IsExact inode.size := by
  have countsPages := Descriptor.countsPages_ofChanges changes
  constructor
  · intro inSlot
    refine ⟨?_, ?_, .inr inSlot.file⟩
    · intro zero
      have wraps := size_codeSegment_zero countsPages
      have slot := inSlot.slot
      rw [zero, wraps] at slot
      exact absurd slot (by decide)
    · have sum := inSlot.sum
      omega
  · intro exactly
    exact exactly.inSlot accepted countsPages

end Segments

/-- A header of text and data. -/
def Exec.ofSizes (text data : BitVec 32) : Exec :=
  { magic := 0o413
    text := text
    data := data
    bss := 0
    syms := 0
    entry := 0
    trsize := 0
    drsize := 0 }

/-- A file of so many bytes that anyone may execute. -/
def Inode.ofSize (size : BitVec 32) : Inode :=
  { mode := 0o100111
    uid := 0
    gid := 0
    size := size
    block := none }

/-- A program with a page of text. -/
theorem stays_in_slot_iff_page :
    InSlot (.ofSizes 4096 0) 5120
      ((Caller.ofLetters 0).program (.ofSize 5120) (.ofSizes 4096 0) 0
        fun _ => 0)
      (codeSegment 4096 (Descriptor.ofChanges [])) :=
  have accepted : (Exec.ofSizes 4096 0).isBad 5120 = false := by decide
  (stays_in_slot_iff (Caller.ofLetters 0) (.ofSize 5120) 0 (fun _ => 0) []
    accepted).mpr ⟨by decide, by decide, .inl (by decide)⟩

/-- Text and data of two gigabytes each are taken for an empty program. -/
theorem halves_leave_slot :
    (Exec.ofSizes 0x80000000 0x80000000).isBad 1024 = false ∧
      ¬ InSlot (.ofSizes 0x80000000 0x80000000) 1024
        ((Caller.ofLetters 0).program (.ofSize 1024)
          (.ofSizes 0x80000000 0x80000000) 0 fun _ => 0)
        (codeSegment 0x80000000 (Descriptor.ofChanges [])) := by
  refine ⟨by decide, fun inSlot => ?_⟩
  exact absurd inSlot.text (by decide)

end Execve

end HitOs
