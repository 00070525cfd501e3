import Mathlib.Tactic.Basic

namespace HitOs

/-!
# Blocks of bytes with 16-bit words

A block maps offsets to bytes.  A word is two bytes, the low one first.
-/

/-- The contents of a block. -/
def Block :=
  Nat → UInt8

namespace Block

/-- A block cleared to zero. -/
def zeros : Block :=
  fun _ => 0

/-- Store one byte. -/
def setByte (offset : Nat) (value : UInt8) (block : Block) : Block :=
  fun place => if place = offset then value else block place

/-- The 16-bit word at an index. -/
def word (block : Block) (index : Nat) : Nat :=
  (block (2 * index)).toNat + 256 * (block (2 * index + 1)).toNat

/-- Store a 16-bit word at an index. -/
def setWord (index value : Nat) (block : Block) : Block :=
  setByte (2 * index + 1) (UInt8.ofNat (value / 256))
    (setByte (2 * index) (UInt8.ofNat value) block)

variable {block : Block} {offset other index value : Nat} {byte : UInt8}

@[simp] theorem zeros_apply : zeros offset = 0 :=
  rfl

@[simp] theorem setByte_self : setByte offset byte block offset = byte :=
  if_pos rfl

@[simp] theorem setByte_of_ne
    (different : other ≠ offset) :
    setByte offset byte block other = block other :=
  if_neg different

@[simp] theorem word_zeros : word zeros index = 0 :=
  rfl

theorem word_setWord_self
    (small : value < 65536) :
    word (setWord index value block) index = value := by
  unfold word setWord
  rw [setByte_self, setByte_of_ne (by omega), setByte_self,
    UInt8.toNat_ofNat', UInt8.toNat_ofNat']
  omega

theorem word_setWord_of_ne
    (different : other ≠ index) :
    word (setWord index value block) other = word block other := by
  unfold word setWord
  rw [setByte_of_ne (by omega), setByte_of_ne (by omega),
    setByte_of_ne (by omega), setByte_of_ne (by omega)]

end Block

end HitOs
