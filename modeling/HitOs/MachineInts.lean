import Mathlib.Algebra.Group.Int.Defs
import Mathlib.Algebra.Group.Nat.Defs
import Mathlib.Tactic.Basic

namespace HitOs

/-!
# Integers of 32 bits

What a register holds, read with its sign or without.
-/

/-- An integer as a signed word of 32 bits holds it. -/
def int32 (value : Int) : Int :=
  value.bmod (2 ^ 32)

/-- An integer as an unsigned word of 32 bits holds it. -/
def unsigned32 (value : Int) : Nat :=
  (value % 2 ^ 32).toNat

/-- The values of a signed word of 32 bits. -/
structure Fits (value : Int) : Prop where
  lower :
    -2 ^ 31 ≤ value
  upper :
    value < 2 ^ 31

variable {value : Int}

theorem fits_int32 (value : Int) : Fits (int32 value) := by
  unfold int32
  refine ⟨?_, ?_⟩
  · have := Int.le_bmod (x := value) (m := 2 ^ 32) (by decide)
    omega
  · have := Int.bmod_lt (x := value) (m := 2 ^ 32) (by decide)
    omega

/-- What fits is held exactly. -/
theorem int32_of_fits
    (fits : Fits value) :
    int32 value = value := by
  have := fits.lower
  have := fits.upper
  unfold int32
  apply Int.bmod_eq_of_le <;> omega

/-- What is too large by less than one turn is held as a negative number. -/
theorem int32_of_large
    (large : 2 ^ 31 ≤ value)
    (small : value < 2 ^ 31 + 2 ^ 32) :
    int32 value = value - 2 ^ 32 := by
  have shifted : int32 value = int32 (value - 2 ^ 32) := by
    exact (Int.sub_bmod_right value (2 ^ 32)).symm
  rw [shifted]
  exact int32_of_fits ⟨by omega, by omega⟩

end HitOs
