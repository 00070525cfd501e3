import HitOs.Blocks
import Mathlib.Algebra.Group.Nat.Defs
import Mathlib.Data.List.Infix

namespace HitOs

/-!
# Structures as rows of bytes

Where the members of a structure are when each is a number as large as its alignment,
the values that they have, and what a copy of some bytes does to them.
-/

namespace StructLayouts

/-- The next multiple of an alignment. -/
def roundUp (place align : Nat) : Nat :=
  (place + (align - 1)) / align * align

/-- Where members of these sizes are, one behind the other. -/
def offsets : Nat → List Nat → List Nat
  | _, [] => []
  | place, size :: sizes =>
    roundUp place size :: offsets (roundUp place size + size) sizes

/-- The place behind the last member. -/
def endOf : Nat → List Nat → Nat
  | place, [] => place
  | place, size :: sizes => endOf (roundUp place size + size) sizes

/-- `sizeof` -/
def sizeOfStruct (sizes : List Nat) : Nat :=
  roundUp (endOf 0 sizes) (sizes.foldl max 1)

/-- Bytes of one row at a place of another one. -/
def copy (source : Block) (start : Nat) (target : Block) (place length : Nat) :
    Block :=
  fun offset =>
    if place ≤ offset ∧ offset < place + length then
      source (start + (offset - place))
    else
      target offset

/-- A number of so many bytes, the low byte first. -/
def number (bytes : Block) (offset : Nat) : Nat → Nat
  | 0 => 0
  | size + 1 => (bytes offset).toNat + 256 * number bytes (offset + 1) size

/-- The bytes of a number. -/
def digits (value : Nat) : Block :=
  fun index => UInt8.ofNat (value / 256 ^ index)

/-- A store of a number. -/
def setNumber (offset size value : Nat) (bytes : Block) : Block :=
  copy (digits value) 0 bytes offset size

variable {bytes other source target : Block}
variable {start place length offset size value : Nat}

/-- A longer structure has the members of its beginning at the same places. -/
theorem offsets_prefix
    {sizes more : List Nat}
    (begins : sizes <+: more) :
    offsets start sizes <+: offsets start more := by
  obtain ⟨rest, rfl⟩ := begins
  induction sizes generalizing start with
  | nil =>
    exact List.nil_prefix
  | cons size sizes inductionHypothesis =>
    exact List.cons_prefix_cons.mpr ⟨rfl, inductionHypothesis⟩

theorem copy_inside
    (lower : place ≤ offset)
    (upper : offset < place + length) :
    copy source start target place length offset = source (start + (offset - place)) :=
  if_pos ⟨lower, upper⟩

theorem copy_outside
    (outside : offset < place ∨ place + length ≤ offset) :
    copy source start target place length offset = target offset :=
  if_neg (by omega)

theorem number_congr
    (same : ∀ index < size, bytes (offset + index) = other (start + index)) :
    number bytes offset size = number other start size := by
  induction size generalizing offset start with
  | zero =>
    rfl
  | succ size inductionHypothesis =>
    have rest : number bytes (offset + 1) size =
        number other (start + 1) size := by
      refine inductionHypothesis fun index below => ?_
      have next := same (index + 1) (by omega)
      rwa [Nat.add_comm index, ← Nat.add_assoc, ← Nat.add_assoc] at next
    have first := same 0 (by omega)
    unfold number
    rw [rest]
    exact congrArg (fun byte : UInt8 => byte.toNat + _) first

/-- A member of what has been copied has the value that it has had. -/
theorem number_copy_inside
    (lower : place ≤ offset)
    (upper : offset + size ≤ place + length) :
    number (copy source start target place length) offset size =
      number source (start + (offset - place)) size := by
  refine number_congr fun index below => ?_
  rw [copy_inside (by omega) (by omega)]
  exact congrArg source (by omega)

theorem number_copy_outside
    (outside : offset + size ≤ place ∨ place + length ≤ offset) :
    number (copy source start target place length) offset size =
      number target offset size :=
  number_congr fun _ below => copy_outside (by omega)

end StructLayouts

end HitOs
