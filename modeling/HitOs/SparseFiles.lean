import Mathlib.Tactic.Basic
import Mathlib.Data.List.GetD

namespace HitOs

/-!
# Sparse byte arrays

What a file is for: bytes at all positions, 0 where nothing has been written, and
a size that writes beyond it raise.
-/

/-- A byte array with a size. -/
@[ext]
structure SparseFile where
  size : Nat
  byte : Nat → UInt8

namespace SparseFile

/-- No bytes. -/
def empty : SparseFile where
  size := 0
  byte _ := 0

/-- Make the file reach at least to a position. -/
def grow (stop : Nat) (file : SparseFile) : SparseFile where
  size := max file.size stop
  byte := file.byte

/-- Replace bytes from a position on. -/
def overwrite (start : Nat) (bytes : List UInt8) (file : SparseFile) :
    SparseFile where
  size := file.size
  byte place :=
    if start ≤ place ∧ place < start + bytes.length then
      bytes.getD (place - start) 0
    else
      file.byte place

/-- Store bytes from a position on. -/
def write (start : Nat) (bytes : List UInt8) (file : SparseFile) :
    SparseFile :=
  if bytes = [] then file
  else (file.grow (start + bytes.length)).overwrite start bytes

/-- The bytes from a position on. -/
def slice (file : SparseFile) (start count : Nat) : List UInt8 :=
  (List.range count).map fun index => file.byte (start + index)

/-- What a read of `count` bytes can return before the end of the file. -/
def clip (file : SparseFile) (start count : Nat) : Nat :=
  min count (file.size - start)

variable {file : SparseFile} {start : Nat}

@[simp] theorem write_nil : file.write start [] = file :=
  if_pos rfl

theorem write_of_ne_nil
    {bytes : List UInt8}
    (notEmpty : bytes ≠ []) :
    file.write start bytes = (file.grow (start + bytes.length)).overwrite start bytes :=
  if_neg notEmpty

/-- Two writes, one behind the other, are one. -/
theorem write_append
    (first second : List UInt8) :
    file.write start (first ++ second) =
      (file.write start first).write (start + first.length) second := by
  by_cases noneFirst : first = []
  · simp [noneFirst]
  by_cases noneSecond : second = []
  · simp [noneSecond]
  rw [write_of_ne_nil noneFirst, write_of_ne_nil noneSecond,
    write_of_ne_nil (by simp [noneFirst])]
  ext place
  · simp only [overwrite, grow, List.length_append]
    omega
  · simp only [overwrite, grow, List.length_append]
    by_cases inSecond :
        start + first.length ≤ place ∧ place < start + first.length + second.length
    · rw [if_pos inSecond, if_pos (by omega),
        List.getD_append_right _ _ _ _ (by omega), Nat.sub_sub]
    · rw [if_neg inSecond]
      by_cases inFirst : start ≤ place ∧ place < start + first.length
      · rw [if_pos inFirst, if_pos (by omega),
          List.getD_append _ _ _ _ (by omega)]
      · rw [if_neg inFirst, if_neg (by omega)]

/-- Two slices, one behind the other, are one. -/
theorem slice_add
    (first second : Nat) :
    file.slice start (first + second) =
      file.slice start first ++ file.slice (start + first) second := by
  unfold slice
  rw [List.range_add, List.map_append, List.map_map]
  congr 1
  apply List.map_congr_left
  intro index _
  simp only [Function.comp, Nat.add_assoc]

end SparseFile

end HitOs
