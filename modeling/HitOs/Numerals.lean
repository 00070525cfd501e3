import Mathlib.Data.List.GetD
import Mathlib.Data.List.Nodup
import Mathlib.Data.Nat.Digits.Lemmas

namespace HitOs

/-!
# Numerals

Numbers in a base, the highest digit first.  Zero has one digit, and no other number
begins with a zero.  Digits are written with the symbols of a list, and read back.
-/

namespace Numeral

/-- The digits of a number. -/
def digits (base n : Nat) : List Nat :=
  if n = 0 then [0] else (Nat.digits base n).reverse

/-- The number that has the given digits. -/
def value (base : Nat) (places : List Nat) : Nat :=
  Nat.ofDigits base places.reverse

variable {base n bound digit : Nat} {places : List Nat}

/-- What is written for a number reads as the number. -/
@[simp] theorem value_digits : value base (digits base n) = n := by
  unfold value digits
  split
  case isTrue zero =>
    rw [zero]
    exact Nat.ofDigits_singleton
  case isFalse =>
    rw [List.reverse_reverse]
    exact Nat.ofDigits_digits base n

/-- Zeros in front of a numeral do not change it. -/
@[simp] theorem value_zeros (count : Nat) :
    value base (List.replicate count 0 ++ places) = value base places := by
  unfold value
  rw [List.reverse_append, List.reverse_replicate, Nat.ofDigits_append_replicate_zero]

theorem digit_lt
    (bases : 2 ≤ base)
    (member : digit ∈ digits base n) :
    digit < base := by
  unfold digits at member
  split at member
  case isTrue =>
    rw [List.mem_singleton.mp member]
    omega
  case isFalse =>
    exact Nat.digits_lt_base bases (List.mem_reverse.mp member)

theorem digits_ne_nil : digits base n ≠ [] := by
  unfold digits
  split
  case isTrue => exact List.cons_ne_nil _ _
  case isFalse isSome =>
    rw [ne_eq, List.reverse_eq_nil_iff, Nat.digits_eq_nil_iff_eq_zero]
    exact isSome

/-- A number but zero does not begin with a zero. -/
theorem head_digits_ne_zero
    (nonzero : n ≠ 0)
    (first : (digits base n).head? = some digit) :
    digit ≠ 0 := by
  unfold digits at first
  rw [if_neg nonzero, List.head?_reverse,
    List.getLast?_eq_getLast_of_ne_nil (Nat.digits_ne_nil_iff_ne_zero.mpr nonzero)] at first
  rw [← Option.some.inj first]
  exact Nat.getLast_digit_ne_zero base nonzero

theorem length_digits_le
    (bases : 2 ≤ base)
    (positive : 0 < bound)
    (below : n < base ^ bound) :
    (digits base n).length ≤ bound := by
  unfold digits
  split
  case isTrue => exact positive
  case isFalse =>
    rw [List.length_reverse, Nat.digits_length_le_iff bases]
    exact below

/-! ## Symbols -/

section Symbols

variable {α : Type} [DecidableEq α] {symbols : List α} {blank : α}

/-- Digits as symbols. -/
def write (symbols : List α) (blank : α) (places : List Nat) : List α :=
  places.map fun digit => symbols.getD digit blank

/-- Symbols as digits. -/
def read (symbols : List α) (text : List α) : List Nat :=
  text.map symbols.idxOf

theorem read_append {text others : List α} :
    read symbols (text ++ others) = read symbols text ++ read symbols others :=
  List.map_append

/-- With distinct symbols, what is written reads back. -/
theorem read_write
    (distinct : symbols.Nodup)
    (inside : ∀ digit ∈ places, digit < symbols.length) :
    read symbols (write symbols blank places) = places := by
  unfold read write
  rw [List.map_map]
  refine (List.map_congr_left fun digit member => ?_).trans (List.map_id places)
  have here := inside digit member
  rw [Function.comp_apply, List.getD_eq_getElem _ _ here, id_eq]
  exact distinct.idxOf_getElem digit here

end Symbols

end Numeral

end HitOs
