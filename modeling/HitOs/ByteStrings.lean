import HitOs.Rings
import Mathlib.Algebra.Group.Nat.Defs
import Mathlib.Data.List.TakeDrop

namespace HitOs

/-!
# Strings and tables of pointers in a memory of bytes

A memory is a function from addresses to bytes.  A string ends with a zero byte, and a
table of pointers with a zero pointer; a pointer is a `long` of four bytes, the lowest
one first.  Strings are packed one behind the other, and a reader finds the next one by
the length of the one before.
-/

namespace ByteStrings

abbrev Byte := BitVec 8

/-! ## Successive places -/

section Places

variable {α : Type} {places places' : Nat → α} {start : Nat} {xs ys : List α}

/-- What stands in successive places. -/
def Holds (places : Nat → α) (start : Nat) (xs : List α) : Prop :=
  Ring.load places start xs.length = xs

theorem holds_iff :
    Holds places start xs ↔
      ∀ i (inside : i < xs.length), places (start + i) = xs[i] := by
  unfold Holds Ring.load
  constructor
  · intro same i inside
    have there := List.getElem_of_eq same (i := i) (by simpa using inside)
    simpa using there
  · intro same
    refine List.ext_getElem (by simp) fun i _ inside => ?_
    simpa using same i inside

theorem holds_singleton {x : α} : Holds places start [x] ↔ places start = x :=
  List.singleton_inj

theorem holds_append :
    Holds places start (xs ++ ys) ↔
      Holds places start xs ∧ Holds places (start + xs.length) ys := by
  unfold Holds
  rw [List.length_append, Ring.load_add]
  constructor
  · intro same
    exact List.append_inj same Ring.length_load
  · rintro ⟨first, second⟩
    rw [first, second]

/-- Places beside those that have changed. -/
theorem Holds.congr
    (holds : Holds places start xs)
    (same :
      ∀ a, start ≤ a → a < start + xs.length → places' a = places a) :
    Holds places' start xs := by
  rw [holds_iff] at holds ⊢
  intro i inside
  rw [same _ (by omega) (by omega)]
  exact holds i inside

theorem fill_of_outside
    {a : Nat}
    (outside : a < start ∨ start + xs.length ≤ a) :
    Ring.fill xs start places a = places a := by
  induction xs generalizing start places with
  | nil =>
    rfl
  | cons x xs inductionHypothesis =>
    rw [List.length_cons] at outside
    unfold Ring.fill
    rw [inductionHypothesis (by omega)]
    exact Function.update_of_ne (by omega) _ _

/-- What is stored stands there. -/
theorem holds_fill : Holds (Ring.fill xs start places) start xs := by
  rw [holds_iff]
  induction xs generalizing start places with
  | nil =>
    intro i inside
    exact absurd inside (Nat.not_lt_zero i)
  | cons x xs inductionHypothesis =>
    intro i inside
    unfold Ring.fill
    cases i with
    | zero =>
      rw [fill_of_outside (by omega)]
      exact Function.update_self _ _ _
    | succ i =>
      have shorter : i < xs.length := Nat.lt_of_succ_lt_succ inside
      have later :
          Ring.fill xs (start + 1) (Function.update places start x)
            (start + 1 + i) = xs[i] :=
        inductionHypothesis i shorter
      have place : start + (i + 1) = start + 1 + i := by omega
      rw [List.getElem_cons_succ, place]
      exact later

end Places

/-! ## Pointers -/

/-- A `long`, the lowest byte first. -/
def getLong (bytes : Nat → Byte) (a : Nat) : Nat :=
  (bytes a).toNat + 2 ^ 8 * (bytes (a + 1)).toNat +
    2 ^ 16 * (bytes (a + 2)).toNat + 2 ^ 24 * (bytes (a + 3)).toNat

/-- The bytes of a `long`. -/
def longBytes (value : Nat) : List Byte :=
  [BitVec.ofNat 8 value, BitVec.ofNat 8 (value / 2 ^ 8),
    BitVec.ofNat 8 (value / 2 ^ 16), BitVec.ofNat 8 (value / 2 ^ 24)]

def putLong (value a : Nat) (bytes : Nat → Byte) : Nat → Byte :=
  Ring.fill (longBytes value) a bytes

section Pointers

variable {bytes bytes' : Nat → Byte} {a b value : Nat}

theorem getLong_congr
    (same : ∀ c, a ≤ c → c < a + 4 → bytes' c = bytes c) :
    getLong bytes' a = getLong bytes a := by
  unfold getLong
  rw [same a (by omega) (by omega), same (a + 1) (by omega) (by omega),
    same (a + 2) (by omega) (by omega), same (a + 3) (by omega) (by omega)]

theorem putLong_of_outside (outside : b < a ∨ a + 4 ≤ b) :
    putLong value a bytes b = bytes b :=
  fill_of_outside outside

/-- A `long` of 32 bits is read back. -/
theorem getLong_putLong (fits : value < 2 ^ 32) :
    getLong (putLong value a bytes) a = value := by
  have stands : Holds (putLong value a bytes) a (longBytes value) :=
    holds_fill
  have inside {i : Nat} (below : i < 4) : i < (longBytes value).length :=
    below
  rw [holds_iff] at stands
  have first : putLong value a bytes a = BitVec.ofNat 8 value :=
    stands 0 (inside (by decide))
  have second : putLong value a bytes (a + 1) =
      BitVec.ofNat 8 (value / 2 ^ 8) :=
    stands 1 (inside (by decide))
  have third : putLong value a bytes (a + 2) =
      BitVec.ofNat 8 (value / 2 ^ 16) :=
    stands 2 (inside (by decide))
  have fourth : putLong value a bytes (a + 3) =
      BitVec.ofNat 8 (value / 2 ^ 24) :=
    stands 3 (inside (by decide))
  unfold getLong
  rw [first, second, third, fourth]
  simp only [BitVec.toNat_ofNat]
  omega

end Pointers

/-! ## Strings -/

/-- A string stands at an address. -/
structure IsString (bytes : Nat → Byte) (a : Nat) (string : List Byte) :
    Prop where
  nonzero : ∀ c ∈ string, c ≠ 0
  holds : Holds bytes a (string ++ [0])

/-- A table of pointers to strings stands at an address. -/
structure IsVector
    (bytes : Nat → Byte)
    (table : Nat)
    (strings : List (List Byte)) : Prop where
  pointers :
    ∀ i, i < strings.length → getLong bytes (table + 4 * i) ≠ 0
  pointed :
    ∀ i (inside : i < strings.length),
      IsString bytes (getLong bytes (table + 4 * i)) strings[i]
  last : getLong bytes (table + 4 * strings.length) = 0

/-- A table points to strings that are packed from an address on. -/
def Points (bytes : Nat → Byte) : Nat → Nat → List (List Byte) → Prop
  | table, _, [] => getLong bytes table = 0
  | table, a, string :: strings =>
    getLong bytes table = a ∧ Points bytes (table + 4) (a + (string.length + 1)) strings

/-- Strings one behind the other. -/
def packed (strings : List (List Byte)) : List Byte :=
  strings.flatMap fun string => string ++ [0]

/-- The length of a string with its zero, if it ends within `room` bytes. -/
def stringLength (bytes : Nat → Byte) : Nat → Nat → Option Nat
  | 0, _ => none
  | room + 1, a =>
    if bytes a = 0 then
      some 1
    else
      (stringLength bytes room (a + 1)).map (· + 1)

/--
Copy bytes from one place to another until a zero is copied, but no more than `left`;
`i` have been copied before.  The index where the copy stops comes back.
-/
def copyUpTo
    (bytes : Nat → Byte)
    (source target : Nat) :
    Nat → Nat → (Nat → Byte) → Nat × (Nat → Byte)
  | 0, i, places => (i, places)
  | left + 1, i, places =>
    let places := Function.update places (target + i) (bytes (source + i))
    if bytes (source + i) = 0 then
      (i, places)
    else
      copyUpTo bytes source target left (i + 1) places

section Strings

variable {bytes bytes' : Nat → Byte} {a : Nat}
variable {string : List Byte} {strings : List (List Byte)}

theorem packed_cons :
    packed (string :: strings) = string ++ [0] ++ packed strings :=
  List.flatMap_cons

theorem packed_append {others : List (List Byte)} :
    packed (strings ++ others) = packed strings ++ packed others :=
  List.flatMap_append

theorem packed_singleton : packed [string] = string ++ [0] :=
  List.append_nil _

/-- Every string takes a byte. -/
theorem length_le_packed : strings.length ≤ (packed strings).length := by
  induction strings with
  | nil =>
    exact Nat.le_refl 0
  | cons string strings inductionHypothesis =>
    rw [packed_cons, List.length_append, List.length_append,
      List.length_cons, List.length_singleton]
    omega

/-- A string begins with its characters. -/
theorem IsString.char
    {i : Nat}
    (isString : IsString bytes a string)
    (inside : i < string.length) :
    bytes (a + i) = string[i] := by
  have there :=
    holds_iff.mp isString.holds i
      (by rw [List.length_append]; omega)
  rw [there, List.getElem_append_left inside]

theorem IsString.zero
    (isString : IsString bytes a string) :
    bytes (a + string.length) = 0 := by
  have there :=
    holds_iff.mp isString.holds string.length
      (by rw [List.length_append, List.length_singleton]; omega)
  rw [there, List.getElem_concat_length rfl]

/-- A copy of a string stops behind its zero, or where the room ends. -/
theorem IsString.copyUpTo_eq
    {i : Nat}
    (isString : IsString bytes a string)
    (before : i ≤ string.length)
    (target left : Nat)
    (places : Nat → Byte) :
    copyUpTo bytes a target left i places =
      if string.length < i + left then
        (string.length, Ring.fill (string.drop i ++ [0]) (target + i) places)
      else
        (i + left, Ring.fill ((string.drop i).take left) (target + i) places) := by
  induction left generalizing i places with
  | zero =>
    have none : ¬ string.length < i + 0 := by omega
    rw [if_neg none]
    rfl
  | succ left inductionHypothesis =>
    unfold copyUpTo
    by_cases ends : i = string.length
    · subst ends
      rw [isString.zero, if_pos rfl, if_pos (by omega), List.drop_length]
      rfl
    · have inside : i < string.length := by omega
      have other : bytes (a + i) ≠ 0 := by
        rw [isString.char inside]
        exact isString.nonzero _ (List.getElem_mem inside)
      have rest : i + 1 + left = i + (left + 1) := by omega
      rw [if_neg other, inductionHypothesis (by omega), isString.char inside,
        List.drop_eq_getElem_cons inside, rest]
      rfl

/-- What has been copied before stays. -/
theorem copyUpTo_of_below
    {source target left i b : Nat} {places : Nat → Byte}
    (below : b < target + i) :
    (copyUpTo bytes source target left i places).2 b = places b := by
  induction left generalizing i places with
  | zero =>
    rfl
  | succ left inductionHypothesis =>
    have kept :
        Function.update places (target + i) (bytes (source + i)) b = places b :=
      Function.update_of_ne (Nat.ne_of_lt below) _ _
    unfold copyUpTo
    dsimp only
    split
    · exact kept
    · rw [inductionHypothesis (by omega), kept]

/-- Characters without a zero are copied, whatever is behind them. -/
theorem copyUpTo_chars
    {source left i : Nat}
    (holds : Holds bytes (source + i) string)
    (nonzero : ∀ c ∈ string, c ≠ 0)
    (fits : string.length ≤ left)
    (target : Nat)
    (places : Nat → Byte) :
    i + string.length ≤ (copyUpTo bytes source target left i places).1 ∧
      Holds (copyUpTo bytes source target left i places).2 (target + i)
        string := by
  induction string generalizing left i places with
  | nil =>
    refine ⟨?_, rfl⟩
    induction left generalizing i places with
    | zero =>
      exact Nat.le_refl _
    | succ left inductionHypothesis =>
      unfold copyUpTo
      dsimp only
      split
      · exact Nat.le_refl _
      · exact Nat.le_trans (Nat.le_succ i)
          (inductionHypothesis rfl (Nat.zero_le _) _)
  | cons c string inductionHypothesis =>
    rw [List.length_cons] at fits ⊢
    obtain ⟨left, rfl⟩ := Nat.exists_eq_succ_of_ne_zero (by omega : left ≠ 0)
    have split : Holds bytes (source + i) ([c] ++ string) := holds
    obtain ⟨first, rest⟩ := holds_append.mp split
    have char : bytes (source + i) = c :=
      holds_iff.mp first 0 (Nat.zero_lt_one)
    have other : bytes (source + i) ≠ 0 :=
      char ▸ nonzero c List.mem_cons_self
    obtain ⟨reaches, stands⟩ :=
      inductionHypothesis (i := i + 1) rest
        (fun c member => nonzero c (List.mem_cons_of_mem _ member))
        (show _ ≤ left by omega)
        (Function.update places (target + i) (bytes (source + i)))
    unfold copyUpTo
    dsimp only
    rw [if_neg other]
    refine ⟨by omega, ?_⟩
    have again : Holds _ (target + i) ([c] ++ string) :=
      holds_append.mpr ⟨holds_iff.mpr fun j inside => ?_, stands⟩
    · exact again
    · obtain rfl : j = 0 := Nat.lt_one_iff.mp inside
      rw [copyUpTo_of_below (by omega), Nat.add_zero, Function.update_self]
      exact char

theorem IsVector.nil
    {table : Nat}
    (last : getLong bytes table = 0) :
    IsVector bytes table [] :=
  ⟨fun i inside => absurd inside (Nat.not_lt_zero i),
    fun i inside => absurd inside (Nat.not_lt_zero i), last⟩

theorem IsVector.cons
    {table : Nat}
    (pointer : getLong bytes table ≠ 0)
    (isString : IsString bytes (getLong bytes table) string)
    (rest : IsVector bytes (table + 4) strings) :
    IsVector bytes table (string :: strings) := by
  have next (i : Nat) : table + 4 * (i + 1) = table + 4 + 4 * i := by
    omega
  refine ⟨?_, ?_, ?_⟩
  · intro i inside
    cases i with
    | zero =>
      exact pointer
    | succ i =>
      rw [next]
      exact rest.pointers i (Nat.lt_of_succ_lt_succ inside)
  · intro i inside
    cases i with
    | zero =>
      exact isString
    | succ i =>
      rw [next, List.getElem_cons_succ]
      exact rest.pointed i (Nat.lt_of_succ_lt_succ inside)
  · rw [List.length_cons, next]
    exact rest.last

/-- Only what the table has matters. -/
theorem Points.congr
    {table : Nat}
    (points : Points bytes table a strings)
    (same :
      ∀ b, table ≤ b → b < table + 4 * (strings.length + 1) → bytes' b = bytes b) :
    Points bytes' table a strings := by
  induction strings generalizing table a with
  | nil =>
    exact (getLong_congr fun b above below =>
      same b above (by simpa using below)).trans points
  | cons string strings inductionHypothesis =>
    rw [List.length_cons] at same
    exact
      ⟨(getLong_congr fun b above below =>
          same b above (by omega)).trans points.1,
        inductionHypothesis points.2 fun b above below =>
          same b (by omega) (by omega)⟩

/-- A table that points to packed strings is a table of strings. -/
theorem Points.isVector
    {table : Nat}
    (points : Points bytes table a strings)
    (holds : Holds bytes a (packed strings))
    (nonzero : ∀ string ∈ strings, ∀ c ∈ string, c ≠ 0)
    (notNull : 0 < a) :
    IsVector bytes table strings := by
  induction strings generalizing table a with
  | nil =>
    exact .nil points
  | cons string strings inductionHypothesis =>
    obtain ⟨pointer, rest⟩ := points
    rw [packed_cons, holds_append, List.length_append, List.length_singleton] at holds
    refine .cons ?_ ?_ ?_
    · rw [pointer]
      exact Nat.ne_of_gt notNull
    · rw [pointer]
      exact ⟨nonzero string List.mem_cons_self, holds.1⟩
    · exact inductionHypothesis rest holds.2
        (fun other member =>
          nonzero other (List.mem_cons_of_mem _ member))
        (Nat.lt_of_lt_of_le notNull (Nat.le_add_right _ _))

/-- A string is measured. -/
theorem stringLength_eq
    {room : Nat}
    (isString : IsString bytes a string)
    (fits : string.length < room) :
    stringLength bytes room a = some (string.length + 1) := by
  obtain ⟨nonzero, holds⟩ := isString
  induction string generalizing a room with
  | nil =>
    obtain ⟨room, rfl⟩ := Nat.exists_eq_succ_of_ne_zero (by omega : room ≠ 0)
    have zero : bytes a = 0 := by
      have there := holds_iff.mp holds 0 (by simp)
      simpa using there
    unfold stringLength
    rw [if_pos zero]
    rfl
  | cons c string inductionHypothesis =>
    rw [List.length_cons] at fits
    obtain ⟨room, rfl⟩ := Nat.exists_eq_succ_of_ne_zero (by omega : room ≠ 0)
    have first : bytes a = c := by
      have there := holds_iff.mp holds 0 (by simp)
      simpa using there
    have split : Holds bytes a ([c] ++ (string ++ [0])) := holds
    have rest : Holds bytes (a + 1) (string ++ [0]) :=
      (holds_append.mp split).2
    have other : bytes a ≠ 0 :=
      first ▸ nonzero c List.mem_cons_self
    unfold stringLength
    rw [if_neg other, inductionHypothesis (by omega)
      (fun c member => nonzero c (List.mem_cons_of_mem _ member)) rest]
    rfl

end Strings

end ByteStrings

end HitOs
