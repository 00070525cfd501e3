import HitOs.ExecArguments

namespace HitOs

/-!
# The room for arguments

The only check for the end of the argument pages is a comparison that is always false.
Strings that do not fit are copied to below the first page, where the array of pages has
no entry, unless memory runs out before.
-/

namespace Execve

open ByteStrings

section Room

variable {free : Nat → Bool} {kernel user : Space} {argv fromKmem p : Nat}
variable {strings : List (List Byte)} {page : Pages}

/--
What is promised of a result of `copy_strings`: nothing but the pages is touched, and
the strings stand from the result on, where it is not zero because they do not fit or a
page for them is missing.
-/
def StaysInPages
    (free : Nat → Bool)
    (strings : List (List Byte))
    (page : Pages)
    (p : Nat) : Except Stop (Pages × Nat) → Prop
  | .error _ => False
  | .ok (page', result) =>
    ((packed strings).length ≤ p →
        ¬ Copy.Blocked free page p (packed strings).length →
          result = p - (packed strings).length ∧
            Holds (byteAt page') result ((packed strings).map some)) ∧
      (p < (packed strings).length ∨
          Copy.Blocked free page p (packed strings).length →
        result = 0)

/--
`copy_strings` stays inside of the argument pages if and only if it does nothing, its
strings fit, or memory runs out on the way to the first page.
-/
theorem copy_stays_in_pages_iff
    (offers :
      Offers (pointersFrom kernel user fromKmem)
        (spaceFrom kernel user fromKmem) argv strings)
    (inside : p ≤ maxArgPages * pageSize - 4) :
    StaysInPages free strings page p
        (copyStringsFrom free kernel user fromKmem strings.length argv page p) ↔
      p = 0 ∨ (packed strings).length ≤ p ∨
        ∃ number, number ≤ (p - 1) / pageSize ∧
          Copy.Missing free page number := by
  have within : p ≤ maxArgPages * pageSize :=
    Nat.le_trans inside (Nat.sub_le _ _)
  by_cases blocked : Copy.Blocked free page p (packed strings).length
  · obtain ⟨page', stops⟩ := copyStringsFrom_blocked offers within blocked
    rw [stops]
    refine iff_of_true ⟨fun _ gets => absurd blocked gets, fun _ => rfl⟩
      (.inr (.inr ?_))
    obtain ⟨a, _, below, missing⟩ := blocked
    exact ⟨a / pageSize, Nat.div_le_div_right (by omega), missing⟩
  · rcases Nat.lt_or_ge p (packed strings).length with more | room
    · by_cases isZero : p = 0
      · rw [copyStringsFrom_eq offers, if_pos isZero]
        exact iff_of_true
          ⟨fun fits => absurd fits (Nat.not_le.mpr more), fun _ => rfl⟩
          (.inl isZero)
      · rw [copyStringsFrom_fault offers isZero within more blocked]
        refine iff_of_false (fun never => never) ?_
        rintro (zero | fits | ⟨number, low, missing⟩)
        · exact isZero zero
        · omega
        · -- A page below `p` is needed as soon as all of `p` is.
          refine blocked ⟨number * pageSize, by omega, ?_, ?_⟩
          · have first := Nat.mul_le_of_le_div _ _ _ low
            omega
          · rwa [Nat.mul_div_cancel _ (by decide)]
    · obtain ⟨page', copies, holds, _⟩ :=
        copyStringsFrom_spec offers within room blocked
      rw [copies]
      refine iff_of_true ⟨fun _ _ => ⟨rfl, holds⟩, ?_⟩ (.inr (.inl room))
      rintro (more | stops)
      · omega
      · exact absurd stops blocked

end Room

/-! ## Strings of one letter -/

theorem ofLetters_offers
    {number : Nat}
    (fits : 0x2000 + number < dataLimit) :
    Offers
      (pointersFrom (Caller.ofLetters number).space
        (Caller.ofLetters number).space 0)
      (spaceFrom (Caller.ofLetters number).space
        (Caller.ofLetters number).space 0)
      0x1000 [List.replicate number 0x61] :=
  (Caller.ofLetters_has fits).offers

/-- A letter goes to the end of the pages. -/
theorem copy_stays_in_pages_iff_letter :
    StaysInPages (fun _ => true) [[0x61]] (fun _ => none) argRoom
      (copyStringsFrom (fun _ => true) (Caller.ofLetters 1).space
        (Caller.ofLetters 1).space 0 1 0x1000 (fun _ => none) argRoom) := by
  have offers : Offers
      (pointersFrom (Caller.ofLetters 1).space (Caller.ofLetters 1).space 0)
      (spaceFrom (Caller.ofLetters 1).space (Caller.ofLetters 1).space 0)
      0x1000 [[0x61]] :=
    ofLetters_offers (by decide)
  have inside : argRoom ≤ maxArgPages * pageSize - 4 := by decide
  have room : (packed [[0x61]]).length ≤ argRoom := by decide
  exact (copy_stays_in_pages_iff offers inside).mpr (.inr (.inl room))

/-- A string that takes a byte more than there is leaves the pages. -/
theorem copy_leaves_pages :
    ¬ StaysInPages (fun _ => true) [List.replicate argRoom 0x61]
        (fun _ => none) argRoom
        (copyStringsFrom (fun _ => true) (Caller.ofLetters argRoom).space
          (Caller.ofLetters argRoom).space 0 1 0x1000 (fun _ => none)
          argRoom) := by
  have offers : Offers
      (pointersFrom (Caller.ofLetters argRoom).space
        (Caller.ofLetters argRoom).space 0)
      (spaceFrom (Caller.ofLetters argRoom).space
        (Caller.ofLetters argRoom).space 0)
      0x1000 [List.replicate argRoom 0x61] :=
    ofLetters_offers (by decide)
  have more : argRoom < (packed [List.replicate argRoom 0x61]).length := by
    rw [packed_singleton, List.length_append, List.length_replicate]
    exact Nat.lt_succ_self _
  have gets : ¬ Copy.Blocked (fun _ => true) (fun _ => none) argRoom
      (packed [List.replicate argRoom 0x61]).length := by
    rintro ⟨_, _, _, _, refused⟩
    cases refused
  have leaves :=
    copyStringsFrom_fault offers (by decide) (by decide) more gets
  rw [List.length_singleton] at leaves
  rw [leaves]
  exact fun never => never

end Execve

end HitOs
