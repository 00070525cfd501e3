import HitOs.OpenFiles

namespace HitOs

/-!
# The counts of the file table

`f_count` of every entry of `file_table` is the number of descriptors that refer
to it.  The lemmas follow the count through the two changes that calls make: a
descriptor that is given an entry and one that gives it up.
-/

namespace Files

open Routine

/-- The descriptors of all tasks, by task and number. -/
@[irreducible] def descriptors : Finset (Nat × Nat) :=
  Finset.range nrTasks ×ˢ Finset.range nrOpen

theorem mem_descriptors
    {slot : Nat × Nat} :
    slot ∈ descriptors ↔ slot.1 < 64 ∧ slot.2 < 20 := by
  unfold descriptors nrTasks nrOpen
  rw [Finset.mem_product, Finset.mem_range, Finset.mem_range]

/-- Descriptors refer to entries of the table, and the counts count them. -/
structure Counted
    (entry : Nat × Nat → Option Nat)
    (count : Nat → BitVec 16) : Prop where
  range :
    ∀ slot index, entry slot = some index → slot ∈ descriptors ∧ index < nrFile
  counted :
    ∀ index, index < nrFile → (count index).toNat = occurrences descriptors entry index

section Counting

variable {entry : Nat × Nat → Option Nat} {count : Nat → BitVec 16}

/-- There are fewer descriptors than `f_count` can count. -/
theorem Counted.bounded
    (_ : Counted entry count)
    (index : Nat) :
    occurrences descriptors entry index ≤ 1280 :=
  Nat.le_trans (Finset.card_filter_le _ _) (Nat.le_of_eq (by
    unfold descriptors
    rw [Finset.card_product, Finset.card_range, Finset.card_range]
    rfl))

namespace Counted

/-- One descriptor moves its reference from one file to another. -/
theorem moved
    (_ : Counted entry count)
    {slot : Nat × Nat}
    (member : slot ∈ descriptors)
    (value : Option Nat)
    (index : Nat) :
    occurrences descriptors (Function.update entry slot value) index +
        refersTo (entry slot) index =
      occurrences descriptors entry index + refersTo value index := by
  have change :
      occurrences descriptors (Function.update entry slot value) index +
          refersTo (entry slot) index =
        occurrences descriptors entry index +
          refersTo (Function.update entry slot value slot) index :=
    occurrences_change member
      (fun other _ different => Function.update_of_ne different _ _) index
  rwa [Function.update_self] at change

/-- A descriptor in use is counted. -/
theorem count_ne_zero
    (counted : Counted entry count)
    {slot : Nat × Nat} {index : Nat}
    (refers : entry slot = some index) :
    count index ≠ 0#16 := by
  intro zero
  obtain ⟨member, inTable⟩ := counted.range slot index refers
  have same := counted.counted index inTable
  have positive := occurrences_pos member refers
  rw [zero] at same
  exact absurd same (Nat.ne_of_lt positive)

/-- No descriptor refers to an entry whose count is zero. -/
theorem unused
    (counted : Counted entry count)
    {index : Nat}
    (free : count index = 0#16)
    (slot : Nat × Nat) :
    entry slot ≠ some index :=
  fun refers => counted.count_ne_zero refers free

theorem attach
    (counted : Counted entry count)
    {slot : Nat × Nat} {index : Nat}
    (member : slot ∈ descriptors)
    (inTable : index < nrFile)
    (free : entry slot = none) :
    Counted (Function.update entry slot (some index))
      (Function.update count index (count index + 1#16)) := by
  refine ⟨?_, ?_⟩
  · intro other target refers
    by_cases same : other = slot
    · subst same
      rw [Function.update_self] at refers
      cases refers
      exact ⟨member, inTable⟩
    · rw [Function.update_of_ne same] at refers
      exact counted.range other target refers
  · intro target targetInTable
    have moved :=
      counted.moved member (some index) target
    rw [free, refersTo_none] at moved
    have before := counted.counted target targetInTable
    have bounded := counted.bounded target
    by_cases same : target = index
    · subst same
      rw [refersTo_self] at moved
      rw [Function.update_self, BitVec.toNat_add, before]
      simp only [BitVec.toNat_ofNat]
      omega
    · rw [refersTo_of_ne (Ne.symm same)] at moved
      rw [Function.update_of_ne same]
      omega

theorem detach
    (counted : Counted entry count)
    {slot : Nat × Nat} {index : Nat}
    (refers : entry slot = some index) :
    Counted (Function.update entry slot none)
      (Function.update count index (count index - 1#16)) := by
  have notZero := counted.count_ne_zero refers
  obtain ⟨member, inTable⟩ := counted.range slot index refers
  refine ⟨?_, ?_⟩
  · intro other target otherRefers
    by_cases same : other = slot
    · subst same
      rw [Function.update_self] at otherRefers
      cases otherRefers
    · rw [Function.update_of_ne same] at otherRefers
      exact counted.range other target otherRefers
  · intro target targetInTable
    have moved :=
      counted.moved member none target
    rw [refers, refersTo_none] at moved
    have before := counted.counted target targetInTable
    by_cases same : target = index
    · subst same
      have positive : 0 < (count target).toNat := by
        apply Nat.pos_of_ne_zero
        intro zero
        exact notZero (BitVec.eq_of_toNat_eq zero)
      have small := (count target).isLt
      rw [refersTo_self] at moved
      rw [Function.update_self, BitVec.toNat_sub]
      simp only [BitVec.toNat_ofNat]
      omega
    · rw [refersTo_of_ne (Ne.symm same)] at moved
      rw [Function.update_of_ne same]
      omega

end Counted

end Counting

/-! ## The descriptors of a system -/

namespace System

variable {system : System} {current fd : Nat}

def entry (system : System) (slot : Nat × Nat) : Option Nat :=
  system.filp slot.1 slot.2

def count (system : System) (index : Nat) : BitVec 16 :=
  (system.file index).count

/-- The accounting invariant. -/
def Counted (system : System) : Prop :=
  Files.Counted system.entry system.count

/-- Changes of a task that keep its descriptors. -/
theorem entry_changeTask
    {change : Task → Task}
    (keeps : ∀ task, (change task).filp = task.filp) :
    (system.changeTask current change).entry = system.entry := by
  funext slot
  unfold entry filp changeTask
  simp only
  by_cases same : slot.1 = current
  · rw [same, Function.update_self]
    cases system.task current with
    | none => rfl
    | some task => simp [keeps]
  · rw [Function.update_of_ne same]

@[simp] theorem entry_keepOnExec :
    (system.keepOnExec current fd).entry = system.entry :=
  entry_changeTask fun _ => rfl

@[simp] theorem entry_changeFile
    {index : Nat} {change : File → File} :
    (system.changeFile index change).entry = system.entry :=
  rfl

theorem entry_setFilp
    {task : Task} {value : Option Nat}
    (lives : system.task current = some task) :
    (system.setFilp current fd value).entry =
      Function.update system.entry (current, fd) value := by
  funext slot
  unfold entry filp setFilp changeTask
  simp only
  by_cases same : slot.1 = current
  · rw [same, Function.update_self, lives]
    by_cases sameFd : slot.2 = fd
    · have whole : slot = (current, fd) := Prod.ext same sameFd
      rw [whole, Function.update_self]
      simp
    · have different : slot ≠ (current, fd) :=
        fun whole => sameFd (congrArg Prod.snd whole)
      rw [Function.update_of_ne different]
      simp [Function.update_of_ne sameFd, same, lives]
  · have different : slot ≠ (current, fd) :=
      fun whole => same (congrArg Prod.fst whole)
    rw [Function.update_of_ne same, Function.update_of_ne different]

theorem count_changeFile
    {index : Nat} {change : File → File} :
    (system.changeFile index change).count =
      Function.update system.count index
        (change (system.file index)).count := by
  funext other
  unfold count changeFile
  simp only
  by_cases same : other = index
  · rw [same, Function.update_self, Function.update_self]
  · rw [Function.update_of_ne same, Function.update_of_ne same]

end System

end Files

end HitOs
