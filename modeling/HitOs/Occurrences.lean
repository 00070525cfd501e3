import Mathlib.Data.Finset.Card
import Mathlib.Algebra.BigOperators.Ring.Finset
import Mathlib.Algebra.Order.BigOperators.Group.Finset

namespace HitOs

/-!
# Counting the references to a resource

A reference table assigns to each slot of a finite domain at most one
resource.  `occurrences` counts the slots that refer to a given resource; the
lemmas say how the count follows a change of one slot, and when a count bounds
the slots or is bounded by them.
-/

variable {ι κ : Type} [DecidableEq κ]

/-- The number of slots of `domain` that refer to `resource`. -/
def occurrences
    (domain : Finset ι)
    (refers : ι → Option κ)
    (resource : κ) : Nat :=
  (domain.filter fun slot => refers slot = some resource).card

/-- One when a slot refers to the resource, zero otherwise. -/
def refersTo
    (target : Option κ)
    (resource : κ) : Nat :=
  if target = some resource then 1 else 0

@[simp] theorem refersTo_none
    (resource : κ) :
    refersTo none resource = 0 := by
  simp [refersTo]

@[simp] theorem refersTo_self
    (resource : κ) :
    refersTo (some resource) resource = 1 := by
  simp [refersTo]

theorem refersTo_of_ne
    {target resource : κ}
    (different : target ≠ resource) :
    refersTo (some target) resource = 0 := by
  simp [refersTo, different]

section Count

variable {domain : Finset ι} {refers refers' : ι → Option κ}

/-- The count depends only on the slots of the domain. -/
theorem occurrences_congr
    (same : ∀ slot ∈ domain, refers' slot = refers slot)
    (resource : κ) :
    occurrences domain refers' resource =
      occurrences domain refers resource := by
  unfold occurrences
  congr 1
  apply Finset.filter_congr
  intro slot member
  rw [same slot member]

/-- The count as a sum over the slots. -/
theorem occurrences_eq_sum
    (resource : κ) :
    occurrences domain refers resource =
      ∑ slot ∈ domain, refersTo (refers slot) resource := by
  unfold occurrences refersTo
  rw [Finset.card_filter]

/--
Changing one slot moves one reference from its old target to its new one.
-/
theorem occurrences_change
    [DecidableEq ι]
    {changed : ι}
    (member : changed ∈ domain)
    (same :
      ∀ slot ∈ domain, slot ≠ changed → refers' slot = refers slot)
    (resource : κ) :
    occurrences domain refers' resource +
        refersTo (refers changed) resource =
      occurrences domain refers resource +
        refersTo (refers' changed) resource := by
  rw [occurrences_eq_sum, occurrences_eq_sum,
    ← Finset.sum_erase_add domain _ member,
    ← Finset.sum_erase_add domain _ member]
  have others :
      ∑ slot ∈ domain.erase changed,
          refersTo (refers' slot) resource =
        ∑ slot ∈ domain.erase changed,
          refersTo (refers slot) resource := by
    apply Finset.sum_congr rfl
    intro slot slotMember
    rw [same slot (Finset.mem_of_mem_erase slotMember)
      (Finset.ne_of_mem_erase slotMember)]
  omega

/-- No slot refers to a resource exactly when its count is zero. -/
theorem occurrences_eq_zero_iff
    {resource : κ} :
    occurrences domain refers resource = 0 ↔
      ∀ slot ∈ domain, refers slot ≠ some resource := by
  unfold occurrences
  rw [Finset.card_eq_zero, Finset.filter_eq_empty_iff]

/-- A slot that refers to the resource is counted. -/
theorem occurrences_pos
    {slot : ι} {resource : κ}
    (member : slot ∈ domain)
    (target : refers slot = some resource) :
    0 < occurrences domain refers resource := by
  apply Finset.card_pos.mpr
  exact ⟨slot, Finset.mem_filter.mpr ⟨member, target⟩⟩

/-- Two different slots with one target are counted twice. -/
theorem one_lt_occurrences
    {first second : ι} {resource : κ}
    (firstMember : first ∈ domain)
    (secondMember : second ∈ domain)
    (different : first ≠ second)
    (firstTarget : refers first = some resource)
    (secondTarget : refers second = some resource) :
    1 < occurrences domain refers resource := by
  apply Finset.one_lt_card.mpr
  exact ⟨first, Finset.mem_filter.mpr ⟨firstMember, firstTarget⟩,
    second, Finset.mem_filter.mpr ⟨secondMember, secondTarget⟩,
    different⟩

/-- A resource counted twice has a slot besides any given one. -/
theorem exists_other_of_one_lt
    {resource : κ}
    (twice : 1 < occurrences domain refers resource)
    (slot : ι) :
    ∃ other ∈ domain, other ≠ slot ∧ refers other = some resource := by
  obtain ⟨other, member, different⟩ := Finset.exists_mem_ne twice slot
  obtain ⟨inDomain, target⟩ := Finset.mem_filter.mp member
  exact ⟨other, inDomain, different, target⟩

/--
If the slots that refer to the resource are told apart by a key below `bound`,
there are at most `bound` of them.
-/
theorem occurrences_le_of_injective_key
    {resource : κ} {bound : Nat}
    (key : ι → Nat)
    (keyBound :
      ∀ slot ∈ domain, refers slot = some resource → key slot < bound)
    (keyInjective :
      ∀ first ∈ domain, ∀ second ∈ domain,
        refers first = some resource →
        refers second = some resource →
        key first = key second → first = second) :
    occurrences domain refers resource ≤ bound := by
  have intoRange :
      ∀ slot ∈ domain.filter (fun slot => refers slot = some resource),
        key slot ∈ Finset.range bound := by
    intro slot member
    obtain ⟨inDomain, target⟩ := Finset.mem_filter.mp member
    exact Finset.mem_range.mpr (keyBound slot inDomain target)
  have bounded :=
    Finset.card_le_card_of_injOn key intoRange (by
      intro first firstMember second secondMember sameKey
      obtain ⟨firstDomain, firstTarget⟩ :=
        Finset.mem_filter.mp firstMember
      obtain ⟨secondDomain, secondTarget⟩ :=
        Finset.mem_filter.mp secondMember
      exact keyInjective first firstDomain second secondDomain
        firstTarget secondTarget sameKey)
  simpa [occurrences] using bounded

end Count

end HitOs
