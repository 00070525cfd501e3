import Mathlib.Data.Finset.Card
import Mathlib.Logic.Function.Iterate

namespace HitOs

/-!
# Searching for an unused value

A value is replaced by its successor until one is found that is not used.  The search
ends after more turns than there are used values, if the successors do not repeat
before that.
-/

variable {α : Type}

/-- Step at least once, and until the value is not used. -/
def search
    (next : α → α)
    (used : α → Prop)
    [DecidablePred used] :
    Nat → α → Option α
  | 0, _ => none
  | turns + 1, value =>
    if used (next value) then
      search next used turns (next value)
    else
      some (next value)

namespace Search

variable {next : α → α} {used : α → Prop} [DecidablePred used]
variable {turns : Nat} {value result : α}

theorem not_used
    (found : search next used turns value = some result) :
    ¬ used result := by
  induction turns generalizing value with
  | zero =>
    cases found
  | succ turns inductionHypothesis =>
    simp only [search] at found
    split at found
    · exact inductionHypothesis found
    · rename_i unused
      cases found
      exact unused

/-- What the successors of the values have in which the search goes on. -/
theorem of_next
    {before holds : α → Prop}
    (gained : ∀ value, before value → holds (next value))
    (weaker : ∀ value, holds value → before value)
    (found : search next used turns value = some result)
    (initially : before value) :
    holds result := by
  induction turns generalizing value with
  | zero =>
    cases found
  | succ turns inductionHypothesis =>
    simp only [search] at found
    split at found
    · exact inductionHypothesis found (weaker _ (gained value initially))
    · cases found
      exact gained value initially

/-- More turns find the same value. -/
theorem more
    (found : search next used turns value = some result)
    (further : Nat) :
    search next used (further + turns) value = some result := by
  induction turns generalizing value with
  | zero =>
    cases found
  | succ turns inductionHypothesis =>
    rw [← Nat.add_assoc]
    simp only [search] at found ⊢
    split at found
    · rename_i taken
      rw [if_pos taken]
      exact inductionHypothesis found
    · rename_i unused
      rw [if_neg unused]
      exact found

/-- A search that does not end has met used values only. -/
theorem used_of_eq_none
    (endless : search next used turns value = none)
    {index : Nat}
    (below : index < turns) :
    used (next^[index + 1] value) := by
  induction turns generalizing value index with
  | zero =>
    exact absurd below (Nat.not_lt_zero index)
  | succ turns inductionHypothesis =>
    simp only [search] at endless
    split at endless
    · rename_i taken
      cases index with
      | zero =>
        exact taken
      | succ index =>
        rw [Function.iterate_succ_apply]
        exact inductionHypothesis endless (Nat.lt_of_succ_lt_succ below)
    · cases endless

/-- With fewer used values than turns the search ends. -/
theorem exists_eq_some
    (taken : Finset α)
    (covers : ∀ value, used value → value ∈ taken)
    (fewer : taken.card < turns)
    (distinct :
      ∀ first second, first < turns → second < turns →
        next^[first + 1] value = next^[second + 1] value → first = second) :
    ∃ result, search next used turns value = some result := by
  cases found : search next used turns value with
  | some result =>
    exact ⟨result, rfl⟩
  | none =>
    have into :
        ∀ index ∈ Finset.range turns, next^[index + 1] value ∈ taken :=
      fun index below =>
        covers _ (used_of_eq_none found (Finset.mem_range.mp below))
    have injective :
        Set.InjOn (fun index => next^[index + 1] value)
          (Finset.range turns : Set Nat) := by
      intro first firstBelow second secondBelow same
      exact distinct first second
        (Finset.mem_range.mp (Finset.mem_coe.mp firstBelow))
        (Finset.mem_range.mp (Finset.mem_coe.mp secondBelow)) same
    have small := Finset.card_le_card_of_injOn _ into injective
    rw [Finset.card_range] at small
    exact absurd fewer (Nat.not_lt.mpr small)

end Search

end HitOs
