import HitOs.Routine

namespace HitOs

/-!
# When a routine returns

A routine that may run out of fuel, wait for ever or panic, with the exact condition
under which it returns.  A condition speaks of the state in which the routine is
called; the rules join the conditions of the parts.
-/

namespace Routine

variable {σ α β : Type}

/--
A call returns into `returned` if there is enough fuel and a condition holds, and
without the condition it never returns.
-/
structure ReturnsIff
    (enough condition : Prop)
    (routine : Routine σ α)
    (state : σ)
    (returned : α → σ → Prop) : Prop where
  ensures :
    routine.Ensures state
      (fun value after => condition ∧ returned value after)
  returns :
    enough → condition → ∃ value after, routine state = .ret value after

variable {enough condition condition' : Prop} {state : σ}
variable {returned returned' : α → σ → Prop} {routine : Routine σ α}

theorem Satisfies.returnsIff
    (satisfied : routine.Satisfies state returned (fun _ => False)) :
    ReturnsIff enough True routine state returned where
  ensures value after outcome := ⟨trivial, satisfied.of_ret outcome⟩
  returns _ _ := by
    obtain ⟨value, after, outcome, _⟩ := satisfied.returns
    exact ⟨value, after, outcome⟩

theorem returnsIff_abandon :
    ReturnsIff enough False (abandon : Routine σ α) state returned where
  ensures := ensures_abandon
  returns _ impossible := impossible.elim

theorem returnsIff_panic
    (message : String) :
    ReturnsIff enough False (panic message : Routine σ α) state returned where
  ensures := ensures_panic message
  returns _ impossible := impossible.elim

theorem returnsIff_read_bind
    {next : σ → Routine σ α} :
    ReturnsIff enough condition (read >>= next) state returned ↔
      ReturnsIff enough condition (next state) state returned :=
  ⟨fun whole => ⟨whole.ensures, whole.returns⟩,
    fun rest => ⟨rest.ensures, rest.returns⟩⟩

theorem returnsIff_update_bind
    {change : σ → σ} {next : Unit → Routine σ α} :
    ReturnsIff enough condition (update change >>= next) state returned ↔
      ReturnsIff enough condition (next ()) (change state) returned :=
  ⟨fun whole => ⟨whole.ensures, whole.returns⟩,
    fun rest => ⟨rest.ensures, rest.returns⟩⟩

theorem ReturnsIff.of_iff
    (returnsIff : ReturnsIff enough condition routine state returned)
    (same : condition ↔ condition') :
    ReturnsIff enough condition' routine state returned where
  ensures value after outcome :=
    ⟨same.mp (returnsIff.ensures value after outcome).1,
      (returnsIff.ensures value after outcome).2⟩
  returns fuel holds := returnsIff.returns fuel (same.mpr holds)

theorem ReturnsIff.mono
    (returnsIff : ReturnsIff enough condition routine state returned)
    (weaker :
      ∀ value after, condition → returned value after → returned' value after) :
    ReturnsIff enough condition routine state returned' where
  ensures value after outcome :=
    have ensured := returnsIff.ensures value after outcome
    ⟨ensured.1, weaker value after ensured.1 ensured.2⟩
  returns := returnsIff.returns

/-- The sequencing rule: the condition of the rest is known in advance. -/
theorem ReturnsIff.andThen
    {first : Routine σ β} {next : β → Routine σ α}
    {middle : β → σ → Prop}
    (firstReturns : ReturnsIff enough condition first state middle)
    (nextReturns :
      ∀ value after, condition → middle value after →
        ReturnsIff enough condition' (next value) after returned) :
    ReturnsIff enough (condition ∧ condition') (first >>= next) state
      returned where
  ensures := by
    refine firstReturns.ensures.andThen ?_
    rintro value after ⟨holds, reached⟩
    refine (nextReturns value after holds reached).ensures.mono ?_
    rintro last ending ⟨holds', returned⟩
    exact ⟨⟨holds, holds'⟩, returned⟩
  returns fuel both := by
    obtain ⟨value, after, outcome⟩ := firstReturns.returns fuel both.1
    have reached := (firstReturns.ensures value after outcome).2
    rw [bind_of_ret outcome]
    exact (nextReturns value after both.1 reached).returns fuel both.2

/-- Nothing comes after a part that never returns. -/
theorem ReturnsIff.never_bind
    {enough' : Prop}
    {first : Routine σ β} {next : β → Routine σ α}
    {middle : β → σ → Prop}
    (never : ReturnsIff enough False first state middle) :
    ReturnsIff enough' False (first >>= next) state returned where
  ensures := by
    refine never.ensures.andThen ?_
    rintro _ _ ⟨impossible, _⟩
    exact impossible.elim
  returns _ impossible := impossible.elim

/-- Without fuel there is no more to be shown. -/
theorem returnsIff_of_not_enough
    (little : ¬ enough)
    (gone : routine state = .abandon state) :
    ReturnsIff enough condition routine state returned where
  ensures _ _ outcome := nomatch gone.symm.trans outcome
  returns fuel := absurd fuel little

theorem ReturnsIff.weaken
    {enough' : Prop}
    (returnsIff : ReturnsIff enough condition routine state returned)
    (weaker : enough' → enough) :
    ReturnsIff enough' condition routine state returned where
  ensures := returnsIff.ensures
  returns fuel := returnsIff.returns (weaker fuel)

/-- A part after which the rest returns in any case. -/
theorem ReturnsIff.andThenSatisfies
    {first : Routine σ β} {next : β → Routine σ α}
    {middle : β → σ → Prop}
    (firstReturns : ReturnsIff enough condition first state middle)
    (nextSatisfies :
      ∀ value after, condition → middle value after →
        (next value).Satisfies after returned (fun _ => False)) :
    ReturnsIff enough condition (first >>= next) state returned :=
  (firstReturns.andThen fun value after holds reached =>
    (nextSatisfies value after holds reached).returnsIff).of_iff
      (iff_of_eq (and_true _))

/-- What comes after a part that returns in any case. -/
theorem Satisfies.andThenIff
    {first : Routine σ β} {next : β → Routine σ α}
    {middle : β → σ → Prop}
    (firstSatisfies : first.Satisfies state middle (fun _ => False))
    (nextReturns :
      ∀ value after, middle value after →
        ReturnsIff enough condition (next value) after returned) :
    ReturnsIff enough condition (first >>= next) state returned :=
  (firstSatisfies.returnsIff.andThen
    fun value after _ => nextReturns value after).of_iff (iff_of_eq (true_and _))

end Routine

end HitOs
