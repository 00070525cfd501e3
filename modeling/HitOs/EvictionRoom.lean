import HitOs.EvictionSteps
import Mathlib.Data.Finset.Card

namespace HitOs

/-!
# Room for the blocks of inodes

Each inode block that is written makes a buffer dirty.  How many buffers that are clean
and not in use are needed for some blocks does not depend on the order in which, or on
the buffers to which, they come.
-/

namespace Evictions

open Inodes (Index)

variable {n : Nat} {heads heads' : Heads n} {bh other : Fin n}

/-- A buffer that may become that of another block. -/
def Clean (heads : Heads n) (bh : Fin n) : Prop :=
  (heads bh).count = 0 ∧ (heads bh).dirt = false

instance : DecidablePred (Clean heads) :=
  fun _ => inferInstanceAs (Decidable (_ ∧ _))

/-- A buffer that stays that of the block, as long as there are clean ones. -/
def Secured (heads : Heads n) (place : Place) : Prop :=
  ∃ bh, (heads bh).place = place ∧ ¬ Clean heads bh

instance : DecidablePred (Secured heads) :=
  fun _ => inferInstanceAs (Decidable (∃ _, _))

/-- There is a buffer for a block, or one that can become it. -/
def Room (heads : Heads n) (place : Place) : Prop :=
  (∃ bh, (heads bh).place = place) ∨ ∃ bh, Clean heads bh

/--
An inode is stored into the buffer of a block.  Only a clean buffer becomes that of
another block.
-/
structure StoresAt
    (heads : Heads n)
    (place : Place)
    (bh : Fin n)
    (heads' : Heads n) : Prop where
  here :
    (heads' bh).place = place
  dirt :
    (heads' bh).dirt = true
  count :
    (heads' bh).count = (heads bh).count
  others :
    ∀ other, other ≠ bh → heads' other = heads other
  secured :
    Secured heads place ↔ ¬ Clean heads bh
  absent :
    (heads bh).place ≠ place → ∀ other, (heads other).place ≠ place

def Stores (heads : Heads n) (place : Place) (heads' : Heads n) : Prop :=
  ∃ bh, StoresAt heads place bh heads'

/-- The blocks that need a buffer that is clean. -/
def needed (heads : Heads n) (places : List Place) : Finset Place :=
  places.toFinset.filter fun place => ¬ Secured heads place

/-- The buffers that are clean and not in use. -/
def cleans (heads : Heads n) : Finset (Fin n) :=
  Finset.univ.filter (Clean heads)

/-- There are buffers for all blocks. -/
def Fits (heads : Heads n) (places : List Place) : Prop :=
  (needed heads places).card ≤ (cleans heads).card

variable {place neighbour : Place} {places : List Place}

theorem mem_needed :
    neighbour ∈ needed heads places ↔
      neighbour ∈ places ∧ ¬ Secured heads neighbour := by
  unfold needed
  rw [Finset.mem_filter, List.mem_toFinset]

theorem mem_cleans : bh ∈ cleans heads ↔ Clean heads bh := by
  unfold cleans
  rw [Finset.mem_filter]
  exact and_iff_right (Finset.mem_univ bh)

theorem storesAt_found
    (same : (heads bh).place = place)
    (only : ∀ other, (heads other).place = place → other = bh) :
    StoresAt heads place bh
      (Function.update heads bh { heads bh with dirt := true }) where
  here := by
    rw [Function.update_self]
    exact same
  dirt := by
    rw [Function.update_self]
  count := by
    rw [Function.update_self]
  others other different := Function.update_of_ne different ..
  secured := by
    constructor
    · rintro ⟨other, here, dirty⟩
      rwa [only other here] at dirty
    · exact fun dirty => ⟨bh, same, dirty⟩
  absent different := absurd same different

theorem storesAt_taken
    (absent : ∀ other, (heads other).place ≠ place)
    (clean : Clean heads bh) :
    StoresAt heads place bh
      (Function.update heads bh
        { dev := place.1, blocknr := place.2, count := 0, dirt := true }) where
  here := by
    rw [Function.update_self]
    rfl
  dirt := by
    rw [Function.update_self]
  count := by
    rw [Function.update_self]
    exact clean.1.symm
  others other different := Function.update_of_ne different ..
  secured := by
    constructor
    · rintro ⟨other, here, _⟩
      exact absurd here (absent other)
    · exact fun dirty => absurd clean dirty
  absent _ := absent

section Stores

variable (stores : StoresAt heads place bh heads')

include stores

theorem StoresAt.not_clean : ¬ Clean heads' bh := by
  rintro ⟨_, clean⟩
  rw [stores.dirt] at clean
  cases clean

theorem StoresAt.clean_of_ne
    (different : other ≠ bh) :
    Clean heads' other ↔ Clean heads other := by
  unfold Clean
  rw [stores.others other different]

/-- A buffer that is not clean is that of the block already. -/
theorem StoresAt.place_of_dirty
    (dirty : ¬ Clean heads bh) :
    (heads bh).place = place := by
  obtain ⟨other, here, _⟩ := stores.secured.mpr dirty
  by_contra elsewhere
  exact stores.absent elsewhere other here

theorem StoresAt.secured_iff :
    Secured heads' neighbour ↔ Secured heads neighbour ∨ neighbour = place := by
  constructor
  · rintro ⟨other, here, dirty⟩
    by_cases this : other = bh
    · subst this
      exact Or.inr (here.symm.trans stores.here)
    · rw [stores.clean_of_ne this] at dirty
      rw [stores.others other this] at here
      exact Or.inl ⟨other, here, dirty⟩
  · rintro (⟨other, here, dirty⟩ | rfl)
    · by_cases this : other = bh
      · subst this
        refine ⟨other, ?_, stores.not_clean⟩
        rw [stores.here, ← here, stores.place_of_dirty dirty]
      · refine ⟨other, ?_, ?_⟩
        · rw [stores.others other this]
          exact here
        · rw [stores.clean_of_ne this]
          exact dirty
    · exact ⟨bh, stores.here, stores.not_clean⟩

theorem StoresAt.cleans : cleans heads' = (cleans heads).erase bh := by
  ext other
  rw [Finset.mem_erase, mem_cleans, mem_cleans]
  by_cases this : other = bh
  · subst this
    exact iff_of_false stores.not_clean (fun both => both.1 rfl)
  · rw [stores.clean_of_ne this, and_iff_right this]

theorem StoresAt.needed :
    needed heads' places = (needed heads places).erase place := by
  ext neighbour
  rw [Finset.mem_erase, mem_needed, mem_needed, stores.secured_iff, not_or]
  constructor
  · exact fun all => ⟨all.2.2, all.1, all.2.1⟩
  · exact fun all => ⟨all.2.1, all.2.2, all.1⟩

/-- A store needs a clean buffer if the block does, and nothing else changes. -/
theorem StoresAt.fits :
    Fits heads (place :: places) ↔ Fits heads' places := by
  unfold Fits
  rw [stores.cleans, stores.needed]
  by_cases secured : Secured heads place
  · have same :
        Evictions.needed heads (place :: places) =
          Evictions.needed heads places := by
      ext neighbour
      rw [mem_needed, mem_needed, List.mem_cons]
      constructor
      · rintro ⟨rfl | inRest, unsecured⟩
        · exact absurd secured unsecured
        · exact ⟨inRest, unsecured⟩
      · exact fun both => ⟨Or.inr both.1, both.2⟩
    have outside : place ∉ Evictions.needed heads places := by
      rw [mem_needed]
      exact fun both => both.2 secured
    have dirty : bh ∉ Evictions.cleans heads := by
      rw [mem_cleans]
      exact stores.secured.mp secured
    rw [same, Finset.erase_eq_of_notMem outside, Finset.erase_eq_of_notMem dirty]
  · have more :
        Evictions.needed heads (place :: places) =
          insert place (Evictions.needed heads places) := by
      ext neighbour
      rw [Finset.mem_insert, mem_needed, mem_needed, List.mem_cons]
      constructor
      · rintro ⟨rfl | inRest, unsecured⟩
        · exact Or.inl rfl
        · exact Or.inr ⟨inRest, unsecured⟩
      · rintro (rfl | both)
        · exact ⟨Or.inl rfl, secured⟩
        · exact ⟨Or.inr both.1, both.2⟩
    have clean : bh ∈ Evictions.cleans heads := by
      rw [mem_cleans]
      by_contra dirty
      exact secured (stores.secured.mpr dirty)
    have count := Finset.card_erase_add_one clean
    have count' :=
      Finset.card_erase_add_one
        (Finset.mem_insert_self place (Evictions.needed heads places))
    rw [Finset.erase_insert_eq_erase] at count'
    rw [more]
    omega

end Stores

theorem room_of_fits
    (fits : Fits heads (place :: places)) :
    Room heads place := by
  by_cases secured : Secured heads place
  · obtain ⟨bh, here, _⟩ := secured
    exact Or.inl ⟨bh, here⟩
  · have inNeeded : place ∈ needed heads (place :: places) :=
      mem_needed.mpr ⟨List.mem_cons_self, secured⟩
    have positive := Finset.card_pos.mpr ⟨place, inNeeded⟩
    obtain ⟨bh, inCleans⟩ :=
      Finset.card_pos.mp (Nat.lt_of_lt_of_le positive fits)
    exact Or.inr ⟨bh, mem_cleans.mp inCleans⟩

/-! ## Several blocks -/

/-- Stores one after another. -/
inductive StoresAll : Heads n → List Place → Heads n → Prop where
  | nil
      (heads : Heads n) :
      StoresAll heads [] heads
  | cons
      {heads middle heads' : Heads n} {place : Place} {places : List Place}
      (first : Stores heads place middle)
      (rest : StoresAll middle places heads') :
      StoresAll heads (place :: places) heads'

theorem StoresAll.count
    (stores : StoresAll heads places heads')
    (bh : Fin n) :
    (heads' bh).count = (heads bh).count := by
  induction stores with
  | nil =>
    rfl
  | cons first rest inductionHypothesis =>
    obtain ⟨position, first⟩ := first
    rw [inductionHypothesis]
    by_cases this : bh = position
    · rw [this]
      exact first.count
    · rw [first.others bh this]

/-- A buffer is as before, or dirty with one of the blocks. -/
theorem StoresAll.cases
    (stores : StoresAll heads places heads')
    (bh : Fin n) :
    heads' bh = heads bh ∨
      (heads' bh).dirt = true ∧ (heads' bh).place ∈ places := by
  induction stores with
  | nil =>
    exact Or.inl rfl
  | cons first rest inductionHypothesis =>
    obtain ⟨position, first⟩ := first
    rcases inductionHypothesis with same | ⟨dirt, inRest⟩
    · rw [same]
      by_cases this : bh = position
      · rw [this, first.here]
        exact Or.inr ⟨first.dirt, List.mem_cons_self⟩
      · exact Or.inl (first.others bh this)
    · exact Or.inr ⟨dirt, List.mem_cons_of_mem _ inRest⟩

/-- A buffer that is not clean stays that of its block. -/
theorem StoresAll.stays
    (stores : StoresAll heads places heads')
    (dirty : ¬ Clean heads bh) :
    (heads' bh).place = (heads bh).place ∧ ¬ Clean heads' bh := by
  induction stores with
  | nil =>
    exact ⟨rfl, dirty⟩
  | cons first rest inductionHypothesis =>
    obtain ⟨position, first⟩ := first
    by_cases this : bh = position
    · subst this
      obtain ⟨same, dirty'⟩ := inductionHypothesis first.not_clean
      rw [same, first.here, first.place_of_dirty dirty]
      exact ⟨rfl, dirty'⟩
    · rw [← first.clean_of_ne this] at dirty
      rw [← first.others bh this]
      exact inductionHypothesis dirty

/-- A buffer becomes that of another block only if the block has no secure one. -/
theorem StoresAll.not_secured
    (stores : StoresAll heads places heads')
    (moved : (heads' bh).place ≠ (heads bh).place) :
    ¬ Secured heads (heads' bh).place := by
  induction stores with
  | nil =>
    exact absurd rfl moved
  | @cons heads middle heads' place places first rest inductionHypothesis =>
    obtain ⟨position, first⟩ := first
    by_cases same : (heads' bh).place = (middle bh).place
    · rw [same] at moved ⊢
      have this : bh = position := by
        by_contra different
        rw [first.others bh different] at moved
        exact moved rfl
      subst this
      rw [first.here] at moved ⊢
      rintro ⟨other, here, _⟩
      exact first.absent (Ne.symm moved) other here
    · intro secured
      exact inductionHypothesis same
        (first.secured_iff.mpr (Or.inl secured))

end Evictions

end HitOs
