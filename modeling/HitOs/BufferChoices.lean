import HitOs.BufferRuns

namespace HitOs

/-!
# The buffer that `getblk` takes

The loop over `free_list` finds the least `BADNESS` among the buffers that are not in
use, and the buffer becomes that of the block.
-/

namespace Buffers

variable {n : Nat} {cache : Cache n} {index bh : Fin n}
variable {dev block : Nat}

/-- What is the best of some buffers, and of the best one before. -/
structure Best
    (cache : Cache n)
    (nodes : List (Fin n))
    (former found : Option (Fin n)) : Prop where
  nothing :
    found = none → ∀ index ∈ nodes, (cache.buffer index).count ≠ 0
  first :
    found = none → former = none
  unused :
    ∀ bh, found = some bh → former = some bh ∨ (cache.buffer bh).count = 0
  least :
    ∀ bh, found = some bh → ∀ index ∈ nodes,
      (cache.buffer index).count = 0 →
        (cache.buffer bh).badness ≤ (cache.buffer index).badness
  kept :
    ∀ bh former', found = some bh → former = some former' →
      (cache.buffer bh).badness ≤ (cache.buffer former').badness

theorem best_nil
    {former : Option (Fin n)} :
    Best cache [] former former where
  nothing _ _ member := absurd member List.not_mem_nil
  first := id
  unused _ found := Or.inl found
  least _ _ _ member := absurd member List.not_mem_nil
  kept bh former' found same := by
    cases found.symm.trans same
    exact Nat.le_refl _

/-- A buffer in use is passed over. -/
theorem Best.cons_used
    {nodes : List (Fin n)} {former found : Option (Fin n)}
    (best : Best cache nodes former found)
    (used : (cache.buffer index).count ≠ 0) :
    Best cache (index :: nodes) former found where
  nothing isNone := by
    intro other member
    rcases List.mem_cons.mp member with rfl | inRest
    · exact used
    · exact best.nothing isNone other inRest
  first := best.first
  unused := best.unused
  least bh found other member unused := by
    rcases List.mem_cons.mp member with rfl | inRest
    · exact absurd unused used
    · exact best.least bh found other inRest unused
  kept := best.kept

/-- A buffer that is not better than the one before is passed over. -/
theorem Best.cons_worse
    {nodes : List (Fin n)} {former : Fin n} {found : Option (Fin n)}
    (best : Best cache nodes (some former) found)
    (worse :
      (cache.buffer former).badness ≤ (cache.buffer index).badness) :
    Best cache (index :: nodes) (some former) found where
  nothing isNone := nomatch best.first isNone
  first := best.first
  unused := best.unused
  least bh found other member unused := by
    rcases List.mem_cons.mp member with rfl | inRest
    · exact Nat.le_trans (best.kept bh former found rfl) worse
    · exact best.least bh found other inRest unused
  kept := best.kept

/-- A better buffer takes the place of the one before. -/
theorem Best.cons_better
    {nodes : List (Fin n)} {former found : Option (Fin n)}
    (best : Best cache nodes (some index) found)
    (unused : (cache.buffer index).count = 0)
    (better :
      ∀ former', former = some former' →
        (cache.buffer index).badness ≤ (cache.buffer former').badness) :
    Best cache (index :: nodes) former found where
  nothing isNone := nomatch best.first isNone
  first isNone := nomatch best.first isNone
  unused bh found := by
    rcases best.unused bh found with same | unused'
    · cases same
      exact Or.inr unused
    · exact Or.inr unused'
  least bh found other member unused' := by
    rcases List.mem_cons.mp member with rfl | inRest
    · exact best.kept bh other found rfl
    · exact best.least bh found other inRest unused'
  kept bh former' found same :=
    Nat.le_trans (best.kept bh index found rfl) (better former' same)

/-- Nothing is better than a buffer that is neither dirty nor locked. -/
theorem best_of_good
    {nodes : List (Fin n)} {former : Option (Fin n)}
    (unused : (cache.buffer index).count = 0)
    (good : (cache.buffer index).badness = 0) :
    Best cache (index :: nodes) former (some index) where
  nothing isNone := nomatch isNone
  first isNone := nomatch isNone
  unused := by
    rintro _ ⟨⟩
    exact Or.inr unused
  least := by
    rintro _ ⟨⟩ other _ _
    rw [good]
    exact Nat.zero_le _
  kept := by
    rintro _ former' ⟨⟩ _
    rw [good]
    exact Nat.zero_le _

/-- A better buffer is taken, and the loop goes on unless nothing can be better. -/
theorem Best.cons_taken
    {nodes : List (Fin n)} {former found : Option (Fin n)}
    (best : Best cache nodes (some index) found)
    (unused : (cache.buffer index).count = 0)
    (better :
      ∀ former', former = some former' →
        (cache.buffer index).badness ≤ (cache.buffer former').badness) :
    Best cache (index :: nodes) former
      (if (cache.buffer index).badness = 0 then some index else found) := by
  by_cases good : (cache.buffer index).badness = 0
  · rw [if_pos good]
    exact best_of_good unused good
  · rw [if_neg good]
    exact best.cons_better unused better

/-- The end of a turn of the loop of `getblk`. -/
theorem best_chooseNext
    {turns : Nat} {tmp : Fin n} {rest : List (Fin n)}
    {former : Option (Fin n)}
    (next : cache.free.next tmp = rest.head?.or (some cache.freeList))
    (elsewhere : cache.freeList ∉ rest)
    (goesOn :
      ∀ second nodes, rest = second :: nodes →
        Best cache rest former (chooseFrom cache turns second former)) :
    Best cache rest former
      (match cache.free.next tmp with
        | none => former
        | some next =>
          if next = cache.freeList then former
          else chooseFrom cache turns next former) := by
  rw [next]
  cases rest with
  | nil =>
    rw [List.head?_nil, Option.none_or]
    simp only [if_true]
    exact best_nil
  | cons second nodes =>
    rw [List.mem_cons, not_or] at elsewhere
    rw [List.head?_cons, Option.some_or]
    simp only
    rw [if_neg (Ne.symm elsewhere.1)]
    exact goesOn second nodes rfl

/-- The loop of `getblk`, over the rest of the ring. -/
theorem best_chooseFrom
    {turns : Nat} {tmp : Fin n} {rest : List (Fin n)}
    {before former : Option (Fin n)}
    (segment :
      cache.free.Segment before (tmp :: rest) (some cache.freeList))
    (elsewhere : cache.freeList ∉ rest)
    (enough : rest.length < turns) :
    Best cache (tmp :: rest) former (chooseFrom cache turns tmp former) := by
  induction turns generalizing tmp rest before former with
  | zero =>
    exact absurd enough (Nat.not_lt_zero _)
  | succ turns inductionHypothesis =>
    obtain ⟨_, next, inRest⟩ := segment
    have goesOn (former' : Option (Fin n)) (second : Fin n)
        (nodes : List (Fin n)) (split : rest = second :: nodes) :
        Best cache rest former'
          (chooseFrom cache turns second former') := by
      subst split
      exact inductionHypothesis inRest
        (fun member => elsewhere (List.mem_cons_of_mem _ member))
        (Nat.lt_of_succ_lt_succ enough)
    unfold chooseFrom
    by_cases used : (cache.buffer tmp).count ≠ 0
    · rw [if_pos used]
      exact (best_chooseNext next elsewhere (goesOn former)).cons_used used
    rw [if_neg used]
    rw [not_not] at used
    have afterThis := best_chooseNext next elsewhere (goesOn (some tmp))
    cases former with
    | none =>
      refine afterThis.cons_taken used ?_
      intro _ never
      cases never
    | some former =>
      by_cases better :
          (cache.buffer tmp).badness < (cache.buffer former).badness
      · rw [if_pos (decide_eq_true better)]
        refine afterThis.cons_taken used ?_
        rintro _ ⟨⟩
        exact Nat.le_of_lt better
      · rw [if_neg (by rwa [decide_eq_true_eq])]
        exact (best_chooseNext next elsewhere
          (goesOn (some former))).cons_worse (Nat.not_lt.mp better)

/-- The buffer that `getblk` chooses is the best of all. -/
theorem Cache.WellFormed.choose
    (wellFormed : cache.WellFormed) :
    (choose cache = none → ∀ index, (cache.buffer index).count ≠ 0) ∧
      ∀ bh, choose cache = some bh →
        (cache.buffer bh).count = 0 ∧
          ∀ index, (cache.buffer index).count = 0 →
            (cache.buffer bh).badness ≤ (cache.buffer index).badness := by
  obtain ⟨others, distinct, all, ring⟩ := wellFormed.freeRing
  have enough : others.length < n := by
    have atMost := distinct.length_le_card
    rwa [Fintype.card_fin] at atMost
  have best :
      Best cache (cache.freeList :: others) none (Buffers.choose cache) :=
    best_chooseFrom ring (List.nodup_cons.mp distinct).1 enough
  refine ⟨fun isNone index => best.nothing isNone index (all index), ?_⟩
  intro bh found
  refine ⟨(best.unused bh found).resolve_left nofun, ?_⟩
  exact fun index => best.least bh found index (all index)

/-- If some unused buffer is clean, a clean one is chosen. -/
theorem dirt_of_badness
    (better : (cache.buffer bh).badness ≤ (cache.buffer index).badness)
    (clean : (cache.buffer index).dirt = false) :
    (cache.buffer bh).dirt = false := by
  unfold Buffer.badness at better
  rw [clean] at better
  cases dirty : (cache.buffer bh).dirt with
  | false =>
    rfl
  | true =>
    rw [dirty, if_pos rfl, if_neg Bool.false_ne_true] at better
    have small : (if (cache.buffer index).lock then 1 else 0) ≤ 1 := by
      split <;> decide
    omega

/-! ## `find_buffer` and the end of `getblk` -/

theorem findBuffer_eq_some
    (wellFormed : cache.WellFormed)
    (found : findBuffer dev block cache = some index) :
    (cache.buffer index).dev = dev ∧
      (cache.buffer index).blocknr = block := by
  obtain ⟨nodes, distinct, members, first, segment⟩ :=
    wellFormed.chains (hashfn dev block)
  have enough : nodes.length ≤ n := by
    have atMost := distinct.length_le_card
    rwa [Fintype.card_fin] at atMost
  unfold findBuffer at found
  rw [first, segment.find enough] at found
  have holds := List.find?_some found
  unfold Buffer.holds at holds
  rw [Bool.and_eq_true, beq_iff_eq, beq_iff_eq] at holds
  exact holds

theorem removeFromQueues_buffer
    {removed : Cache n}
    (result : removeFromQueues index cache = some removed) :
    removed.buffer = cache.buffer := by
  unfold removeFromQueues at result
  simp only at result
  split at result
  · obtain ⟨first, _, rfl⟩ := Option.map_eq_some_iff.mp result
    rfl
  · cases result

theorem insertIntoQueues_buffer :
    (insertIntoQueues index cache).buffer = cache.buffer := by
  unfold insertIntoQueues
  simp only
  split <;> rfl

/-- The buffer becomes that of the block, for the caller, clean and empty. -/
theorem claim_buffer
    {claimed : Cache n}
    (result : claim dev block index cache = some claimed) :
    claimed.buffer =
      Function.update cache.buffer index
        { cache.buffer index with
          dev := dev, blocknr := block, count := 1, dirt := false,
          uptodate := false } := by
  unfold claim at result
  obtain ⟨removed, isRemoved, rfl⟩ := Option.map_eq_some_iff.mp result
  have buffers := removeFromQueues_buffer isRemoved
  rw [insertIntoQueues_buffer]
  change Function.update removed.buffer index _ = _
  rw [buffers]
  unfold Cache.set
  simp only
  rw [Function.update_idem, Function.update_self]

/-- The queues of the cache let every buffer become that of a block. -/
theorem Cache.WellFormed.claim_isSome
    (wellFormed : cache.WellFormed) :
    ∃ claimed, Buffers.claim dev block index cache = some claimed := by
  have used :
      (cache.set index
        { cache.buffer index with
          count := 1, dirt := false, uptodate := false }).WellFormed :=
    wellFormed.set rfl rfl
  obtain ⟨removed, isRemoved, _⟩ := removeFromQueues_spec used index
  unfold Buffers.claim
  simp only
  rw [isRemoved]
  exact ⟨_, rfl⟩

end Buffers

end HitOs
