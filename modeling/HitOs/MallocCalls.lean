import HitOs.MallocFrees

namespace HitOs

/-!
# Calls of the allocator

What `malloc` and `free_s` do to a heap that a valid layout describes.
-/

namespace Heap

open Routine

variable {layout : Layout} {heap after : Heap} {live : Live}
variable {size bdesc page len block : Nat}

/-- Every bucket has a block in use. -/
def Layout.Busy (layout : Layout) : Prop :=
  ∀ {size bdesc}, layout.InChain size bdesc → (layout.free bdesc).length < 4096 / size

/-- Two pages that `get_free_page` can hand out. -/
def Available (memory : Memory) : Prop :=
  ∃ page other, page ≠ other ∧ IsFree memory page ∧ IsFree memory other

/-- The call panics, whatever number of turns beyond some number it makes. -/
def Panics {α : Type} (routine : Nat → Routine Heap α) (heap : Heap) : Prop :=
  ∃ message bound, ∀ turns, bound ≤ turns → routine turns heap = .panic message

theorem Returns.unique
    {α : Type} {routine : Nat → Routine Heap α} {value other : α}
    {last : Heap}
    (returns : Returns routine heap value after)
    (again : Returns routine heap other last) :
    value = other ∧ after = last := by
  obtain ⟨bound, ret⟩ := returns
  obtain ⟨otherBound, otherRet⟩ := again
  have same := (ret (max bound otherBound) (Nat.le_max_left _ _)).symm.trans
    (otherRet (max bound otherBound) (Nat.le_max_right _ _))
  cases same
  exact ⟨rfl, rfl⟩

theorem Returns.not_panics
    {α : Type} {routine : Nat → Routine Heap α} {value : α}
    (returns : Returns routine heap value after) :
    ¬ Panics routine heap := by
  obtain ⟨bound, ret⟩ := returns
  rintro ⟨message, otherBound, panics⟩
  have same := (ret (max bound otherBound) (Nat.le_max_left _ _)).symm.trans
    (panics (max bound otherBound) (Nat.le_max_right _ _))
  cases same

/-! ## `malloc` -/

theorem freeptr_eq_zero
    (represents : Represents layout heap)
    (inChain : layout.InChain size bdesc) :
    heap.freeptr bdesc = 0 ↔ layout.free bdesc = [] := by
  have linked := represents.free inChain
  constructor
  · intro null
    cases shape : layout.free bdesc with
    | nil =>
      rfl
    | cons first rest =>
      rw [shape] at linked
      exact absurd null (pointer_cons linked).2
  · intro empty
    rw [empty] at linked
    exact pointer_nil linked

/-- A chain has a new bucket, whose blocks are all free. -/
def Bucketed (heap : Heap) (live : Live) (size : Nat) : Prop :=
  ∃ bdesc after next,
    newBucket size heap = .ret bdesc after ∧ Represents next after ∧
      next.Valid after.pages live ∧ next.InChain size bdesc ∧
        next.free bdesc = blocks size (next.page bdesc) ∧
          heap.pages ⊆ after.pages ∧
            ∀ {otherSize other}, next.InChain otherSize other →
              other ≠ bdesc → (next.free other).length < 4096 / otherSize

/-- What a new bucket needs is there, or there are not enough pages. -/
theorem newBucket_cases
    (represents : Represents layout heap)
    (valid : layout.Valid heap.pages live)
    (busy : layout.Busy)
    (member : size ∈ bucketDir) :
    Bucketed heap live size ∨
      (∃ message, newBucket size heap = .panic message) ∧
        ¬ Available heap.memory := by
  have reads {state : Heap} : (Routine.read : Routine Heap Heap) state =
      .ret state state := rfl
  -- With a free descriptor there is need for one page more.
  have add {layout : Layout} {middle : Heap} {bdesc : Nat} {pool : List Nat}
      (represents : Represents layout middle)
      (valid : layout.Valid middle.pages live)
      (busy : layout.Busy)
      (first : layout.pool = bdesc :: pool)
      (needs : needDesc heap = .ret () middle)
      (grown : heap.pages ⊆ middle.pages) :
      Bucketed heap live size ∨
        (∃ message, newBucket size heap = .panic message) ∧
          ∀ page, ¬ IsFree middle.memory page := by
    have reserves : (update (reserved size) : Routine Heap Unit) middle =
        .ret () (middle.reserved size) := rfl
    rcases getFreePage_cases (middle.reserved size) with
      ⟨isNone, noPage⟩ | ⟨page, free, gets⟩
    · refine Or.inr ⟨⟨"Out of memory in kernel malloc()", ?_⟩, fun page free =>
        noPage page ⟨free.above, free.below, free.count⟩⟩
      unfold newBucket
      rw [bind_of_ret needs, bind_of_ret reads, bind_of_ret reserves,
        bind_of_ret isNone]
      rfl
    · have free : IsFree middle.memory page :=
        ⟨free.above, free.below, free.count⟩
      have above := free.above
      have below := free.below
      unfold Memory.lowMemPage at above below
      unfold Memory.pagingPages at below
      obtain ⟨start, bucketed⟩ := represents.bucket valid member first free
      have validBucket := valid.bucket member first (represents.fresh free)
        ⟨by omega, by omega⟩
      refine Or.inl ⟨bdesc, _, _, ?_, bucketed, ?_,
        (Layout.inChain_bucket member).mpr (Or.inl ⟨rfl, rfl⟩), ?_, ?_, ?_⟩
      · unfold newBucket
        rw [bind_of_ret needs, bind_of_ret reads, bind_of_ret reserves,
          bind_of_ret gets, start]
        have notNull : page * 4096 ≠ 0 := by omega
        have sets : (update (setFreeptr bdesc (page * 4096)) :
            Routine Heap Unit) ((middle.reserved size).granted page) =
              .ret () (((middle.reserved size).granted page).setFreeptr bdesc
                (page * 4096)) := rfl
        have setsPage : (update (setPage bdesc (page * 4096)) :
            Routine Heap Unit) (((middle.reserved size).granted
              page).setFreeptr bdesc (page * 4096)) =
              .ret () ((((middle.reserved size).granted page).setFreeptr bdesc
                (page * 4096)).setPage bdesc (page * 4096)) := rfl
        rw [bind_of_ret sets, bind_of_ret setsPage, if_neg notNull]
        rfl
      · rw [(bucketed_rest size bdesc page (middle.reserved size)).2.2.1]
        exact validBucket
      · unfold Layout.bucket
        dsimp only
        rw [Function.update_self, Function.update_self]
      · rw [(bucketed_rest size bdesc page (middle.reserved size)).2.2.1]
        exact grown.trans (Finset.subset_insert page middle.pages)
      · intro otherSize other inChain different
        rcases (Layout.inChain_bucket member).mp inChain with
          ⟨_, same⟩ | inChain
        · exact absurd same different
        · have kept : (layout.bucket size bdesc page pool).free other =
              layout.free other :=
            Function.update_of_ne different _ _
          rw [kept]
          exact busy inChain
  have linked := represents.pool
  cases shape : layout.pool with
  | cons first rest =>
    rw [shape] at linked
    have needs : needDesc heap = .ret () heap := by
      unfold needDesc
      rw [bind_of_ret reads, if_neg]
      · rfl
      · rw [(pointer_cons linked).1]
        exact (pointer_cons linked).1 ▸ (pointer_cons linked).2
    refine (add represents valid busy shape needs
      (Finset.Subset.refl _)).imp_right ?_
    rintro ⟨panics, noPage⟩
    exact ⟨panics, fun ⟨page, _, _, free, _⟩ => noPage page free⟩
  | nil =>
    rw [shape] at linked
    have null := pointer_nil linked
    rcases getFreePage_cases heap with ⟨isNone, noPage⟩ | ⟨page, free, gets⟩
    · have fails : initBucketDesc heap =
          .panic "Out of memory in init_bucket_desc()" := by
        unfold initBucketDesc
        rw [bind_of_ret isNone]
        rfl
      have needs : needDesc heap =
          .panic "Out of memory in init_bucket_desc()" := by
        unfold needDesc
        rw [bind_of_ret reads, if_pos null]
        exact fails
      refine Or.inr ⟨⟨"Out of memory in init_bucket_desc()", ?_⟩,
        fun ⟨page, _, _, free, _⟩ => noPage page free⟩
      unfold newBucket
      exact bind_of_panic needs
    · have above := free.above
      have below := free.below
      unfold Memory.lowMemPage at above below
      unfold Memory.pagingPages at below
      have needs : needDesc heap = .ret () (heap.described page) := by
        unfold needDesc
        rw [bind_of_ret reads, if_pos null]
        exact initBucketDesc_eq (by omega) gets
      have described := represents.describe valid free
      have validDescribed := valid.describe (represents.fresh free)
        ⟨by omega, by omega⟩
      have rest := described_rest page heap
      have first : (layout.describe page).pool =
          page * 4096 :: (descsOf page ++ layout.pool).tail := by
        unfold Layout.describe descsOf
        dsimp only
        rw [List.range_succ_eq_map, List.map_cons, List.cons_append,
          List.tail_cons, Nat.zero_mul, Nat.add_zero]
      have grown : heap.pages ⊆ (heap.described page).pages := by
        rw [rest.2.1]
        exact Finset.subset_insert page heap.pages
      rw [← rest.2.1] at validDescribed
      refine (add described validDescribed busy first needs grown).imp_right
        ?_
      rintro ⟨panics, noPage⟩
      refine ⟨panics, ?_⟩
      rintro ⟨one, two, different, oneFree, twoFree⟩
      -- One of the two pages is left after the descriptors have been made.
      have left {other : Nat} (otherFree : IsFree heap.memory other)
          (notTaken : other ≠ page) :
          IsFree (heap.described page).memory other := by
        have otherAbove := otherFree.above
        unfold Memory.lowMemPage at otherAbove
        refine ⟨otherFree.above, otherFree.below, ?_⟩
        rw [rest.2.2.1]
        have counted : (heap.granted page).memory.memMap =
            Function.update heap.memory.memMap (page - Memory.lowMemPage)
              1#8 := rfl
        rw [counted, Function.update_of_ne]
        · exact otherFree.count
        · unfold Memory.lowMemPage
          omega
      by_cases here : one = page
      · exact noPage two (left twoFree fun same => different
          (here.trans same.symm))
      · exact noPage one (left oneFree here)

/-- `malloc` takes a free block of the right size, unless memory is exhausted. -/
theorem malloc_cases
    (represents : Represents layout heap)
    (valid : layout.Valid heap.pages live)
    (busy : layout.Busy)
    (serves : bucketFor len = some size) :
    (∃ block after next,
      Returns (malloc len) heap block after ∧ Represents next after ∧
        next.Valid after.pages ((block, len) :: live) ∧ next.Busy ∧
          heap.pages ⊆ after.pages) ∨
      Panics (malloc len) heap ∧ ¬ Available heap.memory := by
  have member : size ∈ bucketDir := List.mem_of_find?_eq_some serves
  have linked := represents.chain member
  have reads {state : Heap} : (Routine.read : Routine Heap Heap) state =
      .ret state state := rfl
  have taking {layout : Layout} {middle : Heap} {bdesc : Nat}
      (represents : Represents layout middle)
      (valid : layout.Valid middle.pages live)
      (inChain : layout.InChain size bdesc)
      (others : ∀ {otherSize other}, layout.InChain otherSize other →
        other ≠ bdesc → (layout.free other).length < 4096 / otherSize)
      (space : layout.free bdesc ≠ [])
      (grown : heap.pages ⊆ middle.pages)
      (turns : Nat)
      (calls : ∀ turns', turns ≤ turns' →
        malloc len turns' heap = takeBlock bdesc middle) :
      ∃ block after next,
        Returns (malloc len) heap block after ∧ Represents next after ∧
          next.Valid after.pages ((block, len) :: live) ∧ next.Busy ∧
            heap.pages ⊆ after.pages := by
    obtain ⟨block, rest, first⟩ := List.exists_cons_of_ne_nil space
    obtain ⟨start, taken⟩ := represents.take valid inChain first
    refine ⟨block, _, _, ⟨turns, fun turns' more => ?_⟩, taken,
      valid.take inChain first serves, ?_, grown⟩
    · rw [calls turns' more, takeBlock_eq, start]
    · intro otherSize other otherIn
      change (Function.update layout.free bdesc rest other).length < _
      by_cases here : other = bdesc
      · subst here
        have count := represents.refcnt inChain
        rw [first, List.length_cons] at count
        rw [Function.update_self, valid.oneSize otherIn inChain]
        omega
      · rw [Function.update_of_ne here]
        exact others otherIn here
  have looks (turns : Nat) : malloc len turns heap =
      (searchFree turns (heap.chain size) >>= fun found =>
        if found = 0 then newBucket size >>= takeBlock
        else takeBlock found) heap := by
    unfold malloc
    unfold bucketFor at serves
    rw [serves]
    rfl
  cases found : (layout.chains size).find? fun bdesc =>
      decide (layout.free bdesc ≠ []) with
  | some bdesc =>
    rw [List.find?_eq_some_iff_append] at found
    obtain ⟨space, earlier, later, shape, full⟩ := found
    simp only [ne_eq, decide_not, Bool.not_eq_true', decide_eq_false_iff_not,
      Bool.not_not, decide_eq_true_eq] at space full
    have inChain : layout.InChain size bdesc := by
      refine ⟨member, ?_⟩
      rw [shape]
      exact List.mem_append_right _ List.mem_cons_self
    refine Or.inl (taking represents valid inChain
      (fun otherIn _ => busy otherIn) space (Finset.Subset.refl _)
      ((earlier ++ bdesc :: later).length + 1) fun turns more => ?_)
    rw [shape] at linked
    have finds : searchFree turns (heap.chain size) heap =
        .ret bdesc heap := by
      refine searchFree_found linked more (fun node inEarlier => ?_) ?_
      · refine (freeptr_eq_zero represents ⟨member, ?_⟩).mpr
          (full node inEarlier)
        rw [shape]
        exact List.mem_append_left _ inEarlier
      · exact fun null => space
          ((freeptr_eq_zero represents inChain).mp null)
    have positive := valid.desc_bounds
      (Or.inr ⟨size, inChain⟩ : layout.IsDesc bdesc)
    rw [looks, bind_of_ret finds, if_neg (by omega)]
  | none =>
    rw [List.find?_eq_none] at found
    have full : ∀ node ∈ layout.chains size, heap.freeptr node = 0 := by
      intro node inside
      refine (freeptr_eq_zero represents ⟨member, inside⟩).mpr ?_
      have nothing := found node inside
      simpa using nothing
    have finds (turns : Nat) (more : (layout.chains size).length < turns) :
        searchFree turns (heap.chain size) heap = .ret 0 heap :=
      searchFree_none linked more full
    rcases newBucket_cases represents valid busy member with
      ⟨bdesc, middle, next, adds, represents, valid, inChain, free, grown,
        others⟩ |
        ⟨⟨message, panics⟩, noPages⟩
    · refine Or.inl (taking represents valid inChain others ?_ grown
        ((layout.chains size).length + 1) fun turns more => ?_)
      · have positive := (size_bounds member).2.2.2.2.2
        have length := length_blocks size (next.page bdesc)
        rw [free]
        intro empty
        rw [empty, List.length_nil] at length
        omega
      · rw [looks, bind_of_ret (finds turns more), if_pos rfl, bind_of_ret adds]
    · refine Or.inr ⟨⟨message, (layout.chains size).length + 1,
        fun turns more => ?_⟩, noPages⟩
      rw [looks, bind_of_ret (finds turns more), if_pos rfl]
      exact bind_of_panic panics

/-! ## `free_s` -/

/-- Another block of the same page is in use. -/
def Shares (live : Live) (block : Nat) : Prop :=
  ∃ used ∈ live, used.1 ≠ block ∧ used.1 / 4096 = block / 4096

/-- The pages and their counts after a block has been freed. -/
structure Frees
    (live : Live)
    (block : Nat)
    (heap after : Heap) : Prop where
  keeps :
    Shares live block →
      after.pages = heap.pages ∧ after.memory.memMap = heap.memory.memMap
  gives :
    ¬ Shares live block →
      after.pages = heap.pages.erase (block / 4096) ∧
        after.memory.memMap =
          Function.update heap.memory.memMap
            (block / 4096 - Memory.lowMemPage) 0#8

theorem exists_bound (count : Nat → Nat) (sizes : List Nat) :
    ∃ bound, ∀ size ∈ sizes, count size < bound := by
  induction sizes with
  | nil =>
    exact ⟨0, fun size member => absurd member List.not_mem_nil⟩
  | cons first rest inductionHypothesis =>
    obtain ⟨bound, below⟩ := inductionHypothesis
    refine ⟨max bound (count first + 1), fun size member => ?_⟩
    rcases List.mem_cons.mp member with rfl | member
    · exact Nat.lt_of_lt_of_le (Nat.lt_succ_self _) (Nat.le_max_right _ _)
    · exact Nat.lt_of_lt_of_le (below size member) (Nat.le_max_left _ _)

/-- A bucket has as many free blocks as blocks if none of its blocks is in use. -/
theorem Layout.Valid.all_free
    {pages : Finset Nat}
    (valid : layout.Valid pages live)
    (inChain : layout.InChain size bdesc)
    (full : (layout.free bdesc).length = 4096 / size) :
    ∀ block ∈ blocks size (layout.page bdesc), block ∈ layout.free bdesc := by
  have subset : layout.free bdesc ⊆ blocks size (layout.page bdesc) :=
    fun block member => valid.inside inChain block member
  have perm := ((valid.freeNodup inChain).subperm subset).perm_of_length_le
    (by rw [length_blocks, full])
  exact fun block member => perm.symm.subset member

theorem exists_used
    (layout : Layout)
    (inChain : layout.InChain size bdesc)
    (busy : (layout.free bdesc).length < 4096 / size) :
    ∃ block ∈ blocks size (layout.page bdesc), block ∉ layout.free bdesc := by
  by_contra nothing
  push Not at nothing
  have nodup := blocks_nodup (layout.page bdesc) inChain.1
  have length := (nodup.subperm fun block member =>
    nothing block member).length_le
  rw [length_blocks] at length
  omega

/-- The descriptor before one in its chain, or that there is none. -/
theorem before_of_linked
    {next : Nat → Option Nat} {start : Nat} {earlier later : List Nat}
    (linked : Linked next (pointer start) (earlier ++ bdesc :: later))
    (notNull : ∀ node ∈ earlier, node ≠ 0) :
    (earlier.getLastD 0 ≠ 0 → next (earlier.getLastD 0) = some bdesc) ∧
      (earlier.getLastD 0 = 0 → start = bdesc) := by
  rcases List.eq_nil_or_concat earlier with rfl | ⟨init, last, rfl⟩
  · exact ⟨fun isSome => absurd rfl isSome, fun _ => (pointer_cons linked).1⟩
  · rw [List.concat_eq_append] at linked notNull ⊢
    rw [List.getLastD_concat]
    refine ⟨fun _ => ?_, fun null => absurd null (notNull last (by simp))⟩
    clear notNull
    generalize pointer start = origin at linked
    induction init generalizing origin with
    | nil =>
      exact linked.2.1
    | cons first rest inductionHypothesis =>
      exact inductionHypothesis _ linked.2

/-- A bucket all of whose blocks are free is given back. -/
theorem dropBucket_cases
    {earlier later : List Nat}
    (represents : Represents layout heap)
    (valid : layout.Valid heap.pages live)
    (member : size ∈ bucketDir)
    (shape : layout.chains size = earlier ++ bdesc :: later)
    (unused : ∀ block ∈ blocks size (layout.page bdesc), block ∈ layout.free bdesc) :
    ∃ after,
      (∀ turns, dropBucket size bdesc (earlier.getLastD 0) turns heap =
        .ret () after) ∧
        Represents (layout.drop size bdesc (earlier ++ later)) after ∧
          (layout.drop size bdesc (earlier ++ later)).Valid after.pages live ∧
            after.pages = heap.pages.erase (layout.page bdesc) ∧
              after.memory.memMap =
                Function.update heap.memory.memMap
                  (layout.page bdesc - Memory.lowMemPage) 0#8 := by
  have inside {node : Nat} (inEarlier : node ∈ earlier ++ [bdesc]) :
      layout.InChain size node := by
    refine ⟨member, ?_⟩
    rw [shape]
    simp only [List.mem_append, List.mem_cons, List.not_mem_nil,
      or_false] at inEarlier ⊢
    exact inEarlier.imp_right Or.inl
  have inChain : layout.InChain size bdesc := inside (by simp)
  have bounds := valid.desc_bounds
    (Or.inr ⟨size, inChain⟩ : layout.IsDesc bdesc)
  have linked := represents.chain member
  rw [shape] at linked
  obtain ⟨behind, first⟩ := before_of_linked linked fun node inEarlier => by
    have positive := valid.desc_bounds
      (Or.inr ⟨size, inside (List.mem_append_left _ inEarlier)⟩ :
        layout.IsDesc node)
    omega
  have rest := unlinked_rest size bdesc (earlier.getLastD 0) heap
  have owned : (heap.unlinked size bdesc (earlier.getLastD 0)).page bdesc =
      layout.page bdesc * 4096 := by
    have page := represents.page inChain
    unfold Heap.page at page ⊢
    rw [load_unlinked, if_neg, page]
    rintro ⟨notNull, same⟩
    have prevIn : layout.InChain size (earlier.getLastD 0) := by
      rcases List.eq_nil_or_concat earlier with rfl | ⟨init, last, rfl⟩
      · exact absurd rfl notNull
      · refine inside ?_
        rw [List.concat_eq_append, List.getLastD_concat]
        simp
    have prevBounds := valid.desc_bounds
      (Or.inr ⟨size, prevIn⟩ : layout.IsDesc (earlier.getLastD 0))
    omega
  have owns : Owns (heap.unlinked size bdesc (earlier.getLastD 0)).memory
      (layout.page bdesc) :=
    (represents.owns (valid.allPages.mpr
      (Or.inr ⟨size, bdesc, inChain, rfl⟩))).congr rest.2.2.1 rest.2.2.2.1
  have results := dropped_rest size bdesc (earlier.getLastD 0)
    (layout.page bdesc) heap
  refine ⟨heap.dropped size bdesc (earlier.getLastD 0) (layout.page bdesc),
    fun turns => dropBucket_eq (fun notNull => ?_) first owned owns,
    represents.drop valid member shape, ?_, results.2.1, results.2.2.1⟩
  · exact (pointer_eq_some (behind notNull)).1
  · rw [results.2.1]
    exact valid.drop member shape unused

theorem freeS_cases
    {request : Int}
    (represents : Represents layout heap)
    (valid : layout.Valid heap.pages live)
    (busy : layout.Busy)
    (inUse : (block, len) ∈ live)
    (asked : request = 0 ∨ request = len) :
    ∃ after next,
      Returns (freeS block request) heap () after ∧ Represents next after ∧
        next.Valid after.pages (live.filter fun used => used.1 ≠ block) ∧
          next.Busy ∧ Frees live block heap after := by
  have used : block ∈ live.map Prod.fst := List.mem_map_of_mem inUse
  obtain ⟨size, bdesc, inChain, inPage, notFree⟩ := valid.used.mp used
  have number := block_page inChain.1 inPage
  have reads {state : Heap} : (Routine.read : Routine Heap Heap) state =
      .ret state state := rfl
  obtain ⟨earlier, later, shape⟩ := List.append_of_mem inChain.2
  have nodup := valid.chainNodup inChain.1
  rw [shape, List.nodup_middle] at nodup
  have notEarlier : bdesc ∉ earlier := fun inEarlier =>
    (List.nodup_cons.mp nodup).1 (List.mem_append_left _ inEarlier)
  have large : request ≤ size := by
    have serves := valid.fits inUse inChain inPage
    have fits := List.find?_some serves
    rw [decide_eq_true_eq] at fits
    rcases asked with rfl | rfl
    · exact Int.natCast_nonneg size
    · exact Int.ofNat_le.mpr fits
  obtain ⟨bound, enough⟩ :=
    exists_bound (fun size => (layout.chains size).length) bucketDir
  have finds (turns : Nat) (more : bound ≤ turns) :
      searchDirs (block / 4096 * 4096) turns request bucketDir heap =
        .ret (some (size, bdesc, earlier.getLastD 0)) heap := by
    refine searchDirs_found represents (fun _ member => member) inChain.1 large
      shape
      (fun other member => Nat.lt_of_lt_of_le (enough other member) more) ?_ ?_
    · rw [represents.page inChain, number]
    · intro other member node inside found
      have nodeIn : layout.InChain other node := ⟨member, inside⟩
      rw [represents.page nodeIn, number] at found
      have same := valid.onePage nodeIn inChain (by omega)
      subst same
      exact ⟨valid.oneSize nodeIn inChain, notEarlier⟩
  have puts : (update (putBlock bdesc block) : Routine Heap Unit) heap =
      .ret () (heap.putBlock bdesc block) := rfl
  have put := represents.put valid used inChain inPage
  have validPut := valid.put used inChain inPage
  have freePut : (layout.setFree bdesc (block :: layout.free bdesc)).free
      bdesc = block :: layout.free bdesc :=
    Function.update_self ..
  have otherFree {otherSize other : Nat}
      (otherIn : layout.InChain otherSize other) (different : other ≠ bdesc) :
      ((layout.setFree bdesc (block :: layout.free bdesc)).free other).length <
        4096 / otherSize := by
    have kept : (layout.setFree bdesc (block :: layout.free bdesc)).free
        other = layout.free other :=
      Function.update_of_ne different _ _
    rw [kept]
    exact busy otherIn
  -- What is left in use is in other pages if the bucket has no block in use.
  have inUseIff {other : Nat} :
      other ∈ (live.filter fun used => used.1 ≠ block).map Prod.fst ↔
        ∃ used ∈ live, used.1 ≠ block ∧ used.1 = other := by
    simp only [List.mem_map, List.mem_filter, decide_eq_true_eq]
    exact exists_congr fun used => and_assoc
  have count := put.refcnt inChain
  rw [freePut] at count
  by_cases isZero : (heap.putBlock bdesc block).refcnt bdesc = 0
  · have unused := validPut.all_free inChain (by
      rw [freePut]
      omega)
    have alone : ¬ Shares live block := by
      rintro ⟨other, member, different, samePage⟩
      obtain ⟨otherSize, another, otherIn, otherPage, otherNotFree⟩ :=
        validPut.used.mp (inUseIff.mpr ⟨other, member, different, rfl⟩)
      have same : another = bdesc := by
        refine valid.onePage otherIn inChain ?_
        have here := block_page otherIn.1 otherPage
        have there : layout.page another = other.1 / 4096 := here.symm
        rw [there, samePage, number]
      subst same
      rw [valid.oneSize otherIn inChain] at otherPage
      exact otherNotFree (unused other.1 otherPage)
    obtain ⟨after, drops, dropped, validDropped, pages, memMap⟩ :=
      dropBucket_cases put validPut inChain.1 shape unused
    have pagesLeft : after.pages = heap.pages.erase (block / 4096) := by
      rw [number]
      exact pages
    refine ⟨after, _, ⟨bound, fun turns more => ?_⟩, dropped, validDropped, ?_,
      fun shares => absurd shares alone, fun _ => ⟨pagesLeft, ?_⟩⟩
    · unfold freeS
      rw [bind_of_ret (finds turns more)]
      change (update (putBlock bdesc block) >>= fun _ => _) heap = _
      rw [bind_of_ret puts, bind_of_ret reads, if_pos isZero]
      exact drops turns
    · intro otherSize other otherIn
      obtain ⟨otherIn, different⟩ :=
        (validPut.inChain_drop inChain.1 shape).mp otherIn
      exact otherFree otherIn different
    · rw [number]
      exact memMap
  · have shares : Shares live block := by
      obtain ⟨other, otherPage, otherNotFree⟩ :=
        exists_used (layout.setFree bdesc (block :: layout.free bdesc))
          inChain (by
            rw [freePut]
            omega)
      obtain ⟨used, member, different, same⟩ :=
        inUseIff.mp (validPut.used.mpr
          ⟨size, bdesc, inChain, otherPage, otherNotFree⟩)
      refine ⟨used, member, different, ?_⟩
      rw [same, number]
      exact block_page inChain.1 otherPage
    refine ⟨heap.putBlock bdesc block, _, ⟨bound, fun turns more => ?_⟩, put,
      validPut, ?_, fun _ => ⟨rfl, rfl⟩, fun alone => absurd shares alone⟩
    · unfold freeS
      rw [bind_of_ret (finds turns more)]
      change (update (putBlock bdesc block) >>= fun _ => _) heap = _
      rw [bind_of_ret puts, bind_of_ret reads, if_neg isZero]
      rfl
    · intro otherSize other otherIn
      by_cases here : other = bdesc
      · subst here
        rw [freePut, valid.oneSize otherIn inChain]
        omega
      · exact otherFree otherIn here

end Heap

end HitOs
