import HitOs.MallocLayout

namespace HitOs

/-!
# Pages of the allocator

What `malloc` and `free_s` do with whole pages: a page of descriptors for the pool,
a page for a bucket with a descriptor from the pool, and both given back when no
block of the bucket is in use.
-/

namespace Heap

open Routine

variable {layout : Layout} {heap after : Heap} {live : Live}
variable {size bdesc page : Nat}

/-! ## Pages from `get_free_page` -/

/-- A page that has been handed out. -/
def granted (page : Nat) (heap : Heap) : Heap :=
  { heap with
    memory := Memory.taken page heap.memory
    pages := insert page heap.pages }

/-- `get_free_page` can hand out the page. -/
structure IsFree (memory : Memory) (page : Nat) : Prop where
  above :
    Memory.lowMemPage ≤ page
  below :
    page < Memory.lowMemPage + Memory.pagingPages
  count :
    memory.memMap (page - Memory.lowMemPage) = 0#8

theorem getFreePage_cases (heap : Heap) :
    (getFreePage heap = .ret 0 heap ∧ ∀ page, ¬ IsFree heap.memory page) ∨
      ∃ page, IsFree heap.memory page ∧
        getFreePage heap = .ret (page * 4096) (heap.granted page) := by
  cases found : Memory.scanMemMap heap.memory.memMap Memory.pagingPages with
  | none =>
    refine Or.inl ⟨?_, fun page free => ?_⟩
    · have nothing : Memory.getFreePage heap.memory = .ret 0 heap.memory := by
        unfold Memory.getFreePage
        have reads : (Routine.read : Routine Memory Memory) heap.memory =
            .ret heap.memory heap.memory := rfl
        rw [bind_of_ret reads, found]
        rfl
      have zoomed : onMemory Memory.getFreePage heap = .ret 0 heap := by
        unfold onMemory zoom
        rw [nothing]
      unfold getFreePage
      rw [bind_of_ret zoomed, if_pos rfl]
      rfl
    · have above := free.above
      have below := free.below
      exact Memory.scanMemMap_eq_none found (by omega) free.count
  | some index =>
    obtain ⟨inside, unused⟩ := Memory.scanMemMap_eq_some found
    refine Or.inr ⟨index + Memory.lowMemPage, ⟨by omega, by omega, ?_⟩, ?_⟩
    · rw [Nat.add_sub_cancel]
      exact unused
    · have handsOut : Memory.getFreePage heap.memory =
          .ret (index + Memory.lowMemPage)
            (Memory.taken (index + Memory.lowMemPage) heap.memory) := by
        unfold Memory.getFreePage Memory.taken
        have reads : (Routine.read : Routine Memory Memory) heap.memory =
            .ret heap.memory heap.memory := rfl
        rw [bind_of_ret reads, found, Nat.add_sub_cancel]
        rfl
      have zoomed : onMemory Memory.getFreePage heap =
          .ret (index + Memory.lowMemPage)
            { heap with
              memory :=
                Memory.taken (index + Memory.lowMemPage) heap.memory } := by
        unfold onMemory zoom
        rw [handsOut]
      unfold getFreePage
      rw [bind_of_ret zoomed, if_neg (by unfold Memory.lowMemPage; omega)]
      rfl

theorem load_granted (page address : Nat) (heap : Heap) :
    (heap.granted page).load address =
      if address / 4096 = page then 0 else heap.load address := by
  unfold load granted Memory.load
  dsimp only
  rw [Memory.Accounted.ram_taken]
  split_ifs
  · rfl
  · rfl

/-- A page that is free is none of the allocator's. -/
theorem Represents.fresh
    (represents : Represents layout heap)
    (free : IsFree heap.memory page) :
    page ∉ heap.pages := by
  intro member
  have count := (represents.owns member).count
  rw [free.count] at count
  exact absurd count (by decide)

/-- The pages that the allocator has after one more has been handed out. -/
theorem Represents.owns_granted
    (represents : Represents layout heap)
    (free : IsFree heap.memory page)
    {other : Nat}
    (member : other ∈ insert page heap.pages) :
    Owns (heap.granted page).memory other := by
  have above := free.above
  have below := free.below
  have inMemory := represents.freeInMemory.2 (page - Memory.lowMemPage) (by omega)
    free.count
  rw [Nat.sub_add_cancel above] at inMemory
  have counted : (heap.granted page).memory.memMap =
      Function.update heap.memory.memMap (page - Memory.lowMemPage) 1#8 :=
    rfl
  rcases Finset.mem_insert.mp member with rfl | member
  · exact ⟨above, inMemory, by rw [counted, Function.update_self]⟩
  · have owns := represents.owns member
    have different : other - Memory.lowMemPage ≠ page - Memory.lowMemPage := by
      intro same
      have otherAbove := owns.above
      have samePage : other = page := by omega
      exact represents.fresh free (samePage ▸ member)
    refine ⟨owns.above, owns.below, ?_⟩
    rw [counted, Function.update_of_ne different]
    exact owns.count

theorem FreeInMemory.granted
    (found : FreeInMemory heap.memory) :
    FreeInMemory (heap.granted page).memory := by
  refine ⟨found.1, fun index inside unused => ?_⟩
  have counted : (heap.granted page).memory.memMap =
      Function.update heap.memory.memMap (page - Memory.lowMemPage) 1#8 :=
    rfl
  rw [counted] at unused
  by_cases here : index = page - Memory.lowMemPage
  · rw [here, Function.update_self] at unused
    exact absurd unused (by decide)
  · rw [Function.update_of_ne here] at unused
    exact found.2 index inside unused

theorem Owns.congr
    {memory other : Memory}
    (owns : Owns memory page)
    (memMap : other.memMap = memory.memMap)
    (highMemory : other.highMemory = memory.highMemory) :
    Owns other page :=
  ⟨owns.above, highMemory ▸ owns.below, memMap ▸ owns.count⟩

theorem FreeInMemory.congr
    {memory other : Memory}
    (found : FreeInMemory memory)
    (memMap : other.memMap = memory.memMap)
    (highMemory : other.highMemory = memory.highMemory) :
    FreeInMemory other := by
  unfold FreeInMemory at found ⊢
  rw [memMap, highMemory]
  exact found

/-! ## Frames -/

/-- Changes of words that no descriptor and no free block has. -/
theorem Represents.frame
    (represents : Represents layout heap)
    (chains : after.chain = heap.chain)
    (pool : after.freeBucketDesc = heap.freeBucketDesc)
    (descWord : ∀ other k, layout.IsDesc other → k < 16 →
      after.load (other + k) = heap.load (other + k))
    (link : ∀ size other block, layout.InChain size other →
      block ∈ layout.free other → after.load block = heap.load block)
    (owns : ∀ {page}, page ∈ after.pages → Owns after.memory page)
    (freeInMemory : FreeInMemory after.memory) :
    Represents layout after := by
  have next {other : Nat} (isDesc : layout.IsDesc other) :
      after.nextOf other = heap.nextOf other := by
    unfold nextOf Heap.next
    rw [descWord other 4 isDesc (by decide)]
  refine
    { chain := fun member => ?_, pool := ?_, page := fun inChain => ?_
      free := fun inChain => ?_, refcnt := fun inChain => ?_
      owns := owns, freeInMemory := freeInMemory }
  · rw [chains]
    exact (represents.chain member).congr fun other inside =>
      next (Or.inr ⟨_, member, inside⟩)
  · rw [pool]
    exact represents.pool.congr fun other inside => next (Or.inl inside)
  · exact (descWord _ 0 (Or.inr ⟨_, inChain⟩) (by decide)).trans
      (represents.page inChain)
  · have word : after.freeptr _ = heap.freeptr _ :=
      descWord _ 8 (Or.inr ⟨_, inChain⟩) (by decide)
    rw [word]
    refine (represents.free inChain).congr fun block member => ?_
    unfold linkOf
    rw [link _ _ block inChain member]
  · have word : after.refcnt _ = heap.refcnt _ :=
      congrArg (· % 65536) (descWord _ 12 (Or.inr ⟨_, inChain⟩) (by decide))
    rw [word]
    exact represents.refcnt inChain

theorem nextOf_setFreeBucketDesc
    {value : Nat} :
    (heap.setFreeBucketDesc value).nextOf = heap.nextOf :=
  rfl

/-- Another pool. -/
theorem Represents.repool
    {value : Nat} {pool : List Nat} {descPages : Finset Nat}
    (represents : Represents layout (heap.setFreeBucketDesc value))
    (linked : Linked heap.nextOf (pointer heap.freeBucketDesc) pool) :
    Represents { layout with pool := pool, descPages := descPages } heap :=
  { chain := represents.chain, pool := linked, page := represents.page
    free := represents.free, refcnt := represents.refcnt
    owns := represents.owns, freeInMemory := represents.freeInMemory }

/-- A word of a descriptor is in a page that the allocator has. -/
theorem Layout.Valid.desc_page
    {pages : Finset Nat} {k : Nat}
    (valid : layout.Valid pages live)
    (isDesc : layout.IsDesc bdesc)
    (within : k < 16) :
    (bdesc + k) / 4096 ∈ pages := by
  have bounds := valid.desc_bounds isDesc
  have number : (bdesc + k) / 4096 = bdesc / 4096 := by omega
  rw [number]
  exact valid.allPages.mpr (Or.inl bounds.1)

/-- So is a free block. -/
theorem Layout.Valid.free_page
    {pages : Finset Nat} {block : Nat}
    (valid : layout.Valid pages live)
    (inChain : layout.InChain size bdesc)
    (free : block ∈ layout.free bdesc) :
    block / 4096 ∈ pages := by
  rw [block_page inChain.1 (valid.inside inChain block free)]
  exact valid.allPages.mpr (Or.inr ⟨size, bdesc, inChain, rfl⟩)

/-! ## Pieces of a page -/

section Pieces

variable {offset step n piece address : Nat}

/-- Words that are none of the pointers. -/
theorem load_linkUp_other
    (bound : piece + n * step < 2 ^ 32)
    (other : ∀ i, i < n → address / 4 ≠ (piece + i * step + offset) / 4) :
    (linkUp offset step n piece heap).load address = heap.load address := by
  induction n generalizing piece heap with
  | zero =>
    unfold linkUp
    rfl
  | succ n inductionHypothesis =>
    rw [Nat.succ_mul] at bound
    have first := other 0 (Nat.succ_pos n)
    rw [Nat.zero_mul, Nat.add_zero] at first
    unfold linkUp
    rw [inductionHypothesis (by omega) fun i below => ?_,
      load_save_of_ne (by omega) first]
    have next := other (i + 1) (by omega)
    rw [Nat.succ_mul] at next
    have same : piece + step + i * step = piece + (i * step + step) := by omega
    rw [same]
    exact next

/-- The pointers. -/
theorem load_linkUp
    (bound : piece + n * step < 2 ^ 32)
    (large : 4 ≤ step)
    {i : Nat}
    (inside : i < n) :
    (linkUp offset step n piece heap).load (piece + i * step + offset) =
      piece + (i + 1) * step := by
  induction n generalizing piece heap i with
  | zero =>
    exact absurd inside (Nat.not_lt_zero i)
  | succ n inductionHypothesis =>
    rw [Nat.succ_mul] at bound
    unfold linkUp
    cases i with
    | zero =>
      rw [Nat.zero_mul, Nat.add_zero, Nat.zero_add, Nat.one_mul]
      rw [load_linkUp_other (by omega) fun i below => ?_, load_save (by omega),
        if_pos rfl]
      omega
    | succ i =>
      have here : piece + (i + 1) * step + offset =
          piece + step + i * step + offset := by
        rw [Nat.succ_mul]
        omega
      have there : piece + (i + 1 + 1) * step =
          piece + step + (i + 1) * step := by
        rw [Nat.succ_mul (i + 1)]
        omega
      rw [here, there]
      exact inductionHypothesis (by omega) (by omega)

@[simp] theorem linkUp_rest :
    (linkUp offset step n piece heap).chain = heap.chain ∧
      (linkUp offset step n piece heap).freeBucketDesc = heap.freeBucketDesc ∧
        (linkUp offset step n piece heap).pages = heap.pages ∧
          (linkUp offset step n piece heap).memory.memMap =
            heap.memory.memMap ∧
            (linkUp offset step n piece heap).memory.highMemory =
              heap.memory.highMemory := by
  induction n generalizing piece heap with
  | zero =>
    unfold linkUp
    exact ⟨rfl, rfl, rfl, rfl, rfl⟩
  | succ n inductionHypothesis =>
    unfold linkUp
    exact inductionHypothesis

end Pieces

/-! ## A page of descriptors -/

/-- The descriptors in a page. -/
def descsOf (page : Nat) : List Nat :=
  (List.range 256).map fun i => page * 4096 + i * 16

theorem mem_descsOf :
    bdesc ∈ descsOf page ↔ ∃ i, i < 256 ∧ bdesc = page * 4096 + 16 * i := by
  unfold descsOf
  rw [List.mem_map]
  simp only [List.mem_range]
  refine exists_congr fun i => and_congr_right fun _ => ?_
  rw [Nat.mul_comm i 16]
  exact eq_comm

/-- The pool with a page of descriptors. -/
def described (page : Nat) (heap : Heap) : Heap :=
  let heap := linkUp 4 16 255 (page * 4096) (heap.granted page)
  let heap := heap.setNext (page * 4096 + 255 * 16) heap.freeBucketDesc
  heap.setFreeBucketDesc (page * 4096)

theorem initBucketDesc_eq
    (above : 0 < page)
    (gets : getFreePage heap = .ret (page * 4096) (heap.granted page)) :
    initBucketDesc heap = .ret () (heap.described page) := by
  unfold initBucketDesc
  rw [bind_of_ret gets, if_neg (by omega)]
  rfl

theorem described_rest (page : Nat) (heap : Heap) :
    (heap.described page).chain = heap.chain ∧
      (heap.described page).pages = insert page heap.pages ∧
        (heap.described page).memory.memMap =
          (heap.granted page).memory.memMap ∧
          (heap.described page).memory.highMemory =
            (heap.granted page).memory.highMemory := by
  have rest := @linkUp_rest (heap.granted page) 4 16 255 (page * 4096)
  unfold described
  dsimp only
  rw [chain_setFreeBucketDesc, pages_setFreeBucketDesc, memory_setFreeBucketDesc]
  unfold setNext
  rw [chain_save, pages_save, memMap_save, highMemory_save]
  exact ⟨rest.1, rest.2.2.1, rest.2.2.2.1, rest.2.2.2.2⟩

/-- The layout with them. -/
def Layout.describe (layout : Layout) (page : Nat) : Layout :=
  { layout with
    pool := descsOf page ++ layout.pool
    descPages := insert page layout.descPages }

theorem Layout.Valid.describe
    {pages : Finset Nat}
    (valid : layout.Valid pages live)
    (fresh : page ∉ pages)
    (bounds : 0 < page ∧ page < 4096) :
    (layout.describe page).Valid (insert page pages) live := by
  have elsewhere {other : Nat} (isDesc : layout.IsDesc other) :
      other ∉ descsOf page := by
    intro member
    obtain ⟨i, inside, rfl⟩ := mem_descsOf.mp member
    have known := valid.desc_page isDesc (by decide : 0 < 16)
    have number : (page * 4096 + 16 * i + 0) / 4096 = page := by omega
    rw [number] at known
    exact fresh known
  refine
    { valid with
      notPool := fun inChain member => ?_
      poolNodup := ?_
      descs := ?_
      allPages := ?_
      notDescs := fun inChain member => ?_
      main := fun member => ?_ }
  · rcases List.mem_append.mp member with new | old
    · exact elsewhere (Or.inr ⟨_, inChain⟩) new
    · exact valid.notPool inChain old
  · refine List.Nodup.append ?_ valid.poolNodup fun other new old =>
      elsewhere (Or.inl old) new
    unfold descsOf
    refine List.Nodup.map (fun first second same => ?_) List.nodup_range
    have equal : page * 4096 + first * 16 = page * 4096 + second * 16 := same
    omega
  · intro other
    have old : (layout.describe page).IsDesc other ↔
        other ∈ descsOf page ∨ layout.IsDesc other := by
      unfold Layout.IsDesc Layout.describe
      dsimp only
      rw [List.mem_append, or_assoc]
      rfl
    rw [old, mem_descsOf, valid.descs]
    unfold Layout.describe
    simp only [Finset.mem_insert, exists_eq_or_imp]
  · intro other
    unfold Layout.describe
    simp only [Finset.mem_insert]
    rw [valid.allPages, or_assoc]
    rfl
  · rcases Finset.mem_insert.mp member with same | old
    · exact fresh (valid.allPages.mpr (Or.inr ⟨_, _, inChain, same⟩))
    · exact valid.notDescs inChain old
  · rcases Finset.mem_insert.mp member with rfl | old
    · exact bounds
    · exact valid.main old

theorem Represents.describe
    (represents : Represents layout heap)
    (valid : layout.Valid heap.pages live)
    (free : IsFree heap.memory page) :
    Represents (layout.describe page) (heap.described page) := by
  have above := free.above
  have below := free.below
  unfold Memory.lowMemPage at above below
  unfold Memory.pagingPages at below
  have fresh := represents.fresh free
  -- The pool starts at one of its descriptors or is empty.
  have head : heap.freeBucketDesc < 2 ^ 32 := by
    have linked := represents.pool
    cases shape : layout.pool with
    | nil =>
      rw [shape, Linked.nil_iff] at linked
      unfold pointer at linked
      split_ifs at linked with null
      omega
    | cons first rest =>
      rw [shape] at linked
      obtain ⟨same, _⟩ := pointer_eq_some linked.1
      have bounds := valid.desc_bounds (Or.inl (shape ▸ List.mem_cons_self) :
        layout.IsDesc first)
      omega
  have rest := @linkUp_rest (heap.granted page) 4 16 255 (page * 4096)
  have loads (address : Nat) :
      (heap.described page).load address =
        if address / 4 = (page * 4096 + 255 * 16 + 4) / 4 then
          heap.freeBucketDesc
        else
          (linkUp 4 16 255 (page * 4096) (heap.granted page)).load address := by
    unfold described
    dsimp only
    rw [load_setFreeBucketDesc, rest.2.1]
    exact load_save head
  have outside (address : Nat) (elsewhere : address / 4096 ≠ page) :
      (heap.described page).load address = heap.load address := by
    rw [loads, if_neg (by omega), load_linkUp_other (by omega) (by omega),
      load_granted, if_neg elsewhere]
  have framed : Represents layout
      ((heap.described page).setFreeBucketDesc heap.freeBucketDesc) := by
    refine represents.frame
      (chain_setFreeBucketDesc.trans (described_rest page heap).1)
      freeBucketDesc_setFreeBucketDesc
      (fun other k isDesc within => ?_)
      (fun otherSize other block inChain member => ?_)
      (fun {other} member => ?_) ?_
    · rw [load_setFreeBucketDesc]
      refine outside _ fun here => fresh ?_
      rw [← here]
      exact valid.desc_page isDesc within
    · rw [load_setFreeBucketDesc]
      refine outside _ fun here => fresh ?_
      rw [← here]
      exact valid.free_page inChain member
    · rw [pages_setFreeBucketDesc, (described_rest page heap).2.1] at member
      rw [memory_setFreeBucketDesc]
      exact (represents.owns_granted free member).congr
        (described_rest page heap).2.2.1 (described_rest page heap).2.2.2
    · rw [memory_setFreeBucketDesc]
      exact represents.freeInMemory.granted.congr
        (described_rest page heap).2.2.1 (described_rest page heap).2.2.2
  refine framed.repool ?_
  have start : pointer (heap.described page).freeBucketDesc =
      some (page * 4096 + 0 * 16) := by
    have first : (heap.described page).freeBucketDesc = page * 4096 :=
      freeBucketDesc_setFreeBucketDesc
    rw [first, Nat.zero_mul, Nat.add_zero]
    exact if_neg (by omega)
  have points (i : Nat) (inside : i < 255) :
      (heap.described page).nextOf (page * 4096 + i * 16) =
        some (page * 4096 + (i + 1) * 16) := by
    unfold nextOf Heap.next
    rw [loads, if_neg (by omega), load_linkUp (by omega) (by decide) inside]
    exact if_neg (by omega)
  have last : (heap.described page).nextOf (page * 4096 + 255 * 16) =
      pointer heap.freeBucketDesc := by
    unfold nextOf Heap.next
    rw [loads, if_pos rfl]
  have shape : descsOf page ++ layout.pool =
      (List.range 255).map (fun i => page * 4096 + i * 16) ++
        (page * 4096 + 255 * 16) :: layout.pool := by
    unfold descsOf
    rw [List.range_succ, List.map_append, List.append_assoc]
    rfl
  have old := framed.pool
  rw [freeBucketDesc_setFreeBucketDesc, nextOf_setFreeBucketDesc] at old
  rw [shape, start]
  refine Linked.steps points ⟨rfl, ?_⟩
  rw [last]
  exact old

/-! ## A new bucket -/

section Links

variable {cp address : Nat}

/-- The last of the blocks in a page. -/
theorem last_block
    (member : size ∈ bucketDir) :
    (4096 / size - 1) * size + size = 4096 := by
  obtain ⟨_, _, _, whole, _, positive⟩ := size_bounds member
  calc (4096 / size - 1) * size + size = (4096 / size - 1 + 1) * size := by
        rw [Nat.add_mul, Nat.one_mul]
    _ = 4096 := by rw [Nat.sub_add_cancel positive, whole]

theorem load_linkBlocks_other
    (member : size ∈ bucketDir)
    (small : page < 4096)
    (elsewhere : address / 4096 ≠ page) :
    (linkBlocks size (page * 4096) heap).load address = heap.load address := by
  have last := last_block member
  have positive := (size_bounds member).1
  unfold linkBlocks
  dsimp only
  rw [load_save_of_ne (by decide) (by omega),
    load_linkUp_other (by omega) fun i inside => ?_]
  have before : i * size ≤ (4096 / size - 1) * size :=
    Nat.mul_le_mul_right size (Nat.le_of_lt inside)
  omega

theorem load_linkBlocks
    (member : size ∈ bucketDir)
    (small : page < 4096)
    {i : Nat}
    (inside : i < 4096 / size - 1) :
    (linkBlocks size (page * 4096) heap).load (page * 4096 + i * size) =
      page * 4096 + (i + 1) * size := by
  have last := last_block member
  have positive := (size_bounds member).1
  have before : (i + 1) * size ≤ (4096 / size - 1) * size :=
    Nat.mul_le_mul_right size inside
  rw [Nat.succ_mul] at before
  have linked :=
    @load_linkUp heap 0 size (4096 / size - 1) (page * 4096) (by omega)
      (by omega) i inside
  rw [Nat.add_zero] at linked
  unfold linkBlocks
  dsimp only
  rw [load_save_of_ne (by decide) (by omega)]
  exact linked

theorem load_linkBlocks_last
    (size page : Nat) :
    (linkBlocks size (page * 4096) heap).load
      (page * 4096 + (4096 / size - 1) * size) = 0 := by
  unfold linkBlocks
  dsimp only
  rw [load_save (by decide), if_pos rfl]

theorem linkBlocks_rest (size cp : Nat) (heap : Heap) :
    (linkBlocks size cp heap).chain = heap.chain ∧
      (linkBlocks size cp heap).freeBucketDesc = heap.freeBucketDesc ∧
        (linkBlocks size cp heap).pages = heap.pages ∧
          (linkBlocks size cp heap).memory.memMap = heap.memory.memMap ∧
            (linkBlocks size cp heap).memory.highMemory = heap.memory.highMemory :=
  linkUp_rest

end Links

/-- The new bucket. -/
def bucketed (size bdesc page : Nat) (heap : Heap) : Heap :=
  let heap := heap.granted page
  let heap := heap.setFreeptr bdesc (page * 4096)
  let heap := heap.setPage bdesc (page * 4096)
  let heap := linkBlocks size (page * 4096) heap
  let heap := heap.setNext bdesc (heap.chain size)
  heap.setChain size bdesc

theorem load_reserved
    {address : Nat}
    (member : size ∈ bucketDir) :
    (heap.reserved size).load address =
      if address / 4 = (heap.freeBucketDesc + 12) / 4 then size * 65536
      else heap.load address := by
  have bounds := size_bounds member
  have isNone {other : Heap} {place : Nat} :
      (other.setRefcnt place 0).refcnt place = 0 := by
    rw [refcnt_setRefcnt]
  unfold reserved
  dsimp only
  unfold setBucketSize
  rw [isNone, Nat.mod_eq_of_lt (by omega), load_save (by omega)]
  split_ifs with here
  · exact Nat.add_zero _
  · rw [load_setRefcnt, if_neg here, load_setFreeBucketDesc]

theorem reserved_rest (size : Nat) (heap : Heap) :
    (heap.reserved size).chain = heap.chain ∧
      (heap.reserved size).freeBucketDesc = heap.next heap.freeBucketDesc ∧
        (heap.reserved size).pages = heap.pages ∧
          (heap.reserved size).memory.memMap = heap.memory.memMap ∧
            (heap.reserved size).memory.highMemory = heap.memory.highMemory :=
  ⟨rfl, rfl, rfl, rfl, rfl⟩

theorem bucketed_rest (size bdesc page : Nat) (heap : Heap) :
    (heap.bucketed size bdesc page).chain =
        Function.update heap.chain size bdesc ∧
      (heap.bucketed size bdesc page).freeBucketDesc = heap.freeBucketDesc ∧
        (heap.bucketed size bdesc page).pages = insert page heap.pages ∧
          (heap.bucketed size bdesc page).memory.memMap =
            (heap.granted page).memory.memMap ∧
            (heap.bucketed size bdesc page).memory.highMemory =
              (heap.granted page).memory.highMemory := by
  have rest := linkBlocks_rest size (page * 4096)
    (((heap.granted page).setFreeptr bdesc (page * 4096)).setPage bdesc
      (page * 4096))
  unfold bucketed
  dsimp only
  rw [chain_setChain, freeBucketDesc_setChain, pages_setChain, memory_setChain]
  unfold setNext
  rw [chain_save, freeBucketDesc_save, pages_save, memMap_save, highMemory_save,
    rest.1, rest.2.1, rest.2.2.1, rest.2.2.2.1, rest.2.2.2.2]
  unfold setPage setFreeptr
  exact ⟨rfl, rfl, rfl, rfl, rfl⟩

section Bucketed

variable {address : Nat}

/-- Words of the descriptor of a new bucket, and those of other pages. -/
theorem load_bucketed
    (member : size ∈ bucketDir)
    (small : page < 4096)
    (head : heap.chain size < 2 ^ 32)
    (elsewhere : address / 4096 ≠ page) :
    (heap.bucketed size bdesc page).load address =
      if address / 4 = (bdesc + 4) / 4 then heap.chain size
      else if address / 4 = bdesc / 4 then page * 4096
      else if address / 4 = (bdesc + 8) / 4 then page * 4096
      else heap.load address := by
  have rest := linkBlocks_rest size (page * 4096)
    (((heap.granted page).setFreeptr bdesc (page * 4096)).setPage bdesc
      (page * 4096))
  have chain : (((heap.granted page).setFreeptr bdesc (page * 4096)).setPage
      bdesc (page * 4096)).chain size = heap.chain size :=
    rfl
  unfold bucketed
  dsimp only
  rw [load_setChain]
  unfold setNext
  rw [rest.1, chain, load_save head]
  split_ifs with isNext isPage isFree
  · rfl
  · rw [load_linkBlocks_other member small elsewhere]
    unfold setPage
    rw [load_save (by omega), if_pos isPage]
  · rw [load_linkBlocks_other member small elsewhere]
    unfold setPage setFreeptr
    rw [load_save_of_ne (by omega) isPage, load_save (by omega), if_pos isFree]
  · rw [load_linkBlocks_other member small elsewhere]
    unfold setPage setFreeptr
    rw [load_save_of_ne (by omega) isPage, load_save_of_ne (by omega) isFree,
      load_granted, if_neg elsewhere]

/-- Its blocks are all in its free chain. -/
theorem linked_bucketed
    (member : size ∈ bucketDir)
    (bounds : 0 < page ∧ page < 4096)
    (head : heap.chain size < 2 ^ 32)
    (elsewhere : (bdesc + 4) / 4096 ≠ page) :
    Linked (heap.bucketed size bdesc page).linkOf (pointer (page * 4096))
      (blocks size page) := by
  obtain ⟨large, _, divides, whole, _, positive⟩ := size_bounds member
  have last := last_block member
  have words {address : Nat} (inPage : address / 4096 = page) :
      (heap.bucketed size bdesc page).load address =
        (linkBlocks size (page * 4096)
          (((heap.granted page).setFreeptr bdesc (page * 4096)).setPage bdesc
            (page * 4096))).load address := by
    have rest := linkBlocks_rest size (page * 4096)
      (((heap.granted page).setFreeptr bdesc (page * 4096)).setPage bdesc
        (page * 4096))
    have chain : (((heap.granted page).setFreeptr bdesc (page * 4096)).setPage
        bdesc (page * 4096)).chain size = heap.chain size :=
      rfl
    unfold bucketed
    dsimp only
    rw [load_setChain]
    unfold setNext
    rw [rest.1, chain, load_save_of_ne head (by omega)]
  have points (i : Nat) (inside : i < 4096 / size - 1) :
      (heap.bucketed size bdesc page).linkOf (page * 4096 + i * size) =
        some (page * 4096 + (i + 1) * size) := by
    have before : (i + 1) * size ≤ (4096 / size - 1) * size :=
      Nat.mul_le_mul_right size inside
    rw [Nat.succ_mul] at before
    unfold linkOf
    rw [words (by omega), load_linkBlocks member bounds.2 inside]
    exact if_neg (by omega)
  have ends : (heap.bucketed size bdesc page).linkOf
      (page * 4096 + (4096 / size - 1) * size) = none := by
    unfold linkOf
    rw [words (by omega), load_linkBlocks_last]
    rfl
  have shape : blocks size page =
      (List.range (4096 / size - 1)).map (fun i => page * 4096 + i * size) ++
        [page * 4096 + (4096 / size - 1) * size] := by
    unfold blocks
    conv_lhs => rw [← Nat.sub_add_cancel positive]
    rw [List.range_succ, List.map_append]
    rfl
  have start : pointer (page * 4096) = some (page * 4096 + 0 * size) := by
    rw [Nat.zero_mul, Nat.add_zero]
    exact if_neg (by omega)
  rw [shape, start]
  exact Linked.steps points ⟨rfl, ends⟩

end Bucketed

/-- The layout with a new bucket, whose blocks are all free. -/
def Layout.bucket
    (layout : Layout)
    (size bdesc page : Nat)
    (pool : List Nat) : Layout :=
  { layout with
    chains :=
      Function.update layout.chains size (bdesc :: layout.chains size)
    pool := pool
    page := Function.update layout.page bdesc page
    free := Function.update layout.free bdesc (blocks size page) }

section NewBucket

variable {pool : List Nat}

theorem Layout.inChain_bucket
    {other another : Nat}
    (member : size ∈ bucketDir) :
    (layout.bucket size bdesc page pool).InChain other another ↔
      (other = size ∧ another = bdesc) ∨ layout.InChain other another := by
  unfold Layout.InChain Layout.bucket
  dsimp only
  by_cases here : other = size
  · subst here
    rw [Function.update_self, List.mem_cons]
    simp only [true_and, member]
  · rw [Function.update_of_ne here]
    simp only [here, false_and, false_or]

theorem Layout.Valid.bucket
    {pages : Finset Nat}
    (valid : layout.Valid pages live)
    (member : size ∈ bucketDir)
    (first : layout.pool = bdesc :: pool)
    (fresh : page ∉ pages)
    (bounds : 0 < page ∧ page < 4096) :
    (layout.bucket size bdesc page pool).Valid (insert page pages) live := by
  have nodup := valid.poolNodup
  rw [first] at nodup
  obtain ⟨notAgain, poolNodup⟩ := List.nodup_cons.mp nodup
  have inPool : bdesc ∈ layout.pool := first ▸ List.mem_cons_self
  have different {otherSize other : Nat}
      (inChain : layout.InChain otherSize other) : other ≠ bdesc := by
    rintro rfl
    exact valid.notPool inChain inPool
  have oldPage {otherSize other : Nat}
      (inChain : layout.InChain otherSize other) :
      (layout.bucket size bdesc page pool).page other = layout.page other :=
    Function.update_of_ne (different inChain) _ _
  have newPage : (layout.bucket size bdesc page pool).page bdesc = page :=
    Function.update_self ..
  have oldFree {otherSize other : Nat}
      (inChain : layout.InChain otherSize other) :
      (layout.bucket size bdesc page pool).free other = layout.free other :=
    Function.update_of_ne (different inChain) _ _
  have newFree : (layout.bucket size bdesc page pool).free bdesc =
      blocks size page :=
    Function.update_self ..
  have known {otherSize other : Nat}
      (inChain : layout.InChain otherSize other) : layout.page other ≠ page := by
    rintro rfl
    exact fresh (valid.allPages.mpr (Or.inr ⟨_, _, inChain, rfl⟩))
  refine
    { oneSize := fun one two => ?_
      notPool := fun inChain inRest => ?_
      chainNodup := fun {other} otherMember => ?_
      poolNodup := poolNodup
      descs := ?_
      allPages := ?_
      notDescs := fun inChain => ?_
      onePage := fun one two => ?_
      main := fun inPages => ?_
      inside := fun inChain block => ?_
      freeNodup := fun inChain => ?_
      used := ?_
      fits := fun inUse inChain inPage => ?_
      liveNodup := valid.liveNodup }
  · rcases (Layout.inChain_bucket member).mp one with ⟨rfl, same⟩ | one
    · rcases (Layout.inChain_bucket member).mp two with ⟨rfl, _⟩ | two
      · rfl
      · exact absurd same (different two)
    · rcases (Layout.inChain_bucket member).mp two with ⟨_, same⟩ | two
      · exact absurd same (different one)
      · exact valid.oneSize one two
  · rcases (Layout.inChain_bucket member).mp inChain with ⟨_, rfl⟩ | inChain
    · exact notAgain inRest
    · refine valid.notPool inChain ?_
      rw [first]
      exact List.mem_cons_of_mem _ inRest
  · change (Function.update layout.chains size _ other).Nodup
    by_cases here : other = size
    · subst here
      rw [Function.update_self]
      exact List.nodup_cons.mpr
        ⟨fun inChain => different ⟨member, inChain⟩ rfl, valid.chainNodup member⟩
    · rw [Function.update_of_ne here]
      exact valid.chainNodup otherMember
  · intro other
    refine Iff.trans ?_ valid.descs
    unfold Layout.IsDesc
    rw [first, List.mem_cons]
    constructor
    · rintro (inRest | ⟨otherSize, inChain⟩)
      · exact Or.inl (Or.inr inRest)
      · rcases (Layout.inChain_bucket member).mp inChain with
          ⟨_, rfl⟩ | inChain
        · exact Or.inl (Or.inl rfl)
        · exact Or.inr ⟨otherSize, inChain⟩
    · rintro ((rfl | inRest) | ⟨otherSize, inChain⟩)
      · exact Or.inr ⟨size, (Layout.inChain_bucket member).mpr (Or.inl ⟨rfl, rfl⟩)⟩
      · exact Or.inl inRest
      · exact Or.inr ⟨otherSize, (Layout.inChain_bucket member).mpr (Or.inr inChain)⟩
  · intro other
    rw [Finset.mem_insert, valid.allPages]
    constructor
    · rintro (rfl | inDescs | ⟨otherSize, another, inChain, rfl⟩)
      · exact Or.inr ⟨size, bdesc,
          (Layout.inChain_bucket member).mpr (Or.inl ⟨rfl, rfl⟩), newPage⟩
      · exact Or.inl inDescs
      · exact Or.inr ⟨otherSize, another,
          (Layout.inChain_bucket member).mpr (Or.inr inChain),
          oldPage inChain⟩
    · rintro (inDescs | ⟨otherSize, another, inChain, rfl⟩)
      · exact Or.inr (Or.inl inDescs)
      · rcases (Layout.inChain_bucket member).mp inChain with
          ⟨_, rfl⟩ | inChain
        · exact Or.inl newPage
        · exact Or.inr (Or.inr ⟨otherSize, another, inChain, (oldPage inChain).symm⟩)
  · rcases (Layout.inChain_bucket member).mp inChain with ⟨_, rfl⟩ | inChain
    · rw [newPage]
      exact fun inDescs => fresh (valid.allPages.mpr (Or.inl inDescs))
    · rw [oldPage inChain]
      exact valid.notDescs inChain
  · rcases (Layout.inChain_bucket member).mp one with ⟨_, rfl⟩ | oneOld
    · rcases (Layout.inChain_bucket member).mp two with ⟨_, rfl⟩ | twoOld
      · exact fun _ => rfl
      · rw [newPage, oldPage twoOld]
        exact fun same => absurd same.symm (known twoOld)
    · rcases (Layout.inChain_bucket member).mp two with ⟨_, rfl⟩ | twoOld
      · rw [newPage, oldPage oneOld]
        exact fun same => absurd same (known oneOld)
      · rw [oldPage oneOld, oldPage twoOld]
        exact valid.onePage oneOld twoOld
  · rcases Finset.mem_insert.mp inPages with rfl | inPages
    · exact bounds
    · exact valid.main inPages
  · rcases (Layout.inChain_bucket member).mp inChain with
      ⟨rfl, rfl⟩ | inChain
    · rw [newPage, newFree]
      exact id
    · rw [oldPage inChain, oldFree inChain]
      exact valid.inside inChain block
  · rcases (Layout.inChain_bucket member).mp inChain with ⟨_, rfl⟩ | inChain
    · rw [newFree]
      exact blocks_nodup page member
    · rw [oldFree inChain]
      exact valid.freeNodup inChain
  · intro block
    rw [valid.used]
    constructor
    · rintro ⟨otherSize, other, inChain, inPage, notFree⟩
      refine ⟨otherSize, other,
        (Layout.inChain_bucket member).mpr (Or.inr inChain), ?_, ?_⟩
      · rw [oldPage inChain]
        exact inPage
      · rw [oldFree inChain]
        exact notFree
    · rintro ⟨otherSize, other, inChain, inPage, notFree⟩
      rcases (Layout.inChain_bucket member).mp inChain with
        ⟨rfl, rfl⟩ | inChain
      · rw [newPage] at inPage
        rw [newFree] at notFree
        exact absurd inPage notFree
      · rw [oldPage inChain] at inPage
        rw [oldFree inChain] at notFree
        exact ⟨otherSize, other, inChain, inPage, notFree⟩
  · rcases (Layout.inChain_bucket member).mp inChain with
      ⟨rfl, rfl⟩ | inChain
    · rw [newPage] at inPage
      have used := List.mem_map_of_mem (f := Prod.fst) inUse
      obtain ⟨otherSize, other, otherIn, otherPage, _⟩ := valid.used.mp used
      exact absurd ((block_page otherIn.1 otherPage).symm.trans
        (block_page member inPage)) (known otherIn)
    · rw [oldPage inChain] at inPage
      exact valid.fits inUse inChain inPage

theorem pointer_lt
    {address : Nat} {nodes : List Nat}
    (linked : Linked heap.nextOf (pointer address) nodes)
    (small : ∀ node ∈ nodes, node < 2 ^ 32) :
    address < 2 ^ 32 := by
  cases nodes with
  | nil =>
    rw [Linked.nil_iff] at linked
    unfold pointer at linked
    split_ifs at linked with null
    omega
  | cons first rest =>
    rw [(pointer_eq_some linked.1).1]
    exact small first List.mem_cons_self

theorem Layout.Valid.desc_lt
    {pages : Finset Nat}
    (valid : layout.Valid pages live)
    (isDesc : layout.IsDesc bdesc) :
    bdesc < 2 ^ 32 := by
  have bounds := valid.desc_bounds isDesc
  omega

theorem Represents.bucket
    (represents : Represents layout heap)
    (valid : layout.Valid heap.pages live)
    (member : size ∈ bucketDir)
    (first : layout.pool = bdesc :: pool)
    (free : IsFree heap.memory page) :
    heap.freeBucketDesc = bdesc ∧
      Represents (layout.bucket size bdesc page pool)
        ((heap.reserved size).bucketed size bdesc page) := by
  have above := free.above
  have below := free.below
  unfold Memory.lowMemPage at above below
  unfold Memory.pagingPages at below
  have sizes := size_bounds member
  have fresh := represents.fresh free
  have linked := represents.pool
  rw [first] at linked
  obtain ⟨points, tail⟩ := linked
  obtain ⟨start, _⟩ := pointer_eq_some points
  have inPool : bdesc ∈ layout.pool := first ▸ List.mem_cons_self
  have isDesc : layout.IsDesc bdesc := Or.inl inPool
  have bounds := valid.desc_bounds isDesc
  have nodup := valid.poolNodup
  rw [first] at nodup
  obtain ⟨notAgain, _⟩ := List.nodup_cons.mp nodup
  have different {otherSize other : Nat}
      (inChain : layout.InChain otherSize other) : other ≠ bdesc := by
    rintro rfl
    exact valid.notPool inChain inPool
  have head : (heap.reserved size).chain size < 2 ^ 32 :=
    pointer_lt (represents.chain member) fun other inside =>
      valid.desc_lt (Or.inr ⟨size, member, inside⟩)
  have outside {k : Nat} (within : k < 16) {other : Nat}
      (otherIsDesc : layout.IsDesc other) : (other + k) / 4096 ≠ page := by
    intro here
    apply fresh
    rw [← here]
    exact valid.desc_page otherIsDesc within
  obtain ⟨after, shape⟩ :
      ∃ after, after = (heap.reserved size).bucketed size bdesc page :=
    ⟨_, rfl⟩
  have words {address : Nat} (elsewhere : address / 4096 ≠ page) :
      after.load address =
        if address / 4 = (bdesc + 4) / 4 then heap.chain size
        else if address / 4 = bdesc / 4 then page * 4096
        else if address / 4 = (bdesc + 8) / 4 then page * 4096
        else if address / 4 = (bdesc + 12) / 4 then size * 65536
        else heap.load address := by
    rw [shape, load_bucketed member below head elsewhere, load_reserved member, start]
    rfl
  -- Other descriptors keep their words.
  have descWord {other k : Nat} (otherIsDesc : layout.IsDesc other)
      (within : k < 16) (notNew : other ≠ bdesc) :
      after.load (other + k) = heap.load (other + k) := by
    have apart (j : Nat) (small : j < 16) : (other + k) / 4 ≠ (bdesc + j) / 4 :=
      valid.desc_ne_desc otherIsDesc isDesc notNew within small
    have notPage : (other + k) / 4 ≠ bdesc / 4 := apart 0 (by decide)
    rw [words (outside within otherIsDesc), if_neg (apart 4 (by decide)),
      if_neg notPage, if_neg (apart 8 (by decide)),
      if_neg (apart 12 (by decide))]
  have next {other : Nat} (otherIsDesc : layout.IsDesc other)
      (notNew : other ≠ bdesc) : after.nextOf other = heap.nextOf other := by
    unfold nextOf Heap.next
    rw [descWord otherIsDesc (by decide) notNew]
  have newNext : after.nextOf bdesc = pointer (heap.chain size) := by
    unfold nextOf Heap.next
    rw [words (outside (by decide) isDesc), if_pos rfl]
  have newPage : after.page bdesc = page * 4096 := by
    have elsewhere : bdesc / 4096 ≠ page :=
      outside (by decide : 0 < 16) isDesc
    unfold Heap.page
    rw [words elsewhere, if_neg (by omega), if_pos rfl]
  have newFree : after.freeptr bdesc = page * 4096 := by
    unfold Heap.freeptr
    rw [words (outside (by decide) isDesc), if_neg (by omega),
      if_neg (by omega), if_pos rfl]
  have newCount : after.refcnt bdesc = 0 := by
    unfold Heap.refcnt
    rw [words (outside (by decide) isDesc), if_neg (by omega),
      if_neg (by omega), if_neg (by omega), if_pos rfl]
    exact Nat.mul_mod_left size 65536
  have rest := bucketed_rest size bdesc page (heap.reserved size)
  rw [← shape] at rest ⊢
  refine ⟨start,
    { chain := fun {other} otherMember => ?_, pool := ?_
      page := fun {otherSize other} inChain => ?_
      free := fun {otherSize other} inChain => ?_
      refcnt := fun {otherSize other} inChain => ?_
      owns := fun {other} inPages => ?_, freeInMemory := ?_ }⟩
  · have old := (represents.chain otherMember).congr fun another inside =>
      next (Or.inr ⟨other, otherMember, inside⟩)
        (different ⟨otherMember, inside⟩)
    rw [rest.1]
    change Linked _ _ (Function.update layout.chains size _ other)
    by_cases here : other = size
    · subst here
      rw [Function.update_self, Function.update_self]
      refine ⟨if_neg (by omega), ?_⟩
      rw [newNext]
      exact old
    · rw [Function.update_of_ne here, Function.update_of_ne here]
      exact old
  · rw [rest.2.1, (reserved_rest size heap).2.1, start]
    exact tail.congr fun other inside =>
      next (Or.inl (first ▸ List.mem_cons_of_mem _ inside))
        fun same => notAgain (same ▸ inside)
  · change after.page other = Function.update layout.page bdesc page other * 4096
    rcases (Layout.inChain_bucket member).mp inChain with ⟨_, rfl⟩ | inChain
    · rw [Function.update_self]
      exact newPage
    · rw [Function.update_of_ne (different inChain)]
      exact (descWord (k := 0) (Or.inr ⟨otherSize, inChain⟩) (by decide)
        (different inChain)).trans (represents.page inChain)
  · change Linked after.linkOf _
      (Function.update layout.free bdesc (blocks size page) other)
    rcases (Layout.inChain_bucket member).mp inChain with ⟨_, rfl⟩ | inChain
    · rw [Function.update_self, newFree, shape]
      exact linked_bucketed member ⟨by omega, below⟩ head
        (outside (by decide) isDesc)
    · have start : after.freeptr other = heap.freeptr other :=
        descWord (Or.inr ⟨otherSize, inChain⟩) (by decide) (different inChain)
      rw [Function.update_of_ne (different inChain), start]
      refine (represents.free inChain).congr fun block inside => ?_
      have inPage := block_page inChain.1 (valid.inside inChain block inside)
      have elsewhere : block / 4096 ≠ page := by
        intro here
        apply fresh
        rw [← here]
        exact valid.free_page inChain inside
      have apart (j : Nat) (small : j < 16) : block / 4 ≠ (bdesc + j) / 4 :=
        (valid.desc_ne_block isDesc inChain small inPage).symm
      have notPage : block / 4 ≠ bdesc / 4 := apart 0 (by decide)
      unfold linkOf
      rw [words elsewhere, if_neg (apart 4 (by decide)), if_neg notPage,
        if_neg (apart 8 (by decide)), if_neg (apart 12 (by decide))]
  · change after.refcnt other +
      (Function.update layout.free bdesc (blocks size page) other).length =
        4096 / otherSize
    rcases (Layout.inChain_bucket member).mp inChain with
      ⟨rfl, rfl⟩ | inChain
    · rw [Function.update_self, newCount, length_blocks, Nat.zero_add]
    · have count : after.refcnt other = heap.refcnt other :=
        congrArg (· % 65536) (descWord (Or.inr ⟨otherSize, inChain⟩) (by decide)
          (different inChain))
      rw [Function.update_of_ne (different inChain), count]
      exact represents.refcnt inChain
  · rw [rest.2.2.1] at inPages
    exact (represents.owns_granted free inPages).congr rest.2.2.2.1
      rest.2.2.2.2
  · exact represents.freeInMemory.granted.congr rest.2.2.2.1 rest.2.2.2.2

end NewBucket

end Heap

end HitOs
