import HitOs.MallocCalls
import HitOs.Traces

namespace HitOs

/-!
# Runs of the allocator

Calls of `malloc` and `free_s` in any order, with whatever the rest of the kernel
does to its own memory and to the blocks that it has in between.
-/

namespace Heap

/-- The heap and what has been handed out from it. -/
structure Allocator where
  heap : Heap
  live : Live

/-- How many bytes a request is served with. -/
def extent (len : Nat) : Nat :=
  (bucketFor len).getD 0

/-- No byte of a block is in the word at an address. -/
def Outside (address : Nat) (used : Nat × Nat) : Prop :=
  4 * (address / 4) + 4 ≤ used.1 ∨ used.1 + used.2 ≤ 4 * (address / 4)

/-- What the rest of the kernel leaves as it is. -/
structure Leaves (allocator : Allocator) (memory : Memory) : Prop where
  words :
    ∀ address, address / 4096 ∈ allocator.heap.pages →
      (∀ used ∈ allocator.live, Outside address used) →
        memory.load address = allocator.heap.load address
  counts :
    ∀ page ∈ allocator.heap.pages,
      memory.memMap (page - Memory.lowMemPage) =
        allocator.heap.memory.memMap (page - Memory.lowMemPage)
  highMemory :
    memory.highMemory = allocator.heap.memory.highMemory
  freeInMemory :
    FreeInMemory memory

inductive Call where
  | malloc (len : Nat)
  | freeS (block : Nat) (size : Int)
  /-- Anything else, with the memory after it. -/
  | other (memory : Memory)

/-- One call; `free_s` gets a block that is in use. -/
inductive Step : Call → Allocator → Allocator → Prop where
  | malloc
      {len block : Nat} {allocator : Allocator} {after : Heap}
      (small : len ≤ 4096)
      (returns : Returns (malloc len) allocator.heap block after) :
      Step (.malloc len) allocator ⟨after, (block, len) :: allocator.live⟩
  | freeS
      {block len : Nat} {size : Int} {allocator : Allocator} {after : Heap}
      (inUse : (block, len) ∈ allocator.live)
      (asked : size = 0 ∨ size = len)
      (returns : Returns (freeS block size) allocator.heap () after) :
      Step (.freeS block size) allocator
        ⟨after, allocator.live.filter fun used => used.1 ≠ block⟩
  | other
      {allocator : Allocator} {memory : Memory}
      (leaves : Leaves allocator memory) :
      Step (.other memory) allocator
        ⟨{ allocator.heap with memory := memory }, allocator.live⟩

/-- No bucket has been made. -/
structure Fresh (heap : Heap) : Prop where
  chain :
    heap.chain = fun _ => 0
  freeBucketDesc :
    heap.freeBucketDesc = 0
  pages :
    heap.pages = ∅
  freeInMemory :
    FreeInMemory heap.memory

/-- Blocks, buckets and descriptors in order. -/
structure Sound (layout : Layout) (allocator : Allocator) : Prop where
  represents :
    Represents layout allocator.heap
  inPage :
    ∀ {block len}, (block, len) ∈ allocator.live →
      len ≤ extent len ∧ ∃ page ∈ allocator.heap.pages,
        page * 4096 ≤ block ∧ block + extent len ≤ page * 4096 + 4096
  apart :
    allocator.live.Pairwise fun used other =>
      used.1 + extent used.2 ≤ other.1 ∨ other.1 + extent other.2 ≤ used.1
  notLink :
    ∀ {block len size bdesc}, (block, len) ∈ allocator.live →
      layout.InChain size bdesc → ∀ free ∈ layout.free bdesc,
        free + 4 ≤ block ∨ block + extent len ≤ free
  notDesc :
    ∀ {block len bdesc}, (block, len) ∈ allocator.live →
      layout.IsDesc bdesc → bdesc + 16 ≤ block ∨ block + extent len ≤ bdesc
  refcnt :
    ∀ {size bdesc}, layout.InChain size bdesc →
      0 < allocator.heap.refcnt bdesc ∧
        allocator.heap.refcnt bdesc =
          allocator.live.countP fun used => used.1 / 4096 = layout.page bdesc
  others :
    ∀ {size bdesc}, layout.InChain size bdesc →
      List.Perm
        (layout.free bdesc ++
          (allocator.live.filter fun used =>
            used.1 / 4096 = layout.page bdesc).map Prod.fst)
        (blocks size (layout.page bdesc))
  oneChain :
    (layout.pool ++ bucketDir.flatMap layout.chains).Nodup
  allDescs :
    ∀ {bdesc}, bdesc ∈ layout.pool ++ bucketDir.flatMap layout.chains ↔
      ∃ page ∈ layout.descPages, ∃ i, i < 256 ∧ bdesc = page * 4096 + 16 * i
  allPages :
    ∀ {page}, page ∈ allocator.heap.pages ↔
      page ∈ layout.descPages ∨
        ∃ size bdesc, layout.InChain size bdesc ∧ layout.page bdesc = page

/-- What the next call does. -/
structure Serves (allocator : Allocator) : Prop where
  malloc :
    ∀ {len}, len ≤ 4096 → Available allocator.heap.memory →
      ∃ block after, Returns (malloc len) allocator.heap block after
  keeps :
    ∀ {len block after}, len ≤ 4096 →
      Returns (Heap.malloc len) allocator.heap block after →
        allocator.heap.pages ⊆ after.pages
  freeS :
    ∀ {block len} {size : Int}, (block, len) ∈ allocator.live →
      (size = 0 ∨ size = len) →
        ∃ after, Returns (freeS block size) allocator.heap () after ∧
          Frees allocator.live block allocator.heap after

/-- What every step preserves. -/
def Tidy (allocator : Allocator) : Prop :=
  ∃ layout, Represents layout allocator.heap ∧
    layout.Valid allocator.heap.pages allocator.live ∧ layout.Busy

variable {layout : Layout} {allocator after : Allocator} {heap : Heap}
variable {block len size bdesc : Nat} {pages : Finset Nat} {live : Live}

theorem bucketFor_of_le (small : len ≤ 4096) : ∃ size, bucketFor len = some size := by
  refine Option.isSome_iff_exists.mp (List.find?_isSome.mpr ⟨4096, by decide, ?_⟩)
  exact decide_eq_true small

theorem bucketFor_bounds
    (serves : bucketFor len = some size) :
    size ∈ bucketDir ∧ len ≤ size ∧ extent len = size := by
  refine ⟨List.mem_of_find?_eq_some serves, ?_, ?_⟩
  · have fits := List.find?_some serves
    exact of_decide_eq_true fits
  · unfold extent
    rw [serves]
    rfl

/-- The bucket of a block in use. -/
theorem Layout.Valid.liveBlock
    (valid : layout.Valid pages live)
    (inUse : (block, len) ∈ live) :
    ∃ size bdesc, layout.InChain size bdesc ∧
      block ∈ blocks size (layout.page bdesc) ∧ block ∉ layout.free bdesc ∧
        len ≤ size ∧ extent len = size := by
  obtain ⟨size, bdesc, inChain, inPage, notFree⟩ :=
    valid.used.mp (List.mem_map_of_mem inUse)
  obtain ⟨_, fits, measured⟩ :=
    bucketFor_bounds (valid.fits inUse inChain inPage)
  exact ⟨size, bdesc, inChain, inPage, notFree, fits, measured⟩

theorem Layout.Valid.apart
    (valid : layout.Valid pages live)
    {used other : Nat × Nat}
    (inUse : used ∈ live)
    (otherInUse : other ∈ live)
    (different : used.1 ≠ other.1) :
    used.1 + extent used.2 ≤ other.1 ∨ other.1 + extent other.2 ≤ used.1 := by
  obtain ⟨size, bdesc, inChain, inPage, _, _, same⟩ := valid.liveBlock inUse
  obtain ⟨otherSize, another, otherIn, otherPage, _, _, otherSame⟩ :=
    valid.liveBlock otherInUse
  have bounds := block_bounds inChain.1 inPage
  have otherBounds := block_bounds otherIn.1 otherPage
  rw [same, otherSame]
  by_cases here : bdesc = another
  · subst here
    obtain rfl := valid.oneSize inChain otherIn
    exact blocks_apart inPage otherPage different
  · have pagesApart : layout.page bdesc ≠ layout.page another := fun samePage =>
      here (valid.onePage inChain otherIn samePage)
    omega

theorem Layout.Valid.notLink
    (valid : layout.Valid pages live)
    (inUse : (block, len) ∈ live)
    (inChain : layout.InChain size bdesc)
    {free : Nat}
    (isFree : free ∈ layout.free bdesc) :
    free + 4 ≤ block ∨ block + extent len ≤ free := by
  obtain ⟨otherSize, another, otherIn, otherPage, notFree, _, same⟩ :=
    valid.liveBlock inUse
  have inPage := valid.inside inChain free isFree
  have bounds := block_bounds inChain.1 inPage
  have otherBounds := block_bounds otherIn.1 otherPage
  have large := (size_bounds inChain.1).1
  rw [same]
  by_cases here : bdesc = another
  · subst here
    obtain rfl := valid.oneSize inChain otherIn
    have blocksApart := blocks_apart inPage otherPage fun same =>
      notFree (same ▸ isFree)
    omega
  · have pagesApart : layout.page bdesc ≠ layout.page another := fun samePage =>
      here (valid.onePage inChain otherIn samePage)
    omega

theorem Layout.Valid.notDesc
    (valid : layout.Valid pages live)
    (inUse : (block, len) ∈ live)
    (isDesc : layout.IsDesc bdesc) :
    bdesc + 16 ≤ block ∨ block + extent len ≤ bdesc := by
  obtain ⟨size, another, inChain, inPage, _, _, same⟩ := valid.liveBlock inUse
  have bounds := block_bounds inChain.1 inPage
  have descBounds := valid.desc_bounds isDesc
  rw [same]
  have pagesApart : bdesc / 4096 ≠ layout.page another := fun samePage =>
    valid.notDescs inChain (samePage ▸ descBounds.1)
  omega

/-! ## The rest of the kernel -/

theorem Represents.leave
    {memory : Memory}
    (represents : Represents layout allocator.heap)
    (valid : layout.Valid allocator.heap.pages allocator.live)
    (leaves : Leaves allocator memory) :
    Represents layout { allocator.heap with memory := memory } := by
  have descWord {other k : Nat} (isDesc : layout.IsDesc other)
      (within : k < 16) :
      memory.load (other + k) = allocator.heap.load (other + k) := by
    have bounds := valid.desc_bounds isDesc
    have number : (other + k) / 4096 = other / 4096 := by omega
    refine leaves.words _ ?_ fun used inUse => ?_
    · rw [number]
      exact valid.allPages.mpr (Or.inl bounds.1)
    · have outside := valid.notDesc inUse isDesc
      obtain ⟨size, bdesc, inChain, inPage, _, fits, same⟩ :=
        valid.liveBlock inUse
      have place := block_bounds inChain.1 inPage
      unfold Outside
      omega
  have linkWord {otherSize other free : Nat}
      (inChain : layout.InChain otherSize other)
      (isFree : free ∈ layout.free other) :
      memory.load free = allocator.heap.load free := by
    have inPage := valid.inside inChain free isFree
    have number := block_page inChain.1 inPage
    have place := block_bounds inChain.1 inPage
    refine leaves.words _ ?_ fun used inUse => ?_
    · rw [number]
      exact valid.allPages.mpr (Or.inr ⟨otherSize, other, inChain, rfl⟩)
    · have outside := valid.notLink inUse inChain isFree
      obtain ⟨size, bdesc, otherIn, otherPage, _, fits, same⟩ :=
        valid.liveBlock inUse
      unfold Outside
      omega
  have nextOf {other : Nat} (isDesc : layout.IsDesc other) :
      nextOf { allocator.heap with memory := memory } other =
        allocator.heap.nextOf other :=
    congrArg pointer (descWord isDesc (by decide))
  refine
    { chain := fun {size} member => ?_
      pool := represents.pool.congr fun other inPool => nextOf (Or.inl inPool)
      page := fun {size bdesc} inChain => ?_
      free := fun {size bdesc} inChain => ?_
      refcnt := fun {size bdesc} inChain => ?_
      owns := fun {page} inPages => ?_
      freeInMemory := leaves.freeInMemory }
  · exact (represents.chain member).congr fun other inside =>
      nextOf (Or.inr ⟨size, member, inside⟩)
  · exact (descWord (k := 0) (Or.inr ⟨size, inChain⟩) (by decide)).trans
      (represents.page inChain)
  · have word : Heap.freeptr bdesc { allocator.heap with memory := memory } =
        allocator.heap.freeptr bdesc :=
      descWord (Or.inr ⟨size, inChain⟩) (by decide)
    rw [word]
    exact (represents.free inChain).congr fun free isFree =>
      congrArg pointer (linkWord inChain isFree)
  · have word : Heap.refcnt bdesc { allocator.heap with memory := memory } =
        allocator.heap.refcnt bdesc :=
      congrArg (· % 65536)
        (descWord (Or.inr ⟨size, inChain⟩) (by decide))
    rw [word]
    exact represents.refcnt inChain
  · have owns := represents.owns inPages
    exact ⟨owns.above, leaves.highMemory ▸ owns.below,
      (leaves.counts page inPages).trans owns.count⟩

/-! ## Every run -/

theorem Fresh.tidy (fresh : Fresh heap) : Tidy ⟨heap, []⟩ := by
  refine ⟨⟨fun _ => [], [], ∅, fun _ => 0, fun _ => []⟩, ?_, ?_, ?_⟩
  · refine
      { chain := fun {size} member => ?_
        pool := ?_
        page := fun inChain => absurd inChain.2 List.not_mem_nil
        free := fun inChain => absurd inChain.2 List.not_mem_nil
        refcnt := fun inChain => absurd inChain.2 List.not_mem_nil
        owns := fun {page} inPages => ?_
        freeInMemory := fresh.freeInMemory }
    · change Linked _ (pointer (heap.chain size)) []
      rw [fresh.chain]
      rfl
    · change Linked _ (pointer heap.freeBucketDesc) []
      rw [fresh.freeBucketDesc]
      rfl
    · rw [fresh.pages] at inPages
      exact absurd inPages (Finset.notMem_empty page)
  · have noChain {size bdesc : Nat} :
        ¬ (⟨fun _ => [], [], ∅, fun _ => 0, fun _ => []⟩ :
          Layout).InChain size bdesc :=
      fun inChain => absurd inChain.2 List.not_mem_nil
    refine
      { oneSize := fun inChain => absurd inChain noChain
        notPool := fun inChain => absurd inChain noChain
        chainNodup := fun _ => List.nodup_nil
        poolNodup := List.nodup_nil
        descs := ?_
        allPages := ?_
        notDescs := fun inChain => absurd inChain noChain
        onePage := fun inChain => absurd inChain noChain
        main := fun inPages => ?_
        inside := fun inChain => absurd inChain noChain
        freeNodup := fun inChain => absurd inChain noChain
        used := ?_
        fits := fun inUse => absurd inUse List.not_mem_nil
        liveNodup := List.nodup_nil }
    · intro bdesc
      constructor
      · rintro (inPool | ⟨size, inChain⟩)
        · exact absurd inPool List.not_mem_nil
        · exact absurd inChain noChain
      · rintro ⟨page, inside, _⟩
        exact absurd inside (Finset.notMem_empty page)
    · intro page
      rw [fresh.pages]
      constructor
      · exact fun inside => absurd inside (Finset.notMem_empty page)
      · rintro (inside | ⟨size, bdesc, inChain, _⟩)
        · exact inside
        · exact absurd inChain noChain
    · rw [fresh.pages] at inPages
      exact absurd inPages (Finset.notMem_empty _)
    · intro block
      constructor
      · exact fun inUse => absurd inUse List.not_mem_nil
      · rintro ⟨size, bdesc, inChain, _⟩
        exact absurd inChain noChain
  · exact fun inChain => absurd inChain.2 List.not_mem_nil

theorem Tidy.step
    {call : Call}
    (tidy : Tidy allocator)
    (stepped : Step call allocator after) :
    Tidy after := by
  obtain ⟨layout, represents, valid, busy⟩ := tidy
  cases stepped with
  | malloc small returns =>
    obtain ⟨size, serves⟩ := bucketFor_of_le small
    rcases malloc_cases represents valid busy serves with
      ⟨block, last, next, again, represents, valid, busy, _⟩ |
        ⟨panics, _⟩
    · obtain ⟨rfl, rfl⟩ := returns.unique again
      exact ⟨next, represents, valid, busy⟩
    · exact absurd panics returns.not_panics
  | freeS inUse asked returns =>
    obtain ⟨last, next, again, represents, valid, busy, _⟩ :=
      freeS_cases represents valid busy inUse asked
    obtain ⟨_, rfl⟩ := returns.unique again
    exact ⟨next, represents, valid, busy⟩
  | other leaves =>
    exact ⟨layout, represents.leave valid leaves, valid, busy⟩

theorem tidy_of_run
    {calls : List Call}
    (fresh : Fresh heap)
    (run : Traces Step calls ⟨heap, []⟩ allocator) :
    Tidy allocator :=
  run.invariant (fun _ _ _ tidy stepped => tidy.step stepped) fresh.tidy

/-- The blocks of a bucket are those that are free and those in use. -/
theorem Layout.Valid.others
    (valid : layout.Valid pages live)
    (inChain : layout.InChain size bdesc) :
    List.Perm
      (layout.free bdesc ++
        (live.filter fun used =>
          used.1 / 4096 = layout.page bdesc).map Prod.fst)
      (blocks size (layout.page bdesc)) := by
  have here {block : Nat} :
      block ∈ (live.filter fun used =>
          used.1 / 4096 = layout.page bdesc).map Prod.fst ↔
        block ∈ live.map Prod.fst ∧ block / 4096 = layout.page bdesc := by
    simp only [List.mem_map, List.mem_filter, decide_eq_true_eq]
    constructor
    · rintro ⟨used, ⟨member, inPage⟩, rfl⟩
      exact ⟨⟨used, member, rfl⟩, inPage⟩
    · rintro ⟨⟨used, member, rfl⟩, inPage⟩
      exact ⟨used, ⟨member, inPage⟩, rfl⟩
  -- A block in use whose page is that of the bucket is one of its blocks.
  have inBucket {block : Nat} (inUse : block ∈ live.map Prod.fst)
      (samePage : block / 4096 = layout.page bdesc) :
      block ∈ blocks size (layout.page bdesc) ∧ block ∉ layout.free bdesc := by
    obtain ⟨otherSize, other, otherIn, otherPage, notFree⟩ :=
      valid.used.mp inUse
    obtain rfl := valid.onePage otherIn inChain
      ((block_page otherIn.1 otherPage).symm.trans samePage)
    obtain rfl := valid.oneSize otherIn inChain
    exact ⟨otherPage, notFree⟩
  refine (List.perm_ext_iff_of_nodup ?_
    (blocks_nodup (layout.page bdesc) inChain.1)).mpr fun block => ?_
  · refine List.nodup_append'.mpr ⟨valid.freeNodup inChain,
      valid.liveNodup.sublist (List.filter_sublist.map Prod.fst), ?_⟩
    intro block isFree inUse
    obtain ⟨inUse, samePage⟩ := here.mp inUse
    exact (inBucket inUse samePage).2 isFree
  · rw [List.mem_append, here]
    constructor
    · rintro (isFree | ⟨inUse, samePage⟩)
      · exact valid.inside inChain block isFree
      · exact (inBucket inUse samePage).1
    · intro inPage
      by_cases isFree : block ∈ layout.free bdesc
      · exact Or.inl isFree
      · exact Or.inr ⟨valid.used.mpr ⟨size, bdesc, inChain, inPage, isFree⟩,
          block_page inChain.1 inPage⟩

theorem Layout.Valid.oneChain
    (valid : layout.Valid pages live) :
    (layout.pool ++ bucketDir.flatMap layout.chains).Nodup := by
  refine List.nodup_append'.mpr ⟨valid.poolNodup, ?_, ?_⟩
  · refine List.nodup_flatMap.mpr ⟨fun size member =>
      valid.chainNodup member, ?_⟩
    have sizes : bucketDir.Nodup := by decide
    refine sizes.pairwise_of_forall_ne fun size member other otherMember
      different bdesc inside otherInside => ?_
    exact different (valid.oneSize ⟨member, inside⟩ ⟨otherMember, otherInside⟩)
  · intro bdesc inPool inChains
    obtain ⟨size, member, inside⟩ := List.mem_flatMap.mp inChains
    exact valid.notPool ⟨member, inside⟩ inPool

theorem Layout.mem_chains :
    bdesc ∈ layout.pool ++ bucketDir.flatMap layout.chains ↔
      layout.IsDesc bdesc := by
  rw [List.mem_append, List.mem_flatMap]
  rfl

theorem Sound.of_valid
    (represents : Represents layout allocator.heap)
    (valid : layout.Valid allocator.heap.pages allocator.live)
    (busy : layout.Busy) :
    Sound layout allocator where
  represents := represents
  inPage := by
    intro block len inUse
    obtain ⟨size, bdesc, inChain, inPage, _, fits, same⟩ :=
      valid.liveBlock inUse
    have bounds := block_bounds inChain.1 inPage
    rw [same]
    exact ⟨fits, layout.page bdesc,
      valid.allPages.mpr (Or.inr ⟨size, bdesc, inChain, rfl⟩), bounds.1,
      bounds.2.1⟩
  apart := by
    have different := List.pairwise_map.mp valid.liveNodup
    exact different.imp_of_mem fun inUse otherInUse notSame =>
      valid.apart inUse otherInUse notSame
  notLink := fun inUse inChain _ isFree => valid.notLink inUse inChain isFree
  notDesc := fun inUse isDesc => valid.notDesc inUse isDesc
  refcnt := by
    intro size bdesc inChain
    have count := represents.refcnt inChain
    have room := busy inChain
    have length := (valid.others inChain).length_eq
    rw [List.length_append, List.length_map, length_blocks] at length
    rw [List.countP_eq_length_filter]
    exact ⟨by omega, by omega⟩
  others := fun inChain => valid.others inChain
  oneChain := valid.oneChain
  allDescs := Layout.mem_chains.trans valid.descs
  allPages := valid.allPages

theorem Serves.of_valid
    (represents : Represents layout allocator.heap)
    (valid : layout.Valid allocator.heap.pages allocator.live)
    (busy : layout.Busy) :
    Serves allocator where
  malloc := by
    intro len small available
    obtain ⟨size, serves⟩ := bucketFor_of_le small
    rcases malloc_cases represents valid busy serves with
      ⟨block, after, _, returns, _⟩ | ⟨_, noPages⟩
    · exact ⟨block, after, returns⟩
    · exact absurd available noPages
  keeps := by
    intro len block after small returns
    obtain ⟨size, serves⟩ := bucketFor_of_le small
    rcases malloc_cases represents valid busy serves with
      ⟨block, last, _, again, _, _, _, grown⟩ | ⟨panics, _⟩
    · obtain ⟨_, rfl⟩ := returns.unique again
      exact grown
    · exact absurd panics returns.not_panics
  freeS := by
    intro block len size inUse asked
    obtain ⟨after, _, returns, _, _, _, frees⟩ :=
      freeS_cases represents valid busy inUse asked
    exact ⟨after, returns, frees⟩

/--
After every run the blocks in use, the free blocks and the descriptors are in
order, `malloc` gets its pages if there are any, and `free_s` gives back the page
of a block that is the last one there.
-/
theorem allocator_sound
    {calls : List Call}
    (fresh : Fresh heap)
    (run : Traces Step calls ⟨heap, []⟩ allocator) :
    (∃ layout, Sound layout allocator) ∧ Serves allocator := by
  obtain ⟨layout, represents, valid, busy⟩ := tidy_of_run fresh run
  exact ⟨⟨layout, .of_valid represents valid busy⟩, .of_valid represents valid busy⟩

/-- Two free pages and nothing else. -/
def spareHeap : Heap where
  memory :=
    { ram := fun _ _ => 0
      memMap := fun index => if index < 2 then 0#8 else Memory.used
      highMemory := 0x1000000 }
  chain := fun _ => 0
  freeBucketDesc := 0
  pages := ∅

/-- A request there, and the page given back with its only block. -/
theorem allocator_sound_first :
    ∃ block after, Returns (malloc 16) spareHeap block after ∧
      (∃ layout, Sound layout ⟨after, [(block, 16)]⟩) ∧
        ∃ last, Returns (freeS block 0) after () last ∧
          last.pages = after.pages.erase (block / 4096) := by
  have fresh : Fresh spareHeap := by
    refine ⟨rfl, rfl, rfl, Nat.le_refl _, fun index below _ => ?_⟩
    unfold Memory.pagingPages at below
    unfold Memory.lowMemPage
    change _ < 0x1000000
    omega
  have spare {index : Nat} (first : index < 2) :
      IsFree spareHeap.memory (Memory.lowMemPage + index) := by
    refine ⟨Nat.le_add_right _ _, ?_, ?_⟩
    · unfold Memory.pagingPages
      omega
    · rw [Nat.add_sub_cancel_left]
      exact if_pos first
  have available : Available spareHeap.memory :=
    ⟨Memory.lowMemPage + 0, Memory.lowMemPage + 1, by decide,
      spare (by decide), spare (by decide)⟩
  obtain ⟨_, serves⟩ := allocator_sound fresh (.done _)
  have small : 16 ≤ 4096 := by decide
  obtain ⟨block, after, returns⟩ := serves.malloc small available
  obtain ⟨sound, serves⟩ := allocator_sound fresh
    (.next (Step.malloc small returns) (.done _))
  obtain ⟨last, gives, frees⟩ :=
    serves.freeS List.mem_cons_self (Or.inl rfl)
  refine ⟨block, after, returns, sound, last, gives, ?_⟩
  refine (frees.gives ?_).1
  rintro ⟨used, member, different, _⟩
  obtain rfl := List.mem_singleton.mp member
  exact different rfl

end Heap

end HitOs
