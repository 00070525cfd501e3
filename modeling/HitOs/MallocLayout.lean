import HitOs.Malloc

namespace HitOs

/-!
# How the allocator lays its pages out

The layout of a heap: the descriptors in the chain of each size and in the pool of
those that are free, the page of each bucket and the blocks in its free chain.  A
layout is valid for the pages that the allocator has and the blocks that are in use;
a heap represents it when its words are the pointers of these chains.
-/

namespace Heap

/-- A block in use and how many bytes it was requested for. -/
abbrev Live := List (Nat × Nat)

/-- The size of the blocks that a request is served from. -/
def bucketFor (len : Nat) : Option Nat :=
  bucketDir.find? fun size => len ≤ size

/-- The blocks in a page. -/
def blocks (size page : Nat) : List Nat :=
  (List.range (4096 / size)).map fun i => page * 4096 + i * size

/-- A pointer, null or not. -/
def pointer (address : Nat) : Option Nat :=
  if address = 0 then none else some address

structure Layout where
  /-- The descriptors in the chain of a size. -/
  chains : Nat → List Nat
  /-- The free descriptors. -/
  pool : List Nat
  /-- The pages with descriptors. -/
  descPages : Finset Nat
  /-- The page of the bucket with a descriptor. -/
  page : Nat → Nat
  /-- The free blocks in it. -/
  free : Nat → List Nat

namespace Layout

/-- A descriptor is in the chain of a size. -/
def InChain (layout : Layout) (size bdesc : Nat) : Prop :=
  size ∈ bucketDir ∧ bdesc ∈ layout.chains size

/-- A descriptor is in some chain. -/
def IsDesc (layout : Layout) (bdesc : Nat) : Prop :=
  bdesc ∈ layout.pool ∨ ∃ size, layout.InChain size bdesc

/-- The chains, the pages and the blocks fit together. -/
structure Valid
    (layout : Layout)
    (pages : Finset Nat)
    (live : Live) : Prop where
  oneSize :
    ∀ {size other bdesc}, layout.InChain size bdesc →
      layout.InChain other bdesc → size = other
  notPool :
    ∀ {size bdesc}, layout.InChain size bdesc → bdesc ∉ layout.pool
  chainNodup :
    ∀ {size}, size ∈ bucketDir → (layout.chains size).Nodup
  poolNodup :
    layout.pool.Nodup
  descs :
    ∀ {bdesc}, layout.IsDesc bdesc ↔
      ∃ page ∈ layout.descPages, ∃ i, i < 256 ∧ bdesc = page * 4096 + 16 * i
  allPages :
    ∀ {page}, page ∈ pages ↔
      page ∈ layout.descPages ∨
        ∃ size bdesc, layout.InChain size bdesc ∧ layout.page bdesc = page
  notDescs :
    ∀ {size bdesc}, layout.InChain size bdesc → layout.page bdesc ∉ layout.descPages
  onePage :
    ∀ {size bdesc other otherSize}, layout.InChain size bdesc →
      layout.InChain otherSize other →
        layout.page bdesc = layout.page other → bdesc = other
  main :
    ∀ {page}, page ∈ pages → 0 < page ∧ page < 4096
  inside :
    ∀ {size bdesc}, layout.InChain size bdesc →
      ∀ block ∈ layout.free bdesc, block ∈ blocks size (layout.page bdesc)
  freeNodup :
    ∀ {size bdesc}, layout.InChain size bdesc → (layout.free bdesc).Nodup
  used :
    ∀ {block}, block ∈ live.map Prod.fst ↔
      ∃ size bdesc, layout.InChain size bdesc ∧
        block ∈ blocks size (layout.page bdesc) ∧ block ∉ layout.free bdesc
  fits :
    ∀ {block len size bdesc}, (block, len) ∈ live →
      layout.InChain size bdesc →
        block ∈ blocks size (layout.page bdesc) → bucketFor len = some size
  liveNodup :
    (live.map Prod.fst).Nodup

end Layout

/-- `next` of a descriptor. -/
def nextOf (heap : Heap) (bdesc : Nat) : Option Nat :=
  pointer (heap.next bdesc)

/-- The link in a free block. -/
def linkOf (heap : Heap) (block : Nat) : Option Nat :=
  pointer (heap.load block)

/-- The allocator has the page, which is a page of memory. -/
structure Owns (memory : Memory) (page : Nat) : Prop where
  above :
    Memory.lowMemPage ≤ page
  below :
    page * 4096 < memory.highMemory
  count :
    memory.memMap (page - Memory.lowMemPage) = 1#8

/-- `get_free_page` finds pages of memory only. -/
def FreeInMemory (memory : Memory) : Prop :=
  memory.highMemory ≤ 0x1000000 ∧
    ∀ index, index < Memory.pagingPages → memory.memMap index = 0#8 →
      (index + Memory.lowMemPage) * 4096 < memory.highMemory

/-- The words of a heap are those of a layout. -/
structure Represents (layout : Layout) (heap : Heap) : Prop where
  chain :
    ∀ {size}, size ∈ bucketDir →
      Linked heap.nextOf (pointer (heap.chain size)) (layout.chains size)
  pool :
    Linked heap.nextOf (pointer heap.freeBucketDesc) layout.pool
  page :
    ∀ {size bdesc}, layout.InChain size bdesc →
      heap.page bdesc = layout.page bdesc * 4096
  free :
    ∀ {size bdesc}, layout.InChain size bdesc →
      Linked heap.linkOf (pointer (heap.freeptr bdesc)) (layout.free bdesc)
  refcnt :
    ∀ {size bdesc}, layout.InChain size bdesc →
      heap.refcnt bdesc + (layout.free bdesc).length = 4096 / size
  owns :
    ∀ {page}, page ∈ heap.pages → Owns heap.memory page
  freeInMemory :
    FreeInMemory heap.memory

/-! ## Sizes and addresses -/

theorem size_bounds
    {size : Nat}
    (member : size ∈ bucketDir) :
    16 ≤ size ∧ size ≤ 4096 ∧ 16 ∣ size ∧ 4096 / size * size = 4096 ∧
      4096 / size ≤ 256 ∧ 0 < 4096 / size := by
  unfold bucketDir at member
  simp only [List.mem_cons, List.not_mem_nil, or_false] at member
  rcases member with rfl | rfl | rfl | rfl | rfl | rfl | rfl | rfl | rfl <;>
    decide

theorem mem_blocks
    {size page block : Nat} :
    block ∈ blocks size page ↔
      ∃ i, i < 4096 / size ∧ block = page * 4096 + i * size := by
  unfold blocks
  rw [List.mem_map]
  simp only [List.mem_range]
  exact exists_congr fun i => and_congr_right fun _ => eq_comm

theorem blocks_nodup
    {size : Nat}
    (page : Nat)
    (member : size ∈ bucketDir) :
    (blocks size page).Nodup := by
  obtain ⟨positive, _⟩ := size_bounds member
  unfold blocks
  refine List.Nodup.map (fun first second same => ?_) List.nodup_range
  exact Nat.eq_of_mul_eq_mul_right (by omega) (Nat.add_left_cancel same)

/-- A block lies in its page. -/
theorem block_bounds
    {size page block : Nat}
    (member : size ∈ bucketDir)
    (inPage : block ∈ blocks size page) :
    page * 4096 ≤ block ∧ block + size ≤ page * 4096 + 4096 ∧
      block % 16 = 0 := by
  obtain ⟨positive, _, divides, whole, _, _⟩ := size_bounds member
  obtain ⟨i, inside, rfl⟩ := mem_blocks.mp inPage
  have next : (i + 1) * size ≤ 4096 / size * size :=
    Nat.mul_le_mul_right size inside
  rw [whole, Nat.add_mul, Nat.one_mul] at next
  obtain ⟨k, rfl⟩ := divides
  refine ⟨by omega, by omega, ?_⟩
  rw [← Nat.mul_assoc, Nat.mul_comm i 16, Nat.mul_assoc]
  omega

theorem block_page
    {size page block : Nat}
    (member : size ∈ bucketDir)
    (inPage : block ∈ blocks size page) :
    block / 4096 = page := by
  have bounds := block_bounds member inPage
  have positive := (size_bounds member).1
  omega

/-- Different blocks of a page are apart. -/
theorem blocks_apart
    {size page block other : Nat}
    (inPage : block ∈ blocks size page)
    (otherInPage : other ∈ blocks size page)
    (different : block ≠ other) :
    block + size ≤ other ∨ other + size ≤ block := by
  obtain ⟨i, _, rfl⟩ := mem_blocks.mp inPage
  obtain ⟨j, _, rfl⟩ := mem_blocks.mp otherInPage
  rcases Nat.lt_trichotomy i j with less | same | more
  · have next : (i + 1) * size ≤ j * size := Nat.mul_le_mul_right size less
    rw [Nat.add_mul, Nat.one_mul] at next
    omega
  · exact absurd (by rw [same]) different
  · have next : (j + 1) * size ≤ i * size := Nat.mul_le_mul_right size more
    rw [Nat.add_mul, Nat.one_mul] at next
    omega

theorem load_lt (address : Nat) (heap : Heap) : heap.load address < 2 ^ 32 :=
  (heap.memory.ram _ _).isLt

theorem load_save
    {address other value : Nat} {heap : Heap}
    (small : value < 2 ^ 32) :
    (heap.save address value).load other =
      if other / 4 = address / 4 then value else heap.load other :=
  Memory.load_save small

section Fields

variable {address value size : Nat} {heap : Heap}

@[simp] theorem chain_save : (heap.save address value).chain = heap.chain :=
  rfl

@[simp] theorem freeBucketDesc_save :
    (heap.save address value).freeBucketDesc = heap.freeBucketDesc :=
  rfl

@[simp] theorem pages_save : (heap.save address value).pages = heap.pages :=
  rfl

@[simp] theorem memMap_save :
    (heap.save address value).memory.memMap = heap.memory.memMap :=
  rfl

@[simp] theorem highMemory_save :
    (heap.save address value).memory.highMemory = heap.memory.highMemory :=
  rfl

@[simp] theorem chain_setFreeBucketDesc :
    (heap.setFreeBucketDesc value).chain = heap.chain :=
  rfl

@[simp] theorem freeBucketDesc_setFreeBucketDesc :
    (heap.setFreeBucketDesc value).freeBucketDesc = value :=
  rfl

@[simp] theorem pages_setFreeBucketDesc :
    (heap.setFreeBucketDesc value).pages = heap.pages :=
  rfl

@[simp] theorem memory_setFreeBucketDesc :
    (heap.setFreeBucketDesc value).memory = heap.memory :=
  rfl

@[simp] theorem chain_setChain :
    (heap.setChain size value).chain = Function.update heap.chain size value :=
  rfl

@[simp] theorem freeBucketDesc_setChain :
    (heap.setChain size value).freeBucketDesc = heap.freeBucketDesc :=
  rfl

@[simp] theorem pages_setChain :
    (heap.setChain size value).pages = heap.pages :=
  rfl

@[simp] theorem memory_setChain :
    (heap.setChain size value).memory = heap.memory :=
  rfl

end Fields

@[simp] theorem load_setFreeBucketDesc
    {address value : Nat} {heap : Heap} :
    (heap.setFreeBucketDesc value).load address = heap.load address :=
  rfl

@[simp] theorem load_setChain
    {address size value : Nat} {heap : Heap} :
    (heap.setChain size value).load address = heap.load address :=
  rfl

theorem load_save_of_ne
    {address other value : Nat} {heap : Heap}
    (small : value < 2 ^ 32)
    (different : other / 4 ≠ address / 4) :
    (heap.save address value).load other = heap.load other := by
  rw [load_save small, if_neg different]

namespace Layout.Valid

variable {layout : Layout} {pages : Finset Nat} {live : Live}
variable {size other bdesc another : Nat}

theorem desc_bounds
    (valid : layout.Valid pages live)
    (isDesc : layout.IsDesc bdesc) :
    bdesc / 4096 ∈ layout.descPages ∧ bdesc % 16 = 0 ∧ 0 < bdesc ∧
      bdesc + 16 ≤ 0x1000000 := by
  obtain ⟨page, member, i, inside, rfl⟩ := valid.descs.mp isDesc
  have bounds := valid.main (valid.allPages.mpr (Or.inl member))
  have number : (page * 4096 + 16 * i) / 4096 = page := by omega
  rw [number]
  exact ⟨member, by omega, by omega, by omega⟩

theorem bucketPage_bounds
    (valid : layout.Valid pages live)
    (inChain : layout.InChain size bdesc) :
    0 < layout.page bdesc ∧ layout.page bdesc < 4096 :=
  valid.main (valid.allPages.mpr (Or.inr ⟨size, bdesc, inChain, rfl⟩))

/-- A word of a descriptor is none of a bucket. -/
theorem desc_ne_block
    (valid : layout.Valid pages live)
    (isDesc : layout.IsDesc bdesc)
    (inChain : layout.InChain size another)
    {k address : Nat}
    (within : k < 16)
    (inPage : address / 4096 = layout.page another) :
    (bdesc + k) / 4 ≠ address / 4 := by
  intro same
  have bounds := valid.desc_bounds isDesc
  refine valid.notDescs inChain ?_
  rw [← inPage]
  have number : address / 4096 = bdesc / 4096 := by omega
  rw [number]
  exact bounds.1

/-- Words of different descriptors are different. -/
theorem desc_ne_desc
    (valid : layout.Valid pages live)
    (isDesc : layout.IsDesc bdesc)
    (otherIsDesc : layout.IsDesc another)
    (different : bdesc ≠ another)
    {k j : Nat}
    (within : k < 16)
    (otherWithin : j < 16) :
    (bdesc + k) / 4 ≠ (another + j) / 4 := by
  have bounds := valid.desc_bounds isDesc
  have otherBounds := valid.desc_bounds otherIsDesc
  omega

end Layout.Valid

/-! ## Stores -/

section Stores

variable {heap : Heap} {bdesc other value : Nat}

theorem load_setRefcnt :
    (heap.setRefcnt bdesc value).load other =
      if other / 4 = (bdesc + 12) / 4 then
        heap.bucketSize bdesc * 65536 + value % 65536
      else
        heap.load other := by
  have small := load_lt (bdesc + 12) heap
  unfold setRefcnt bucketSize
  exact load_save (by omega)

theorem refcnt_setRefcnt :
    (heap.setRefcnt bdesc value).refcnt bdesc = value % 65536 := by
  unfold refcnt
  rw [load_setRefcnt, if_pos rfl]
  omega

end Stores

/-! ## The free chain of one bucket -/

/-- Another free chain for one bucket. -/
def Layout.setFree (layout : Layout) (bdesc : Nat) (free : List Nat) : Layout :=
  { layout with free := Function.update layout.free bdesc free }

section Free

variable {layout : Layout} {heap after : Heap} {live : Live}
variable {size bdesc block len : Nat} {rest free : List Nat}

/-- A store that changes one bucket at most in its links and its counts. -/
theorem Represents.setFree
    (represents : Represents layout heap)
    (valid : layout.Valid heap.pages live)
    (inChain : layout.InChain size bdesc)
    (chains : after.chain = heap.chain)
    (pool : after.freeBucketDesc = heap.freeBucketDesc)
    (pages : after.pages = heap.pages)
    (memMap : after.memory.memMap = heap.memory.memMap)
    (highMemory : after.memory.highMemory = heap.memory.highMemory)
    (same : ∀ address, address / 4 ≠ (bdesc + 8) / 4 →
      address / 4 ≠ (bdesc + 12) / 4 →
        address / 4096 ≠ layout.page bdesc → after.load address = heap.load address)
    (linked : Linked after.linkOf (pointer (after.freeptr bdesc)) free)
    (count : after.refcnt bdesc + free.length = 4096 / size) :
    Represents (layout.setFree bdesc free) after := by
  have isDesc : layout.IsDesc bdesc := Or.inr ⟨size, inChain⟩
  -- Words of descriptors but the two that may have changed.
  have descWord {other k : Nat} (otherIsDesc : layout.IsDesc other)
      (within : k < 16) (small : k < 8 ∨ other ≠ bdesc) :
      after.load (other + k) = heap.load (other + k) := by
    have notBlock : (other + k) / 4096 ≠ layout.page bdesc := fun inPage =>
      valid.desc_ne_block otherIsDesc inChain within inPage rfl
    by_cases here : other = bdesc
    · have bounds := valid.desc_bounds isDesc
      subst here
      exact same _ (by omega) (by omega) notBlock
    · exact same _
        (valid.desc_ne_desc otherIsDesc isDesc here within (by decide))
        (valid.desc_ne_desc otherIsDesc isDesc here within (by decide))
        notBlock
  have next {other : Nat} (otherIsDesc : layout.IsDesc other) :
      after.nextOf other = heap.nextOf other := by
    unfold nextOf Heap.next
    rw [descWord otherIsDesc (by decide) (Or.inl (by decide))]
  refine
    { chain := fun member => ?_, pool := ?_, page := fun otherIn => ?_
      free := fun otherIn => ?_, refcnt := fun otherIn => ?_
      owns := fun member => ?_, freeInMemory := ?_ }
  · rw [chains]
    exact (represents.chain member).congr fun other inside =>
      next (Or.inr ⟨_, member, inside⟩)
  · rw [pool]
    exact represents.pool.congr fun other inside => next (Or.inl inside)
  · have word := descWord (k := 0) (Or.inr ⟨_, otherIn⟩) (by decide)
      (Or.inl (by decide))
    have page := represents.page otherIn
    unfold Heap.page at page ⊢
    exact word.trans page
  · rename_i otherSize other
    change Linked after.linkOf (pointer (after.freeptr other))
      (Function.update layout.free bdesc free other)
    by_cases here : other = bdesc
    · subst here
      rw [Function.update_self]
      exact linked
    · have word : after.freeptr other = heap.freeptr other :=
        descWord (Or.inr ⟨_, otherIn⟩) (by decide) (Or.inr here)
      rw [Function.update_of_ne here, word]
      refine (represents.free otherIn).congr fun block inside => ?_
      have inPage := block_page otherIn.1 (valid.inside otherIn block inside)
      have apart : block / 4096 ≠ layout.page bdesc := by
        rw [inPage]
        exact fun samePage => here (valid.onePage otherIn inChain samePage)
      have notDesc (k : Nat) (within : k < 16) : block / 4 ≠ (bdesc + k) / 4 :=
        (valid.desc_ne_block isDesc otherIn within inPage).symm
      unfold linkOf
      rw [same block (notDesc 8 (by decide)) (notDesc 12 (by decide)) apart]
  · rename_i otherSize other
    change after.refcnt other +
      (Function.update layout.free bdesc free other).length = 4096 / otherSize
    by_cases here : other = bdesc
    · subst here
      rw [Function.update_self, valid.oneSize otherIn inChain]
      exact count
    · have word : after.refcnt other = heap.refcnt other :=
        congrArg (· % 65536)
          (descWord (Or.inr ⟨_, otherIn⟩) (by decide) (Or.inr here))
      rw [Function.update_of_ne here, word]
      exact represents.refcnt otherIn
  · rw [pages] at member
    have owns := represents.owns member
    exact ⟨owns.above, highMemory ▸ owns.below, memMap ▸ owns.count⟩
  · have found := represents.freeInMemory
    unfold FreeInMemory at found ⊢
    rw [memMap, highMemory]
    exact found

/-! ### Taking a block -/

/-- The bucket without its first free block. -/
def takenBlock (bdesc : Nat) (heap : Heap) : Heap :=
  let heap := heap.setFreeptr bdesc (heap.load (heap.freeptr bdesc))
  heap.setRefcnt bdesc (heap.refcnt bdesc + 1)

theorem takeBlock_eq (bdesc : Nat) (heap : Heap) :
    takeBlock bdesc heap = .ret (heap.freeptr bdesc) (heap.takenBlock bdesc) :=
  rfl

theorem pointer_eq_some
    {address node : Nat}
    (points : pointer address = some node) :
    address = node ∧ node ≠ 0 := by
  unfold pointer at points
  split_ifs at points with null
  cases points
  exact ⟨rfl, null⟩

/-- Taking the first free block of a bucket. -/
theorem Layout.Valid.take
    {pages : Finset Nat}
    (valid : layout.Valid pages live)
    (inChain : layout.InChain size bdesc)
    (first : layout.free bdesc = block :: rest)
    (serves : bucketFor len = some size) :
    (layout.setFree bdesc rest).Valid pages ((block, len) :: live) := by
  have nodup := valid.freeNodup inChain
  have inside := valid.inside inChain
  rw [first] at nodup inside
  obtain ⟨notAgain, restNodup⟩ := List.nodup_cons.mp nodup
  have inPage := inside block List.mem_cons_self
  have subset {other otherSize : Nat} (otherIn : layout.InChain otherSize other) :
      (layout.setFree bdesc rest).free other ⊆ layout.free other := by
    change Function.update layout.free bdesc rest other ⊆ _
    by_cases here : other = bdesc
    · subst here
      rw [Function.update_self, first]
      exact List.subset_cons_self block rest
    · rw [Function.update_of_ne here]
      exact List.Subset.refl _
  have unused : block ∉ live.map Prod.fst := by
    intro inUse
    obtain ⟨otherSize, other, otherIn, otherPage, notFree⟩ :=
      valid.used.mp inUse
    have samePage := (block_page otherIn.1 otherPage).symm.trans
      (block_page inChain.1 inPage)
    have same := valid.onePage otherIn inChain samePage
    subst same
    rw [first] at notFree
    exact notFree List.mem_cons_self
  refine
    { valid with
      inside := fun otherIn other member =>
        valid.inside otherIn other (subset otherIn member)
      freeNodup := fun otherIn => ?_
      used := ?_
      fits := ?_
      liveNodup := ?_ }
  · rename_i otherSize other
    change (Function.update layout.free bdesc rest other).Nodup
    by_cases here : other = bdesc
    · subst here
      rw [Function.update_self]
      exact restNodup
    · rw [Function.update_of_ne here]
      exact valid.freeNodup otherIn
  · intro other
    rw [List.map_cons, List.mem_cons]
    constructor
    · rintro (rfl | inUse)
      · refine ⟨size, bdesc, inChain, inPage, ?_⟩
        change _ ∉ Function.update layout.free bdesc rest bdesc
        rw [Function.update_self]
        exact notAgain
      · obtain ⟨otherSize, another, otherIn, otherPage, notFree⟩ :=
          valid.used.mp inUse
        exact ⟨otherSize, another, otherIn, otherPage,
          fun member => notFree (subset otherIn member)⟩
    · rintro ⟨otherSize, another, otherIn, otherPage, notFree⟩
      change other ∉ Function.update layout.free bdesc rest another at notFree
      by_cases here : other = block
      · exact Or.inl here
      · refine Or.inr (valid.used.mpr
          ⟨otherSize, another, otherIn, otherPage, fun member => notFree ?_⟩)
        by_cases there : another = bdesc
        · subst there
          rw [first] at member
          rw [Function.update_self]
          exact (List.mem_cons.mp member).resolve_left here
        · rw [Function.update_of_ne there]
          exact member
  · intro other otherLen otherSize another member otherIn otherPage
    rcases List.mem_cons.mp member with same | member
    · cases same
      have samePage := (block_page otherIn.1 otherPage).symm.trans
        (block_page inChain.1 inPage)
      have same := valid.onePage otherIn inChain samePage
      subst same
      rw [valid.oneSize otherIn inChain]
      exact serves
    · exact valid.fits member otherIn otherPage
  · rw [List.map_cons]
    exact List.nodup_cons.mpr ⟨unused, valid.liveNodup⟩

theorem Represents.take
    (represents : Represents layout heap)
    (valid : layout.Valid heap.pages live)
    (inChain : layout.InChain size bdesc)
    (first : layout.free bdesc = block :: rest) :
    heap.freeptr bdesc = block ∧
      Represents (layout.setFree bdesc rest) (heap.takenBlock bdesc) := by
  have isDesc : layout.IsDesc bdesc := Or.inr ⟨size, inChain⟩
  have bounds := valid.desc_bounds isDesc
  have linked := represents.free inChain
  rw [first] at linked
  obtain ⟨points, tail⟩ := linked
  obtain ⟨same, _⟩ := pointer_eq_some points
  have small := load_lt (heap.freeptr bdesc) heap
  have inside := valid.inside inChain
  rw [first] at inside
  have count := represents.refcnt inChain
  rw [first, List.length_cons] at count
  have few := (size_bounds inChain.1).2.2.2.2.1
  have words (address : Nat) (notFree : address / 4 ≠ (bdesc + 8) / 4)
      (notCount : address / 4 ≠ (bdesc + 12) / 4) :
      (heap.takenBlock bdesc).load address = heap.load address := by
    unfold takenBlock
    dsimp only
    rw [load_setRefcnt, if_neg notCount]
    exact load_save_of_ne small notFree
  refine ⟨same, represents.setFree valid inChain rfl rfl rfl rfl rfl
    (fun address notFree notCount _ => words address notFree notCount) ?_ ?_⟩
  · have start : (heap.takenBlock bdesc).freeptr bdesc = heap.load block := by
      unfold takenBlock
      dsimp only
      rw [same] at small ⊢
      change (Heap.setRefcnt bdesc _ _).load (bdesc + 8) = _
      rw [load_setRefcnt, if_neg (by omega)]
      unfold setFreeptr
      rw [load_save small, if_pos rfl]
    rw [start]
    refine tail.congr fun other member => ?_
    have inPage := block_page inChain.1 (inside other (List.mem_cons_of_mem _ member))
    unfold linkOf
    rw [words other
      (valid.desc_ne_block isDesc inChain (by decide) inPage).symm
      (valid.desc_ne_block isDesc inChain (by decide) inPage).symm]
  · have before : (heap.setFreeptr bdesc (heap.load (heap.freeptr bdesc))).refcnt
        bdesc = heap.refcnt bdesc := by
      unfold Heap.refcnt setFreeptr
      rw [load_save_of_ne small (by omega)]
    unfold takenBlock
    dsimp only
    rw [refcnt_setRefcnt, before]
    omega

/-! ### Putting a block back -/

theorem length_blocks (size page : Nat) : (blocks size page).length = 4096 / size := by
  unfold blocks
  rw [List.length_map, List.length_range]

/-- A block is in one bucket. -/
theorem Layout.Valid.notFree
    {pages : Finset Nat}
    (valid : layout.Valid pages live)
    (inUse : block ∈ live.map Prod.fst)
    (inChain : layout.InChain size bdesc)
    (inPage : block ∈ blocks size (layout.page bdesc)) :
    block ∉ layout.free bdesc := by
  obtain ⟨otherSize, other, otherIn, otherPage, notFree⟩ := valid.used.mp inUse
  have samePage := (block_page otherIn.1 otherPage).symm.trans
    (block_page inChain.1 inPage)
  have same := valid.onePage otherIn inChain samePage
  rw [← same]
  exact notFree

/-- The free blocks and one more are not more than there are. -/
theorem Layout.Valid.length_free
    {pages : Finset Nat}
    (valid : layout.Valid pages live)
    (inUse : block ∈ live.map Prod.fst)
    (inChain : layout.InChain size bdesc)
    (inPage : block ∈ blocks size (layout.page bdesc)) :
    (layout.free bdesc).length < 4096 / size := by
  have nodup : (block :: layout.free bdesc).Nodup :=
    List.nodup_cons.mpr
      ⟨valid.notFree inUse inChain inPage, valid.freeNodup inChain⟩
  have subset : block :: layout.free bdesc ⊆ blocks size (layout.page bdesc) :=
    List.cons_subset.mpr ⟨inPage, fun other member =>
      valid.inside inChain other member⟩
  have length := (nodup.subperm subset).length_le
  rw [length_blocks] at length
  exact length

theorem Layout.Valid.put
    {pages : Finset Nat}
    (valid : layout.Valid pages live)
    (inUse : block ∈ live.map Prod.fst)
    (inChain : layout.InChain size bdesc)
    (inPage : block ∈ blocks size (layout.page bdesc)) :
    (layout.setFree bdesc (block :: layout.free bdesc)).Valid pages
      (live.filter fun used => used.1 ≠ block) := by
  have notFree := valid.notFree inUse inChain inPage
  have remaining {other : Nat} :
      other ∈ (live.filter fun used => used.1 ≠ block).map Prod.fst ↔
        other ∈ live.map Prod.fst ∧ other ≠ block := by
    simp only [List.mem_map, List.mem_filter, decide_eq_true_eq]
    constructor
    · rintro ⟨used, ⟨member, different⟩, rfl⟩
      exact ⟨⟨used, member, rfl⟩, different⟩
    · rintro ⟨⟨used, member, rfl⟩, different⟩
      exact ⟨used, ⟨member, different⟩, rfl⟩
  refine
    { valid with
      inside := fun otherIn other member => ?_
      freeNodup := fun otherIn => ?_
      used := ?_
      fits := ?_
      liveNodup := ?_ }
  · rename_i otherSize another
    change other ∈ Function.update layout.free bdesc _ another at member
    by_cases here : another = bdesc
    · subst here
      rw [Function.update_self] at member
      rcases List.mem_cons.mp member with rfl | member
      · rw [valid.oneSize otherIn inChain]
        exact inPage
      · exact valid.inside otherIn other member
    · rw [Function.update_of_ne here] at member
      exact valid.inside otherIn other member
  · rename_i otherSize another
    change (Function.update layout.free bdesc _ another).Nodup
    by_cases here : another = bdesc
    · subst here
      rw [Function.update_self]
      exact List.nodup_cons.mpr ⟨notFree, valid.freeNodup inChain⟩
    · rw [Function.update_of_ne here]
      exact valid.freeNodup otherIn
  · intro other
    rw [remaining, valid.used]
    constructor
    · rintro ⟨⟨otherSize, another, otherIn, otherPage, free⟩, different⟩
      refine ⟨otherSize, another, otherIn, otherPage, ?_⟩
      change other ∉ Function.update layout.free bdesc _ another
      by_cases here : another = bdesc
      · subst here
        rw [Function.update_self, List.mem_cons, not_or]
        exact ⟨different, free⟩
      · rw [Function.update_of_ne here]
        exact free
    · rintro ⟨otherSize, another, otherIn, otherPage, free⟩
      change other ∉ Function.update layout.free bdesc _ another at free
      by_cases here : another = bdesc
      · subst here
        rw [Function.update_self, List.mem_cons, not_or] at free
        exact ⟨⟨otherSize, another, otherIn, otherPage, free.2⟩, free.1⟩
      · rw [Function.update_of_ne here] at free
        refine ⟨⟨otherSize, another, otherIn, otherPage, free⟩, ?_⟩
        rintro rfl
        have samePage := (block_page otherIn.1 otherPage).symm.trans
          (block_page inChain.1 inPage)
        exact here (valid.onePage otherIn inChain samePage)
  · intro other otherLen otherSize another member otherIn otherPage
    exact valid.fits (List.mem_of_mem_filter member) otherIn otherPage
  · exact valid.liveNodup.sublist (List.filter_sublist.map Prod.fst)

theorem Represents.put
    (represents : Represents layout heap)
    (valid : layout.Valid heap.pages live)
    (inUse : block ∈ live.map Prod.fst)
    (inChain : layout.InChain size bdesc)
    (inPage : block ∈ blocks size (layout.page bdesc)) :
    Represents (layout.setFree bdesc (block :: layout.free bdesc))
      (heap.putBlock bdesc block) := by
  have isDesc : layout.IsDesc bdesc := Or.inr ⟨size, inChain⟩
  have bounds := valid.desc_bounds isDesc
  have pageBounds := valid.bucketPage_bounds inChain
  have place := block_bounds inChain.1 inPage
  have sizes := size_bounds inChain.1
  have number := block_page inChain.1 inPage
  have room := valid.length_free inUse inChain inPage
  have count := represents.refcnt inChain
  have notFree := valid.notFree inUse inChain inPage
  have small : heap.freeptr bdesc < 2 ^ 32 := load_lt _ _
  have blockSmall : block < 2 ^ 32 := by omega
  have notDesc (k : Nat) (within : k < 16) : block / 4 ≠ (bdesc + k) / 4 :=
    (valid.desc_ne_block isDesc inChain within number).symm
  have words (address : Nat) (notStart : address / 4 ≠ (bdesc + 8) / 4)
      (notCount : address / 4 ≠ (bdesc + 12) / 4) :
      (heap.putBlock bdesc block).load address =
        if address / 4 = block / 4 then heap.freeptr bdesc
        else heap.load address := by
    unfold putBlock
    dsimp only
    rw [load_setRefcnt, if_neg notCount]
    unfold setFreeptr
    rw [load_save_of_ne blockSmall notStart, load_save small]
  refine represents.setFree valid inChain rfl rfl rfl rfl rfl ?_ ?_ ?_
  · intro address notStart notCount elsewhere
    rw [words address notStart notCount, if_neg]
    omega
  · have start : (heap.putBlock bdesc block).freeptr bdesc = block := by
      unfold putBlock
      dsimp only
      change (Heap.setRefcnt bdesc _ _).load (bdesc + 8) = _
      rw [load_setRefcnt, if_neg (by omega)]
      unfold setFreeptr
      rw [load_save blockSmall, if_pos rfl]
    rw [start]
    refine ⟨if_neg (by omega), ?_⟩
    have link : (heap.putBlock bdesc block).linkOf block =
        pointer (heap.freeptr bdesc) := by
      unfold linkOf
      rw [words block (notDesc 8 (by decide)) (notDesc 12 (by decide)),
        if_pos rfl]
    rw [link]
    refine (represents.free inChain).congr fun other member => ?_
    have otherPage := valid.inside inChain other member
    have otherNumber := block_page inChain.1 otherPage
    have apart := blocks_apart otherPage inPage fun same =>
      notFree (same ▸ member)
    unfold linkOf
    rw [words other
      (valid.desc_ne_block isDesc inChain (by decide) otherNumber).symm
      (valid.desc_ne_block isDesc inChain (by decide) otherNumber).symm,
      if_neg (by omega)]
  · have before : ((heap.save block (heap.freeptr bdesc)).setFreeptr bdesc
        block).refcnt bdesc = heap.refcnt bdesc := by
      unfold Heap.refcnt setFreeptr
      rw [load_save_of_ne blockSmall (by omega),
        load_save_of_ne small (notDesc 12 (by decide)).symm]
    unfold putBlock
    dsimp only
    rw [refcnt_setRefcnt, before, List.length_cons]
    omega

end Free

end Heap

end HitOs
