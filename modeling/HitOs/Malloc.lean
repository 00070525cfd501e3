import HitOs.Chains
import HitOs.PageRoutines

namespace HitOs

/-!
# The kernel's allocator

`lib/malloc.c`, over the memory from which `get_free_page` hands out pages.  The
bucket descriptors and the links of the free blocks are words of that memory.  The
searches make so many `turns` and give their caller up when these are not enough:
a call returns if it does so for every number of turns from some number on.
-/

namespace Memory

/-- The word at an address. -/
def load (address : Nat) (memory : Memory) : Nat :=
  (memory.ram (address / 4096) (address % 4096 / 4)).toNat

/-- A store to the word at an address. -/
def save (address value : Nat) (memory : Memory) : Memory :=
  store (address / 4096) (address % 4096 / 4) (BitVec.ofNat 32 value) memory

theorem load_save
    {address other value : Nat} {memory : Memory}
    (small : value < 2 ^ 32) :
    (memory.save address value).load other =
      if other / 4 = address / 4 then value else memory.load other := by
  unfold load save
  rw [ram_store]
  by_cases same : other / 4 = address / 4
  · rw [if_pos ⟨by omega, by omega⟩, if_pos same, BitVec.toNat_ofNat,
      Nat.mod_eq_of_lt small]
  · rw [if_neg (by omega), if_neg same]

end Memory

/-- The memory and the variables of the allocator. -/
structure Heap where
  memory : Memory
  /-- `chain` in `bucket_dir`, by the size of the blocks. -/
  chain : Nat → Nat
  freeBucketDesc : Nat
  /--
  The pages that `get_free_page` has handed out to the allocator and that it has
  not given back.  The source has no such variable, and nothing reads it.
  -/
  pages : Finset Nat

namespace Heap

open Routine

/-- The sizes in `bucket_dir`. -/
def bucketDir : List Nat :=
  [16, 32, 64, 128, 256, 512, 1024, 2048, 4096]

/-! ## Descriptors -/

def load (address : Nat) (heap : Heap) : Nat :=
  heap.memory.load address

def save (address value : Nat) (heap : Heap) : Heap :=
  { heap with memory := heap.memory.save address value }

/-- `bdesc->page` -/
def page (bdesc : Nat) (heap : Heap) : Nat :=
  heap.load bdesc

/-- `bdesc->next` -/
def next (bdesc : Nat) (heap : Heap) : Nat :=
  heap.load (bdesc + 4)

/-- `bdesc->freeptr` -/
def freeptr (bdesc : Nat) (heap : Heap) : Nat :=
  heap.load (bdesc + 8)

/-- `bdesc->refcnt` -/
def refcnt (bdesc : Nat) (heap : Heap) : Nat :=
  heap.load (bdesc + 12) % 65536

/-- `bdesc->bucket_size` -/
def bucketSize (bdesc : Nat) (heap : Heap) : Nat :=
  heap.load (bdesc + 12) / 65536

def setPage (bdesc value : Nat) : Heap → Heap :=
  save bdesc value

def setNext (bdesc value : Nat) : Heap → Heap :=
  save (bdesc + 4) value

def setFreeptr (bdesc value : Nat) : Heap → Heap :=
  save (bdesc + 8) value

def setRefcnt (bdesc value : Nat) (heap : Heap) : Heap :=
  heap.save (bdesc + 12) (heap.bucketSize bdesc * 65536 + value % 65536)

def setBucketSize (bdesc value : Nat) (heap : Heap) : Heap :=
  heap.save (bdesc + 12) (value % 65536 * 65536 + heap.refcnt bdesc)

def setChain (size value : Nat) (heap : Heap) : Heap :=
  { heap with chain := Function.update heap.chain size value }

def setFreeBucketDesc (value : Nat) (heap : Heap) : Heap :=
  { heap with freeBucketDesc := value }

/-! ## Pages -/

variable {α : Type}

def onMemory (routine : Routine Memory α) : Routine Heap α :=
  zoom Heap.memory (fun memory heap => { heap with memory := memory }) routine

/-- `get_free_page`, with the address of the page. -/
def getFreePage : Routine Heap Nat := do
  let page ← onMemory Memory.getFreePage
  if page = 0 then
    pure 0
  else
    update fun heap => { heap with pages := insert page heap.pages }
    pure (page * 4096)

/-- `free_page` -/
def freePage (address : Nat) : Routine Heap Unit := do
  onMemory (Memory.freePage (address / 4096))
  update fun heap =>
    { heap with pages := heap.pages.erase (address / 4096) }

/-! ## `malloc` -/

/-- Pointers to what comes next, for so many pieces of a page. -/
@[irreducible] def linkUp (offset step : Nat) : Nat → Nat → Heap → Heap
  | 0, _, heap => heap
  | i + 1, piece, heap =>
    linkUp offset step i (piece + step)
      (heap.save (piece + offset) (piece + step))

/-- `init_bucket_desc` -/
def initBucketDesc : Routine Heap Unit := do
  let first ← getFreePage
  if first = 0 then
    Routine.panic "Out of memory in init_bucket_desc()"
  else
    update (linkUp 4 16 255 first)
    update fun heap => heap.setNext (first + 255 * 16) heap.freeBucketDesc
    update (setFreeBucketDesc first)

/-- The search for a bucket with free space. -/
def searchFree : Nat → Nat → Routine Heap Nat
  | 0, _ => abandon
  | turns + 1, bdesc => do
      let heap ← read
      if bdesc = 0 then
        pure 0
      else if heap.freeptr bdesc ≠ 0 then
        pure bdesc
      else
        searchFree turns (heap.next bdesc)

/-- The free objects of a new bucket, with the end of their chain. -/
def linkBlocks (size cp : Nat) (heap : Heap) : Heap :=
  let last := 4096 / size - 1
  (linkUp 0 size last cp heap).save (cp + last * size) 0

/-- A free descriptor is needed. -/
def needDesc : Routine Heap Unit := do
  let heap ← read
  if heap.freeBucketDesc = 0 then
    initBucketDesc
  else
    pure ()

/-- The descriptor of a bucket is taken from the free ones. -/
def reserved (size : Nat) (heap : Heap) : Heap :=
  let bdesc := heap.freeBucketDesc
  let heap := heap.setFreeBucketDesc (heap.next bdesc)
  let heap := heap.setRefcnt bdesc 0
  heap.setBucketSize bdesc size

/-- A bucket with a page of its own, in front of the others. -/
def newBucket (size : Nat) : Routine Heap Nat := do
  needDesc
  let heap ← read
  let bdesc := heap.freeBucketDesc
  update (reserved size)
  let cp ← getFreePage
  update (setFreeptr bdesc cp)
  update (setPage bdesc cp)
  if cp = 0 then
    Routine.panic "Out of memory in kernel malloc()"
  else
    update (linkBlocks size cp)
    update fun heap => heap.setNext bdesc (heap.chain size)
    update (setChain size bdesc)
    pure bdesc

/-- The first free object of a bucket, and the bucket without it. -/
def takeBlock (bdesc : Nat) : Routine Heap Nat := do
  let heap ← read
  let retval := heap.freeptr bdesc
  update (setFreeptr bdesc (heap.load retval))
  update fun heap => heap.setRefcnt bdesc (heap.refcnt bdesc + 1)
  pure retval

/-- `malloc` -/
def malloc (len turns : Nat) : Routine Heap Nat :=
  match bucketDir.find? fun size => len ≤ size with
  | none => Routine.panic "malloc: bad arg"
  | some size => do
      let heap ← read
      let found ← searchFree turns (heap.chain size)
      if found = 0 then
        let bdesc ← newBucket size
        takeBlock bdesc
      else
        takeBlock found

/-! ## `free_s` -/

/-- The inner search of `free_s`, with `bdesc` and `prev`. -/
def searchPage (page : Nat) : Nat → Nat → Nat → Routine Heap (Option (Nat × Nat))
  | 0, _, _ => abandon
  | turns + 1, bdesc, prev => do
      let heap ← read
      if bdesc = 0 then
        pure none
      else if heap.page bdesc = page then
        pure (some (bdesc, prev))
      else
        searchPage page turns (heap.next bdesc) bdesc

/-- The outer search of `free_s`, with the size of the bucket too. -/
def searchDirs (page turns : Nat) (size : Int) :
    List Nat → Routine Heap (Option (Nat × Nat × Nat))
  | [] => pure none
  | bdir :: rest => do
      if (bdir : Int) < size then
        searchDirs page turns size rest
      else
        let heap ← read
        match ← searchPage page turns (heap.chain bdir) 0 with
        | some found => pure (some (bdir, found))
        | none => searchDirs page turns size rest

/-- The search for what is before a descriptor. -/
def searchPrev (bdesc : Nat) : Nat → Nat → Routine Heap Nat
  | 0, _ => abandon
  | turns + 1, prev => do
      let heap ← read
      if prev = 0 then
        pure 0
      else if heap.next prev = bdesc then
        pure prev
      else
        searchPrev bdesc turns (heap.next prev)

/-- A descriptor is taken out of its chain. -/
def unlink (bdir bdesc prev : Nat) : Routine Heap Unit := do
  let heap ← read
  if prev ≠ 0 then
    update (setNext prev (heap.next bdesc))
  else if heap.chain bdir ≠ bdesc then
    Routine.panic "malloc bucket chains corrupted"
  else
    update (setChain bdir (heap.next bdesc))

/-- Its page is freed, and the descriptor too. -/
def giveBack (bdesc : Nat) : Routine Heap Unit := do
  let heap ← read
  freePage (heap.page bdesc)
  update fun heap => heap.setNext bdesc heap.freeBucketDesc
  update (setFreeBucketDesc bdesc)

/-- A bucket without objects in use is given back. -/
def dropBucket (bdir bdesc prev turns : Nat) : Routine Heap Unit := do
  let heap ← read
  let prev ←
    if (prev ≠ 0 ∧ heap.next prev ≠ bdesc) ∨
        (prev = 0 ∧ heap.chain bdir ≠ bdesc) then
      searchPrev bdesc turns (heap.chain bdir)
    else
      pure prev
  unlink bdir bdesc prev
  giveBack bdesc

/-- An object is put back to the others of its bucket. -/
def putBlock (bdesc obj : Nat) (heap : Heap) : Heap :=
  let heap := heap.save obj (heap.freeptr bdesc)
  let heap := heap.setFreeptr bdesc obj
  heap.setRefcnt bdesc (heap.refcnt bdesc + 65535)

/-- `free_s` -/
def freeS (obj : Nat) (size : Int) (turns : Nat) : Routine Heap Unit := do
  let page := obj / 4096 * 4096
  match ← searchDirs page turns size bucketDir with
  | none => Routine.panic "Bad address passed to kernel free_s()"
  | some (bdir, bdesc, prev) =>
    update (putBlock bdesc obj)
    let heap ← read
    if heap.refcnt bdesc = 0 then
      dropBucket bdir bdesc prev turns

/-- The call returns, whatever number of turns beyond some number it makes. -/
def Returns
    (routine : Nat → Routine Heap α)
    (heap : Heap)
    (value : α)
    (after : Heap) : Prop :=
  ∃ bound, ∀ turns, bound ≤ turns → routine turns heap = .ret value after

end Heap

end HitOs
