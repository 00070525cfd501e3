import HitOs.Interleavings
import HitOs.LinkedLists

namespace HitOs

/-!
# The buffer cache

The heads of the buffers, with the pointers of `free_list` and of the hash chains,
and `getblk`, `get_hash_table`, `bread` and `brelse` as programs of tasks that sleep in
`wait_on_buffer`, on `buffer_wait`, in `sync_dev` and in `ll_rw_block`.  What drivers,
and the tasks that have a buffer, do to `b_dirt`, `b_lock` and `b_uptodate` is a step of
its own.
-/

namespace Buffers

/-- `NR_HASH` -/
def nrHash : Nat := 307

/-- The fields of `buffer_head` that are not pointers. -/
structure Buffer where
  dev : Nat
  blocknr : Nat
  count : Nat
  dirt : Bool
  lock : Bool
  uptodate : Bool
  deriving Repr, DecidableEq

/-- The buffer heads, `hash_table` and `free_list`. -/
structure Cache (n : Nat) where
  buffer : Fin n → Buffer
  chain : Links (Fin n)
  free : Links (Fin n)
  hash : Nat → Option (Fin n)
  freeList : Fin n

variable {n : Nat}

namespace Cache

def set (index : Fin n) (value : Buffer) (cache : Cache n) : Cache n :=
  { cache with buffer := Function.update cache.buffer index value }

/-- `bh->b_count++`, in 8 bits -/
def raise (index : Fin n) (cache : Cache n) : Cache n :=
  cache.set index
    { cache.buffer index with
      count := ((cache.buffer index).count + 1) % 256 }

/-- `bh->b_count--`, in 8 bits -/
def lower (index : Fin n) (cache : Cache n) : Cache n :=
  cache.set index
    { cache.buffer index with
      count := ((cache.buffer index).count + 255) % 256 }

end Cache

/-- `_hashfn` -/
def hashfn (dev block : Nat) : Nat :=
  (dev ^^^ block) % nrHash

/-- `remove_from_queues`; none for its panic. -/
def removeFromQueues (index : Fin n) (cache : Cache n) : Option (Cache n) :=
  let buffer := cache.buffer index
  let key := hashfn buffer.dev buffer.blocknr
  let chain := cache.chain.unlink index
  let hash :=
    if cache.hash key = some index then
      Function.update cache.hash key (chain.next index)
    else
      cache.hash
  match cache.free.prev index, cache.free.next index with
  | some _, some _ =>
    let free := cache.free.detach index
    let freeList :=
      if cache.freeList = index then free.next index
      else some cache.freeList
    freeList.map fun first =>
      { cache with
        chain := chain
        hash := hash
        free := free
        freeList := first }
  | _, _ => none

/-- `insert_into_queues` -/
def insertIntoQueues (index : Fin n) (cache : Cache n) : Cache n :=
  let buffer := cache.buffer index
  let key := hashfn buffer.dev buffer.blocknr
  let free := cache.free.enqueue index cache.freeList
  let alone :=
    (cache.chain.setPrev (some index) none).setNext (some index) none
  if buffer.dev = 0 then
    { cache with free := free, chain := alone }
  else
    { cache with
      free := free
      chain := alone.push index (cache.hash key)
      hash := Function.update cache.hash key (some index) }

/-- The test of `find_buffer`. -/
def Buffer.holds (dev block : Nat) (buffer : Buffer) : Bool :=
  buffer.dev == dev && buffer.blocknr == block

/-- `find_buffer` -/
def findBuffer (dev block : Nat) (cache : Cache n) : Option (Fin n) :=
  cache.chain.find (fun index => (cache.buffer index).holds dev block) n
    (cache.hash (hashfn dev block))

/-- `BADNESS` -/
def Buffer.badness (buffer : Buffer) : Nat :=
  (if buffer.dirt then 2 else 0) + (if buffer.lock then 1 else 0)

/-- The loop of `getblk` over `free_list`: the best buffer that is not in use. -/
def chooseFrom
    (cache : Cache n) :
    Nat → Fin n → Option (Fin n) → Option (Fin n)
  | 0, _, best => best
  | turns + 1, tmp, best =>
    let buffer := cache.buffer tmp
    let better :=
      match best with
      | none => true
      | some best => decide (buffer.badness < (cache.buffer best).badness)
    let next (best : Option (Fin n)) :=
      match cache.free.next tmp with
      | none => best
      | some next =>
        if next = cache.freeList then best
        else chooseFrom cache turns next best
    if buffer.count ≠ 0 then
      next best
    else if better then
      if buffer.badness = 0 then some tmp else next (some tmp)
    else
      next best

def choose (cache : Cache n) : Option (Fin n) :=
  chooseFrom cache n cache.freeList none

/-- The end of `getblk`: the buffer becomes that of the block. -/
def claim
    (dev block : Nat)
    (index : Fin n)
    (cache : Cache n) : Option (Cache n) :=
  let used :=
    cache.set index
      { cache.buffer index with count := 1, dirt := false, uptodate := false }
  (removeFromQueues index used).map fun removed =>
    insertIntoQueues index
      (removed.set index
        { removed.buffer index with dev := dev, blocknr := block })

/-- A device number other than 0; `b_dev` has 16 bits. -/
abbrev Device :=
  { dev : Nat // dev ≠ 0 ∧ dev < 65536 }

/-- Which function a task has called. -/
inductive Caller where
  | getHashTable
  | getblk
  | bread
  deriving Repr, DecidableEq

/--
Where a task sleeps: in `wait_on_buffer` of `get_hash_table` (`found`) and of `getblk`
(`chosen`), on `buffer_wait`, in `sync_dev`, in `ll_rw_block` and `wait_on_buffer` of
`bread`, and in `wait_on_buffer` of `brelse`.
-/
inductive Point (n : Nat) where
  | idle
  | found (caller : Caller) (dev : Device) (block : Nat) (index : Fin n)
  | waiting (caller : Caller) (dev : Device) (block : Nat)
  | chosen (caller : Caller) (dev : Device) (block : Nat) (index : Fin n)
  | syncing (caller : Caller) (dev : Device) (block : Nat) (index : Fin n)
  | requesting (index : Fin n)
  | reading (index : Fin n)
  | releasing (index : Fin n)
  deriving Repr, DecidableEq

/-- What an idle task calls, and which flags of a buffer a driver changes. -/
inductive Choice (n : Nat) where
  | go
  | call (caller : Caller) (dev : Device) (block : Nat)
  | brelse (index : Fin n)
  | flags (index : Fin n) (dirt lock uptodate : Bool)
  deriving Repr, DecidableEq

/-- `get_hash_table`, and `getblk` from `repeat` on, up to the next sleep. -/
def lookUp
    (caller : Caller)
    (dev : Device)
    (block : Nat)
    (cache : Cache n) : Cache n × Point n :=
  match findBuffer dev block cache with
  | some index => (cache.raise index, .found caller dev block index)
  | none =>
    match caller with
    | .getHashTable => (cache, .idle)
    | _ =>
      match choose cache with
      | none => (cache, .waiting caller dev block)
      | some index => (cache, .chosen caller dev block index)

/-- What a task does with the buffer that it gets. -/
def obtained
    (caller : Caller)
    (index : Fin n)
    (cache : Cache n) : Cache n × Point n :=
  match caller with
  | .bread =>
    if (cache.buffer index).uptodate then (cache, .idle)
    else (cache, .requesting index)
  | _ => (cache, .idle)

/-- What a task does between two sleep points; none while it waits, and for a panic. -/
def act
    (choice : Choice n)
    (cache : Cache n)
    (point : Point n) : Option (Cache n × Point n) :=
  match point with
  | .idle =>
    match choice with
    | .call caller dev block => some (lookUp caller dev block cache)
    | .brelse index => some (cache, .releasing index)
    | _ => none
  | .found caller dev block index =>
    if (cache.buffer index).lock then
      none
    else if (cache.buffer index).holds dev block then
      some (obtained caller index cache)
    else
      some (lookUp caller dev block (cache.lower index))
  | .waiting caller dev block => some (lookUp caller dev block cache)
  | .chosen caller dev block index =>
    if (cache.buffer index).lock then
      none
    else if (cache.buffer index).count ≠ 0 then
      some (lookUp caller dev block cache)
    else if (cache.buffer index).dirt then
      some (cache, .syncing caller dev block index)
    else if (findBuffer dev block cache).isSome then
      some (lookUp caller dev block cache)
    else
      (claim dev block index cache).map (obtained caller index)
  | .syncing caller dev block index => some (cache, .chosen caller dev block index)
  | .requesting index => some (cache, .reading index)
  | .reading index =>
    if (cache.buffer index).lock then
      none
    else if (cache.buffer index).uptodate then
      some (cache, .idle)
    else
      some (cache, .releasing index)
  | .releasing index =>
    if (cache.buffer index).lock || (cache.buffer index).count == 0 then
      none
    else
      some (cache.lower index, .idle)

/--
`buffer_init`, of which `b_blocknr` is what the memory has: each head is between its
neighbours in memory, and the first and the last one are neighbours, too.
-/
def bufferInit {m : Nat} (blocknr : Fin (m + 1) → Nat) : Cache (m + 1) where
  buffer index :=
    { dev := 0, blocknr := blocknr index, count := 0
      dirt := false, lock := false, uptodate := false }
  chain := { next := fun _ => none, prev := fun _ => none }
  free :=
    { next := fun index =>
        if index = Fin.last m then some 0 else some (index + 1)
      prev := fun index =>
        if index = 0 then some (Fin.last m) else some (index - 1) }
  hash _ := none
  freeList := 0

/-- The drivers are one more task. -/
def sharing {ι : Type} : Program (Option ι) (Cache n) (Point n) (Choice n)
  | some _, choice, cache, point => act choice cache point
  | none, .flags index dirt lock uptodate, cache, point =>
    some (cache.set index
      { cache.buffer index with
        dirt := dirt, lock := lock, uptodate := uptodate }, point)
  | none, _, _, _ => none

end Buffers

end HitOs
