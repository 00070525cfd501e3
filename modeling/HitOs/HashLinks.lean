import HitOs.BufferRuns

namespace HitOs

/-!
# Links of the buffer queues

The pointers that `remove_from_queues` and `insert_into_queues` follow to store into a
buffer head, in tasks that call `getblk`, for any device number, and `brelse`; for a
device other than 0 these are tasks of the cache (`act_eq_proceed`).  A buffer that goes
into a hash chain becomes the one before the first one of the chain, which the code takes
for granted that there is.
-/

namespace Links

variable {α : Type} [DecidableEq α]

/-- The pointers that `unlink` follows, which it tests first. -/
def unlinkFollows (node : α) (links : Links α) : List (Option α) :=
  let without := links.setPrev (links.next node) (links.prev node)
  [links.next node, without.prev node].filter Option.isSome

/-- The pointers that `detach` follows. -/
def detachFollows (node : α) (links : Links α) : List (Option α) :=
  let without := links.setNext (links.prev node) (links.next node)
  [links.prev node, without.next node]

/-- The pointers that `enqueue` follows. -/
def enqueueFollows (node head : α) (links : Links α) : List (Option α) :=
  let forward := links.setNext (some node) (some head)
  let both := forward.setPrev (some node) (forward.prev head)
  [some node, some head, both.prev head, some head]

variable {links : Links α} {before after : Option α} {nodes : List α} {node head : α}

omit [DecidableEq α] in
/-- Between nodes there are no null pointers. -/
theorem Segment.real
    (segment : links.Segment before nodes after)
    (first : before ≠ none)
    (last : after ≠ none)
    (member : node ∈ nodes) :
    links.prev node ≠ none ∧ links.next node ≠ none := by
  induction nodes generalizing before with
  | nil =>
    cases member
  | cons other nodes inductionHypothesis =>
    obtain ⟨prev, next, rest⟩ := segment
    rcases List.mem_cons.mp member with rfl | inRest
    · refine ⟨prev ▸ first, ?_⟩
      rw [next]
      cases nodes with
      | nil => exact last
      | cons => exact Option.some_ne_none _
    · exact inductionHypothesis rest (Option.some_ne_none other) inRest

omit [DecidableEq α] in
theorem Ring.real
    (ring : links.Ring nodes)
    (member : node ∈ nodes) :
    links.prev node ≠ none ∧ links.next node ≠ none := by
  have isSome := List.ne_nil_of_mem member
  refine Segment.real ring ?_ ?_ member
  · rwa [ne_eq, List.getLast?_eq_none_iff]
  · rwa [ne_eq, List.head?_eq_none_iff]

theorem unlinkFollows_real : none ∉ links.unlinkFollows node := by
  intro member
  have passes := (List.mem_filter.mp member).2
  cases passes

theorem detachFollows_real
    (real : links.prev node ≠ none ∧ links.next node ≠ none) :
    none ∉ links.detachFollows node := by
  obtain ⟨prev, next⟩ := real
  simp only [detachFollows, List.mem_cons, List.not_mem_nil, or_false, not_or]
  refine ⟨prev.symm, ?_⟩
  by_cases itself : links.prev node = some node
  · rw [itself, setNext_self]
    exact next.symm
  · rw [setNext_other itself]
    exact next.symm

theorem enqueueFollows_real
    (node : α)
    (real : links.prev head ≠ none) :
    none ∉ links.enqueueFollows node head := by
  simp only [enqueueFollows, List.mem_cons, List.not_mem_nil, or_false, not_or]
  refine ⟨(Option.some_ne_none _).symm, (Option.some_ne_none _).symm, ?_,
    (Option.some_ne_none _).symm⟩
  by_cases same : head = node
  · subst same
    rw [setPrev_self, setNext_prev]
    exact real.symm
  · rw [setPrev_other, setNext_prev]
    · exact real.symm
    · exact fun again => same (Option.some.inj again).symm

end Links

namespace Buffers

variable {n : Nat}

/-- The pointers that `remove_from_queues` follows. -/
def removeFollows (index : Fin n) (cache : Cache n) : List (Option (Fin n)) :=
  let inFree :=
    match cache.free.prev index, cache.free.next index with
    | some _, some _ => cache.free.detachFollows index
    | _, _ => []
  some index :: (cache.chain.unlinkFollows index ++ inFree)

/-- The pointers that `insert_into_queues` follows. -/
def insertFollows (index : Fin n) (cache : Cache n) : List (Option (Fin n)) :=
  let buffer := cache.buffer index
  let inChain :=
    if buffer.dev = 0 then []
    else [cache.hash (hashfn buffer.dev buffer.blocknr)]
  cache.free.enqueueFollows index cache.freeList ++ (some index :: inChain)

/-- The pointers that the end of `getblk` follows. -/
def claimFollows
    (dev block : Nat)
    (index : Fin n)
    (cache : Cache n) : List (Option (Fin n)) :=
  let used :=
    cache.set index
      { cache.buffer index with count := 1, dirt := false, uptodate := false }
  let inserting :=
    match removeFromQueues index used with
    | none => []
    | some removed =>
      insertFollows index
        (removed.set index
          { removed.buffer index with dev := dev, blocknr := block })
  removeFollows index used ++ inserting

/-! ## Tasks -/

/-- Where a task sleeps, as in `Point`. -/
inductive Spot (n : Nat) where
  | idle
  | found (dev block : Nat) (index : Fin n)
  | waiting (dev block : Nat)
  | chosen (dev block : Nat) (index : Fin n)
  | syncing (dev block : Nat) (index : Fin n)
  | releasing (index : Fin n)
  deriving Repr, DecidableEq

/-- What an idle task calls, and which flags of a buffer a driver changes. -/
inductive Call (n : Nat) where
  | go
  | getblk (dev : Fin 65536) (block : Nat)
  | brelse (index : Fin n)
  | flags (index : Fin n) (dirt lock uptodate : Bool)
  deriving Repr, DecidableEq

/-- `getblk` from `repeat` on, up to the next sleep. -/
def seek (dev block : Nat) (cache : Cache n) : Cache n × Spot n :=
  match findBuffer dev block cache with
  | some index => (cache.raise index, .found dev block index)
  | none =>
    match choose cache with
    | none => (cache, .waiting dev block)
    | some index => (cache, .chosen dev block index)

/-- `getblk` after it has waited for the buffer that it has chosen. -/
def take
    (dev block : Nat)
    (index : Fin n)
    (cache : Cache n) : Option (Cache n × Spot n) :=
  let buffer := cache.buffer index
  if buffer.lock then none
  else if buffer.count ≠ 0 then some (seek dev block cache)
  else if buffer.dirt then some (cache, .syncing dev block index)
  else if (findBuffer dev block cache).isSome then some (seek dev block cache)
  else (claim dev block index cache).map fun claimed => (claimed, .idle)

/-- What a task does between two sleep points; none while it waits, and for a panic. -/
def proceed
    (call : Call n)
    (cache : Cache n) :
    Spot n → Option (Cache n × Spot n)
  | .idle =>
    match call with
    | .getblk dev block => some (seek dev block cache)
    | .brelse index => some (cache, .releasing index)
    | _ => none
  | .found dev block index =>
    if (cache.buffer index).lock then none
    else if (cache.buffer index).holds dev block then some (cache, .idle)
    else some (seek dev block (cache.lower index))
  | .waiting dev block => some (seek dev block cache)
  | .chosen dev block index => take dev block index cache
  | .syncing dev block index => some (cache, .chosen dev block index)
  | .releasing index =>
    if (cache.buffer index).lock || (cache.buffer index).count == 0 then none
    else some (cache.lower index, .idle)

/-- The drivers are one more task. -/
def linking {ι : Type} : Program (Option ι) (Cache n) (Spot n) (Call n)
  | some _, call, cache, spot => proceed call cache spot
  | none, .flags index dirt lock uptodate, cache, spot =>
    some (cache.set index
      { cache.buffer index with
        dirt := dirt, lock := lock, uptodate := uptodate }, spot)
  | none, _, _, _ => none

/-- The device and the block for which a step takes a buffer, and the buffer. -/
def taken (cache : Cache n) : Spot n → Option (Nat × Nat × Fin n)
  | .chosen dev block index =>
    let buffer := cache.buffer index
    if buffer.lock || buffer.count != 0 || buffer.dirt ||
        (findBuffer dev block cache).isSome then none
    else some (dev, block, index)
  | _ => none

/-! ## The tasks of the cache -/

/-- Where a task of the cache sleeps in `getblk` or `brelse`. -/
def Point.spot : Point n → Option (Spot n)
  | .idle => some .idle
  | .found .getblk dev block index => some (.found dev block index)
  | .waiting .getblk dev block => some (.waiting dev block)
  | .chosen .getblk dev block index => some (.chosen dev block index)
  | .syncing .getblk dev block index => some (.syncing dev block index)
  | .releasing index => some (.releasing index)
  | _ => none

/-- What it calls of the two, and what a driver does. -/
def Choice.asCall : Choice n → Option (Call n)
  | .go => some .go
  | .call .getblk dev block => some (.getblk ⟨dev, dev.2.2⟩ block)
  | .call _ _ _ => none
  | .brelse index => some (.brelse index)
  | .flags index dirt lock uptodate => some (.flags index dirt lock uptodate)

theorem lookUp_eq_seek (dev : Device) (block : Nat) (cache : Cache n) :
    ((lookUp .getblk dev block cache).1, (lookUp .getblk dev block cache).2.spot) =
      ((seek dev block cache).1, some (seek dev block cache).2) := by
  unfold lookUp seek
  cases findBuffer dev block cache with
  | some index => rfl
  | none => cases choose cache <;> rfl

/-- A task of the cache that calls `getblk` and `brelse` does what is modelled here. -/
theorem act_eq_proceed
    {choice : Choice n} {call : Call n} {point : Point n} {spot : Spot n}
    {cache : Cache n}
    (isCall : choice.asCall = some call)
    (isSpot : point.spot = some spot) :
    (act choice cache point).map (fun next => (next.1, next.2.spot)) =
      (proceed call cache spot).map fun next => (next.1, some next.2) := by
  have sought (dev : Device) (block : Nat) (cache : Cache n) :=
    lookUp_eq_seek dev block cache
  cases point with
  | idle =>
    cases isSpot
    cases choice with
    | call caller dev block =>
      cases caller <;> cases isCall
      exact congrArg some (sought dev block cache)
    | go => cases isCall; rfl
    | brelse index => cases isCall; rfl
    | flags index dirt lock uptodate => cases isCall; rfl
  | found caller dev block index =>
    cases caller <;> cases isSpot
    simp only [act, proceed]
    split
    · rfl
    · split
      · rfl
      · exact congrArg some (sought dev block _)
  | waiting caller dev block =>
    cases caller <;> cases isSpot
    exact congrArg some (sought dev block cache)
  | chosen caller dev block index =>
    cases caller <;> cases isSpot
    simp only [act, proceed, take]
    split
    · rfl
    · split
      · exact congrArg some (sought dev block cache)
      · split
        · rfl
        · split
          · exact congrArg some (sought dev block cache)
          · cases claim dev block index cache <;> rfl
  | syncing caller dev block index =>
    cases caller <;> cases isSpot
    rfl
  | requesting index => cases isSpot
  | reading index => cases isSpot
  | releasing index =>
    cases isSpot
    simp only [act, proceed]
    split <;> rfl

/-! ## Which of them are null -/

section Follows

variable {cache : Cache n} {index other : Fin n} {dev block : Nat}

theorem Cache.FreeRing.real (freeRing : cache.FreeRing) (index : Fin n) :
    cache.free.prev index ≠ none ∧ cache.free.next index ≠ none := by
  obtain ⟨others, -, all, ring⟩ := freeRing
  exact ring.real (all index)

/-- In order, the queues from which a buffer is removed have no null pointers. -/
theorem removeFollows_real (wellFormed : cache.WellFormed) (index : Fin n) :
    none ∉ removeFollows index cache := by
  have real := wellFormed.freeRing.real index
  have inFree := Links.detachFollows_real real
  have inChain : none ∉ cache.chain.unlinkFollows index := Links.unlinkFollows_real
  simp only [removeFollows, List.mem_cons, List.mem_append, not_or]
  refine ⟨(Option.some_ne_none index).symm, inChain, ?_⟩
  split
  · exact inFree
  · exact List.not_mem_nil

/-- The list behind a buffer that has been taken out. -/
theorem Cache.FreeWithout.real (without : cache.FreeWithout index) :
    cache.free.prev cache.freeList ≠ none := by
  cases without with
  | others rest distinct members ring =>
    exact (ring.real List.mem_cons_self).1
  | alone first closed all =>
    rw [first, closed]
    exact Option.some_ne_none index

/-- Some other buffer is in the hash chain of a block. -/
def Cache.Shared (dev block : Nat) (index : Fin n) (cache : Cache n) : Prop :=
  ∃ other, other ≠ index ∧ cache.bucket other = some (hashfn dev block)

/-- A chain without the buffer that has been taken out is empty, unless it is shared. -/
theorem hash_ne_none
    {removed : Cache n}
    (key : Nat)
    (chains :
      removed.chain.Buckets removed.hash
        (Function.update cache.bucket index none)) :
    removed.hash key ≠ none ↔
      ∃ other, other ≠ index ∧ cache.bucket other = some key := by
  obtain ⟨nodes, -, members, first, -⟩ := chains key
  rw [first, ne_eq, List.head?_eq_none_iff]
  constructor
  · intro isSome
    obtain ⟨other, member⟩ := List.exists_mem_of_ne_nil nodes isSome
    have inKey := (members other).mp member
    have different : other ≠ index := by
      rintro rfl
      rw [Function.update_self] at inKey
      cases inKey
    rw [Function.update_of_ne different] at inKey
    exact ⟨other, different, inKey⟩
  · rintro ⟨other, different, inKey⟩
    rw [← Function.update_of_ne different none cache.bucket] at inKey
    exact List.ne_nil_of_mem ((members other).mpr inKey)

/-- What is inserted for a device goes in front of what is in the chain. -/
theorem insertFollows_real_iff
    (without : cache.FreeWithout index) :
    none ∉ insertFollows index cache ↔
      (cache.buffer index).dev = 0 ∨
        cache.hash (hashfn (cache.buffer index).dev
          (cache.buffer index).blocknr) ≠ none := by
  have inFree := Links.enqueueFollows_real index without.real
  have itself : none ≠ some index := (Option.some_ne_none index).symm
  simp only [insertFollows, List.mem_append, List.mem_cons, not_or, inFree, itself,
    not_false_eq_true, true_and]
  split
  · rename_i noDevice
    simp [noDevice]
  · rename_i device
    simp [device, eq_comm]

theorem bucket_set
    {value : Buffer}
    (dev_eq : value.dev = (cache.buffer index).dev)
    (blocknr_eq : value.blocknr = (cache.buffer index).blocknr) :
    (cache.set index value).bucket = cache.bucket := by
  funext other
  by_cases same : other = index
  · subst same
    simp only [Cache.bucket, set_self, dev_eq, blocknr_eq]
  · simp only [Cache.bucket, set_other same]

/-- `getblk` follows a null pointer where it begins the hash chain of a device's block. -/
theorem claimFollows_real_iff (wellFormed : cache.WellFormed) :
    none ∉ claimFollows dev block index cache ↔
      dev = 0 ∨ cache.Shared dev block index := by
  let value :=
    { cache.buffer index with count := 1, dirt := false, uptodate := false }
  have usedFormed : (cache.set index value).WellFormed := wellFormed.set rfl rfl
  obtain ⟨removed, isRemoved, -, without, chains, -⟩ :=
    removeFromQueues_spec usedFormed index
  have removing := removeFollows_real usedFormed index
  have sameBuckets : (cache.set index value).bucket = cache.bucket :=
    bucket_set rfl rfl
  rw [sameBuckets] at chains
  let named : Buffer :=
    { removed.buffer index with dev := dev, blocknr := block }
  have renamed : (removed.set index named).FreeWithout index := by
    cases without with
    | others rest distinct members ring => exact .others rest distinct members ring
    | alone first closed all => exact .alone first closed all
  have inserting := insertFollows_real_iff renamed
  rw [set_self] at inserting
  have shared := hash_ne_none (hashfn dev block) chains
  simp only [claimFollows, List.mem_append, not_or]
  rw [isRemoved]
  exact (and_iff_right removing).trans (inserting.trans (or_congr_right shared))

end Follows

/-! ## What a step does -/

section Steps

variable {cache : Cache n} {index : Fin n} {dev block : Nat}
variable {call : Call n} {spot : Spot n} {next : Cache n × Spot n}

/-- All buffers are as `buffer_init` leaves them: of no device. -/
def Cache.Bare (cache : Cache n) : Prop :=
  ∀ index, (cache.buffer index).dev = 0

theorem seek_spec
    (dev block : Nat)
    (wellFormed : cache.WellFormed) :
    (seek dev block cache).1.WellFormed ∧
      ∀ other, ((seek dev block cache).1.buffer other).dev =
        (cache.buffer other).dev := by
  unfold seek
  split
  · exact ⟨wellFormed.raise, fun other => (raise_sameBlock other).1⟩
  · split <;> exact ⟨wellFormed, fun _ => rfl⟩

/--
A step keeps the queues in order.  Unless it takes a buffer for a device, all buffers
stay of no device.
-/
def Keeps (cache : Cache n) (spot : Spot n) (next : Cache n × Spot n) : Prop :=
  next.1.WellFormed ∧
    ((∀ dev block index, taken cache spot = some (dev, block, index) → dev = 0) →
      cache.Bare → next.1.Bare)

theorem Keeps.of_same
    (wellFormed : next.1.WellFormed)
    (same : ∀ other, (next.1.buffer other).dev = (cache.buffer other).dev) :
    Keeps cache spot next :=
  ⟨wellFormed, fun _ bare other => (same other).trans (bare other)⟩

theorem Keeps.seek (wellFormed : cache.WellFormed) :
    Keeps cache spot (seek dev block cache) :=
  .of_same (seek_spec dev block wellFormed).1 (seek_spec dev block wellFormed).2

theorem take_keeps
    (wellFormed : cache.WellFormed)
    (took : take dev block index cache = some next) :
    Keeps cache (.chosen dev block index) next := by
  unfold take at took
  simp only at took
  split at took
  case isTrue => cases took
  case isFalse unlocked =>
    split at took
    case isTrue =>
      cases took
      exact .seek wellFormed
    case isFalse unused =>
      split at took
      case isTrue =>
        cases took
        exact .of_same wellFormed fun _ => rfl
      case isFalse clean =>
        split at took
        case isTrue =>
          cases took
          exact .seek wellFormed
        case isFalse missed =>
          obtain ⟨claimed, isClaimed, formed, device, others⟩ :=
            wellFormed.claim
              (fun hasDevice => findBuffer_eq_none wellFormed hasDevice
                (Option.not_isSome_iff_eq_none.mp missed)) index
          rw [isClaimed] at took
          cases took
          refine ⟨formed, fun loose bare other => ?_⟩
          have noDevice : dev = 0 := by
            apply loose dev block index
            simp [taken, unlocked, not_not.mp unused, clean, missed]
          by_cases same : other = index
          · rw [same]
            exact device.trans noDevice
          · rw [others other same]
            exact bare other

/-- What every step of a task does. -/
theorem proceed_keeps
    (wellFormed : cache.WellFormed)
    (proceeded : proceed call cache spot = some next) :
    Keeps cache spot next := by
  cases spot with
  | idle =>
    cases call with
    | getblk dev block =>
      cases proceeded
      exact .seek wellFormed
    | brelse index =>
      cases proceeded
      exact .of_same wellFormed fun _ => rfl
    | go => cases proceeded
    | flags index dirt lock uptodate => cases proceeded
  | found dev block index =>
    simp only [proceed] at proceeded
    split at proceeded
    · cases proceeded
    · split at proceeded
      · cases proceeded
        exact .of_same wellFormed fun _ => rfl
      · cases proceeded
        have lowered : (cache.lower index).WellFormed := wellFormed.lower
        have sought := seek_spec dev block lowered
        exact .of_same sought.1 fun other =>
          (sought.2 other).trans (lower_sameBlock other).1
  | waiting dev block =>
    cases proceeded
    exact .seek wellFormed
  | chosen dev block index =>
    exact take_keeps wellFormed proceeded
  | syncing dev block index =>
    cases proceeded
    exact .of_same wellFormed fun _ => rfl
  | releasing index =>
    simp only [proceed] at proceeded
    split at proceeded
    · cases proceeded
    · cases proceeded
      exact .of_same wellFormed.lower fun other => (lower_sameBlock other).1

end Steps

/-! ## Runs -/

section Runs

variable {ι : Type}

/-- The pointers that a step follows in the queues. -/
def follows
    (label : Option ι × Call n)
    (world : World (Option ι) (Cache n) (Spot n)) : List (Option (Fin n)) :=
  match taken world.shared (world.point label.1) with
  | none => []
  | some (dev, block, index) => claimFollows dev block index world.shared

/-- A step follows no null pointer. -/
def Real
    (label : Option ι × Call n)
    (world : World (Option ι) (Cache n) (Spot n)) : Prop :=
  none ∉ follows label world

/-- A buffer that is taken for a device goes where another one already is. -/
def Joins
    (label : Option ι × Call n)
    (world : World (Option ι) (Cache n) (Spot n)) : Prop :=
  ∀ dev block index,
    taken world.shared (world.point label.1) = some (dev, block, index) →
      dev = 0 ∨ world.shared.Shared dev block index

/-- No buffer is taken for a device. -/
def TakesNone
    (label : Option ι × Call n)
    (world : World (Option ι) (Cache n) (Spot n)) : Prop :=
  ∀ dev block index,
    taken world.shared (world.point label.1) = some (dev, block, index) → dev = 0

instance (label : Option ι × Call n) (world : World (Option ι) (Cache n) (Spot n)) :
    Decidable (TakesNone label world) :=
  decidable_of_iff (∀ place ∈ taken world.shared (world.point label.1), place.1 = 0)
    ⟨fun all dev block index took => all (dev, block, index) took,
      fun isNone place took => isNone place.1 place.2.1 place.2.2 took⟩

variable {label : Option ι × Call n}
variable {world after : World (Option ι) (Cache n) (Spot n)}

theorem real_iff_joins (wellFormed : world.shared.WellFormed) :
    Real label world ↔ Joins label world := by
  unfold Real Joins follows
  cases took : taken world.shared (world.point label.1) with
  | none =>
    simp
  | some place =>
    obtain ⟨dev, block, index⟩ := place
    simp only [claimFollows_real_iff wellFormed, Option.some_inj]
    constructor
    · rintro joins _ _ _ ⟨⟩
      exact joins
    · exact fun joins => joins dev block index rfl

/-- As long as no buffer is of a device, all hash chains are empty. -/
theorem joins_iff_takesNone (bare : world.shared.Bare) :
    Joins label world ↔ TakesNone label world := by
  refine forall_congr' fun dev => forall_congr' fun block =>
    forall_congr' fun index => imp_congr_right fun _ => ?_
  refine or_iff_left ?_
  rintro ⟨other, -, inChain⟩
  rw [Cache.bucket, if_pos (bare other)] at inChain
  cases inChain

variable [DecidableEq ι]

theorem linking_keeps
    (wellFormed : world.shared.WellFormed)
    (stepped : linking.Step label world after) :
    after.shared.WellFormed ∧
      (TakesNone label world → world.shared.Bare → after.shared.Bare) := by
  obtain ⟨next, moved, rfl⟩ := Program.Step.inversion stepped
  obtain ⟨agent, call⟩ := label
  cases agent with
  | some task =>
    exact proceed_keeps wellFormed moved
  | none =>
    cases call with
    | flags index dirt lock uptodate =>
      cases moved
      refine ⟨wellFormed.set rfl rfl, fun _ bare other => ?_⟩
      let value :=
        { world.shared.buffer index with
          dirt := dirt, lock := lock, uptodate := uptodate }
      have block : value.SameBlock (world.shared.buffer index) := ⟨rfl, rfl⟩
      exact (sameBlock_set block other).1.trans (bare other)
    | go => cases moved
    | getblk dev block => cases moved
    | brelse index => cases moved

/-- `buffer_init`, with all tasks idle. -/
def booted {m : Nat} (blocknr : Fin (m + 1) → Nat) :
    World (Option ι) (Cache (m + 1)) (Spot (m + 1)) :=
  { shared := bufferInit blocknr, point := fun _ => .idle }

/--
In every state that is reached a step follows real pointers only if and only if the buffer
that it takes, if any, goes into a chain with another one or into none.  From `buffer_init`
on this is so along a run if and only if no buffer is ever taken for a device.
-/
theorem links_real_iff
    {m : Nat}
    {blocknr : Fin (m + 1) → Nat}
    {last : World (Option ι) (Cache (m + 1)) (Spot (m + 1))}
    {labels : List (Option ι × Call (m + 1))}
    (ran : Traces linking.Step labels (booted blocknr) last) :
    (∀ label, Real label last ↔ Joins label last) ∧
      (Traces (linking.StepIf Real) labels (booted blocknr) last ↔
        Traces (linking.StepIf TakesNone) labels (booted blocknr) last) := by
  let inOrder (world : World (Option ι) (Cache (m + 1)) (Spot (m + 1))) :=
    world.shared.WellFormed
  let unused (world : World (Option ι) (Cache (m + 1)) (Spot (m + 1))) :=
    world.shared.WellFormed ∧ world.shared.Bare
  have initially : unused (booted blocknr) :=
    ⟨bufferInit_wellFormed blocknr, fun _ => rfl⟩
  have wellFormed : inOrder last := by
    refine ran.invariant ?_ initially.1
    exact fun label before after formed stepped => (linking_keeps formed stepped).1
  have same label world (holds : unused world) :
      Real label world ↔ TakesNone label world :=
    (real_iff_joins holds.1).trans (joins_iff_takesNone holds.2)
  have kept label world after (holds : unused world)
      (stepped : linking.Step label world after)
      (takesNone : TakesNone label world) : unused after := by
    obtain ⟨formed, bare⟩ := linking_keeps holds.1 stepped
    exact ⟨formed, bare takesNone holds.2⟩
  refine ⟨fun label => real_iff_joins wellFormed, fun run => ?_, fun run => ?_⟩
  · refine run.mono_of_invariant unused ?_ ?_ initially
    · rintro label before after holds ⟨stepped, real⟩
      exact kept label before after holds stepped ((same label before holds).mp real)
    · rintro label before after holds ⟨stepped, real⟩
      exact ⟨stepped, (same label before holds).mp real⟩
  · refine run.mono_of_invariant unused ?_ ?_ initially
    · rintro label before after holds ⟨stepped, takesNone⟩
      exact kept label before after holds stepped takesNone
    · rintro label before after holds ⟨stepped, takesNone⟩
      exact ⟨stepped, (same label before holds).mpr takesNone⟩

/-- One task gets a block of no device. -/
theorem links_real_iff_noDevice :
    ∃ last, Traces (linking.StepIf Real)
      [(some (), .getblk 0 5), (some (), .go)] (booted fun _ : Fin 2 => 0) last := by
  have runs :
      ∃ last, linking.runIf (fun label world => decide (TakesNone label world))
        [(some (), .getblk 0 5), (some (), .go)] (booted fun _ : Fin 2 => 0) =
          some last :=
    ⟨_, rfl⟩
  obtain ⟨last, run⟩ := runs
  have traces : Traces (linking.StepIf TakesNone) _ _ last :=
    Program.traces_of_runIf (fun _ _ => of_decide_eq_true) run
  have ran := traces.mono fun _ _ _ stepped => stepped.1
  exact ⟨last, (links_real_iff ran).2.mpr traces⟩

/-- The first block of a device that a task gets begins a chain. -/
theorem not_always_real :
    ∃ middle last,
      Traces linking.Step [(some (), .getblk 1 5)] (booted fun _ : Fin 2 => 0) middle ∧
      linking.Step (some (), .go) middle last ∧
      ¬ Real (some (), .go) middle := by
  have runs :
      ∃ middle last,
        linking.run [(some (), .getblk 1 5)] (booted fun _ : Fin 2 => 0) = some middle ∧
        linking.step (some (), .go) middle = some last ∧
        none ∈ follows (some (), .go) middle :=
    ⟨_, _, rfl, rfl, by decide⟩
  obtain ⟨middle, last, run, stepped, null⟩ := runs
  exact ⟨middle, last, Program.traces_of_run run, stepped, fun real => real null⟩

end Runs

end Buffers

end HitOs
