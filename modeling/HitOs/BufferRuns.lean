import HitOs.BufferCache
import Mathlib.Data.Fintype.Card
import Mathlib.Data.List.FinRange

namespace HitOs

/-!
# The lists of the buffer cache

In every run `free_list` is a ring of all buffers, each hash chain has the buffers that
hash there, and no block has two buffers; a buffer becomes that of another block only
when it is not in use, not locked and clean.
-/

namespace Buffers

variable {n : Nat} {cache later : Cache n} {index : Fin n}
variable {dev block : Nat}

/-- The hash chain that a buffer belongs to. -/
def Cache.bucket (cache : Cache n) (index : Fin n) : Option Nat :=
  if (cache.buffer index).dev = 0 then none
  else some (hashfn (cache.buffer index).dev (cache.buffer index).blocknr)

/-- `free_list` is one ring of all buffers. -/
def Cache.FreeRing (cache : Cache n) : Prop :=
  ∃ others : List (Fin n),
    (cache.freeList :: others).Nodup ∧
    (∀ index, index ∈ cache.freeList :: others) ∧
    cache.free.Ring (cache.freeList :: others)

/-- A buffer without a device is in no chain. -/
def Cache.Loose (cache : Cache n) : Prop :=
  ∀ index, (cache.buffer index).dev = 0 →
    cache.chain.next index = none ∧ cache.chain.prev index = none

/-- No block has two buffers. -/
def Cache.Unique (cache : Cache n) : Prop :=
  ∀ first second, (cache.buffer first).dev ≠ 0 →
    (cache.buffer first).dev = (cache.buffer second).dev →
    (cache.buffer first).blocknr = (cache.buffer second).blocknr → first = second

/-- The invariant of the cache. -/
structure Cache.WellFormed (cache : Cache n) : Prop where
  freeRing :
    cache.FreeRing
  chains :
    cache.chain.Buckets cache.hash cache.bucket
  loose :
    cache.Loose
  unique :
    cache.Unique

/-- `find_buffer` finds the buffer of a block if there is one. -/
theorem findBuffer_eq_none
    (wellFormed : cache.WellFormed)
    (hasDevice : dev ≠ 0)
    (missed : findBuffer dev block cache = none) :
    ∀ index, ¬ ((cache.buffer index).dev = dev ∧
      (cache.buffer index).blocknr = block) := by
  rintro index ⟨isDev, isBlock⟩
  obtain ⟨nodes, distinct, members, first, segment⟩ :=
    wellFormed.chains (hashfn dev block)
  have enough : nodes.length ≤ n := by
    have atMost := distinct.length_le_card
    rwa [Fintype.card_fin] at atMost
  unfold findBuffer at missed
  rw [first, segment.find enough] at missed
  have inChain : index ∈ nodes := by
    refine (members index).mpr ?_
    unfold Cache.bucket
    rw [isDev, isBlock, if_neg hasDevice]
  have passes := List.find?_eq_none.mp missed index inChain
  unfold Buffer.holds at passes
  rw [isDev, isBlock, beq_self_eq_true, beq_self_eq_true] at passes
  exact passes rfl

/-- What `remove_from_queues` leaves of `free_list`. -/
inductive Cache.FreeWithout (index : Fin n) (cache : Cache n) : Prop where
  | others
      (rest : List (Fin n))
      (distinct : (cache.freeList :: rest).Nodup)
      (members : ∀ other, other ∈ cache.freeList :: rest ↔ other ≠ index)
      (ring : cache.free.Ring (cache.freeList :: rest))
  | alone
      (first : cache.freeList = index)
      (closed : cache.free.prev index = some index)
      (all : ∀ other, other = index)

/-- `free_list` after a buffer has been taken out. -/
theorem Cache.FreeRing.without
    (freeRing : cache.FreeRing)
    (index : Fin n) :
    ∃ prev next first : Fin n,
      cache.free.prev index = some prev ∧ cache.free.next index = some next ∧
      (if cache.freeList = index then
          (cache.free.detach index).next index
        else some cache.freeList) = some first ∧
      ∀ removed : Cache n,
        removed.free = cache.free.detach index →
        removed.freeList = first → removed.FreeWithout index := by
  obtain ⟨others, distinct, all, ring⟩ := freeRing
  obtain ⟨front, back, splits⟩ := List.append_of_mem (all index)
  rw [splits] at distinct ring
  have around : cache.free.Ring (index :: (back ++ front)) :=
    Links.Ring.rotate ring
  have order : (front ++ index :: back).Perm (index :: (back ++ front)) :=
    List.perm_append_comm
  have distinctAround := order.nodup_iff.mp distinct
  obtain ⟨absent, distinctRest⟩ := List.nodup_cons.mp distinctAround
  have members (other : Fin n) :
      other ∈ back ++ front ↔ other ≠ index := by
    have member := all other
    rw [splits, order.mem_iff, List.mem_cons] at member
    constructor
    · intro inRest same
      subst same
      exact absent inRest
    · exact fun different => member.resolve_left different
  have prev := around.1
  have next := around.2.1
  by_cases alone : back ++ front = []
  · rw [alone] at around next prev
    obtain ⟨noBack, noFront⟩ := List.append_eq_nil_iff.mp alone
    rw [noFront, noBack] at splits
    have isFirst : cache.freeList = index := (List.cons.inj splits).1
    obtain ⟨nextKept, prevKept⟩ := Links.Ring.detach_alone around
    refine ⟨index, index, index, prev, next, ?_, ?_⟩
    · rw [if_pos isFirst]
      exact nextKept
    · intro removed free first
      refine .alone first ?_ ?_
      · rw [free]
        exact prevKept
      · intro other
        by_contra different
        have inRest := (members other).mpr different
        rw [alone] at inRest
        cases inRest
  · have ringRest := Links.Ring.detach around distinctAround alone
    obtain ⟨before, isBefore⟩ :
        ∃ before, (index :: (back ++ front)).getLast? = some before :=
      ⟨_, List.getLast?_cons⟩
    have notBefore : cache.free.prev index ≠ some index := by
      rw [prev, List.getLast?_cons_of_ne_nil alone]
      exact fun same => absent (List.mem_of_getLast? same)
    have nextKept := Links.detach_next_self notBefore
    cases front with
    | nil =>
      rw [List.append_nil] at alone ringRest distinctRest next members
      obtain ⟨first, rest, rfl⟩ := List.exists_cons_of_ne_nil alone
      have isFirst : cache.freeList = index := (List.cons.inj splits).1
      refine ⟨before, first, first, prev.trans isBefore, next, ?_, ?_⟩
      · rw [if_pos isFirst, nextKept]
        exact next
      · intro removed free isNow
        subst isNow
        refine .others rest distinctRest members ?_
        rw [free]
        exact ringRest
    | cons first front =>
      have isFirst : cache.freeList = first := (List.cons.inj splits).1
      have different : cache.freeList ≠ index := by
        rw [isFirst]
        apply (members first).mp
        exact List.mem_append_right _ List.mem_cons_self
      have turned : (cache.free.detach index).Ring (first :: front ++ back) :=
        Links.Ring.rotate ringRest
      have orderRest : (back ++ first :: front).Perm (first :: front ++ back) :=
        List.perm_append_comm
      obtain ⟨after, isAfter⟩ :
          ∃ after, (back ++ first :: front).head?.or (some index) =
            some after := by
        cases back <;> exact ⟨_, rfl⟩
      refine ⟨before, after, cache.freeList, prev.trans isBefore,
        next.trans isAfter, if_neg different, ?_⟩
      intro removed free isNow
      rw [isFirst] at isNow
      subst isNow
      refine .others (front ++ back) (orderRest.nodup_iff.mp distinctRest) ?_ ?_
      · intro other
        rw [← members other]
        exact orderRest.symm.mem_iff
      · rw [free]
        exact turned

/-- A buffer without a device leaves the chains as they are. -/
theorem unlink_loose
    (loose : cache.Loose)
    (noDevice : (cache.buffer index).dev = 0) :
    cache.chain.unlink index = cache.chain := by
  obtain ⟨next, prev⟩ := loose index noDevice
  unfold Links.unlink
  rw [next]
  simp only [Links.setPrev_none]
  rw [prev]
  rfl

/-- The chains and the buffers without a device, after one has been taken out. -/
theorem Cache.WellFormed.unlinked
    (wellFormed : cache.WellFormed)
    (index : Fin n) :
    let key :=
      hashfn (cache.buffer index).dev (cache.buffer index).blocknr
    (cache.chain.unlink index).Buckets
        (if cache.hash key = some index then
          Function.update cache.hash key
            ((cache.chain.unlink index).next index)
        else cache.hash)
        (Function.update cache.bucket index none) ∧
      ∀ other, (cache.buffer other).dev = 0 → other ≠ index →
        (cache.chain.unlink index).next other = none ∧
          (cache.chain.unlink index).prev other = none := by
  intro key
  by_cases noDevice : (cache.buffer index).dev = 0
  · have inNone : cache.bucket index = none := if_pos noDevice
    have notFirst : cache.hash key ≠ some index := by
      intro isFirst
      obtain ⟨nodes, -, members, first, -⟩ := wellFormed.chains key
      rw [first] at isFirst
      have inChain := (members index).mp (List.mem_of_mem_head? isFirst)
      rw [inNone] at inChain
      cases inChain
    rw [unlink_loose wellFormed.loose noDevice, if_neg notFirst,
      ← inNone, Function.update_eq_self]
    exact ⟨wellFormed.chains, fun other isLoose _ =>
      wellFormed.loose other isLoose⟩
  · have inList : cache.bucket index = some key := if_neg noDevice
    refine ⟨wellFormed.chains.unlink inList, ?_⟩
    intro other isLoose _
    have inNone : cache.bucket other = none := if_pos isLoose
    have notBeside (target : Fin n)
        (beside : cache.chain.next index = some target ∨
          cache.chain.prev index = some target) :
        target ≠ other ∧ target ≠ index := by
      obtain ⟨inKey, different⟩ :=
        wellFormed.chains.neighbours inList beside
      refine ⟨?_, different⟩
      intro same
      rw [same, inNone] at inKey
      cases inKey
    obtain ⟨next, prev⟩ := wellFormed.loose other isLoose
    have kept := @Links.unlink_other _ cache.chain index _ other
      (fun same => (notBeside index (Or.inl same)).2 rfl)
      (fun same => (notBeside other (Or.inr same)).1 rfl)
      (fun same => (notBeside other (Or.inl same)).1 rfl)
    rw [kept.1, kept.2]
    exact ⟨next, prev⟩

/-- `remove_from_queues` -/
theorem removeFromQueues_spec
    (wellFormed : cache.WellFormed)
    (index : Fin n) :
    ∃ removed, removeFromQueues index cache = some removed ∧
      removed.buffer = cache.buffer ∧
      removed.FreeWithout index ∧
      removed.chain.Buckets removed.hash
        (Function.update cache.bucket index none) ∧
      ∀ other, (cache.buffer other).dev = 0 → other ≠ index →
        removed.chain.next other = none ∧ removed.chain.prev other = none := by
  obtain ⟨prev, next, first, isPrev, isNext, isFirst, without⟩ :=
    wellFormed.freeRing.without index
  obtain ⟨chains, loose⟩ := wellFormed.unlinked index
  unfold removeFromQueues
  simp only
  rw [isPrev, isNext]
  simp only
  rw [isFirst]
  exact ⟨_, rfl, rfl, without _ rfl rfl, chains, loose⟩

/-- `free_list` after the buffer has been put at its end. -/
theorem Cache.FreeWithout.freeRing
    (without : cache.FreeWithout index)
    (free : later.free = cache.free.enqueue index cache.freeList)
    (first : later.freeList = cache.freeList) :
    later.FreeRing := by
  unfold Cache.FreeRing
  rw [free, first]
  cases without with
  | others rest distinct members ring =>
    have absent : index ∉ cache.freeList :: rest := fun member =>
      (members index).mp member rfl
    refine ⟨rest ++ [index], ?_, ?_, Links.Ring.enqueue ring distinct absent⟩
    · rw [← List.cons_append, List.nodup_append]
      refine ⟨distinct, List.nodup_singleton index, ?_⟩
      intro other inRest last isLast same
      rw [List.mem_singleton.mp isLast] at same
      exact absent (same ▸ inRest)
    · intro other
      rw [← List.cons_append, List.mem_append, members other, List.mem_singleton]
      exact ne_or_eq other index
  | alone isFirst closed all =>
    rw [isFirst]
    refine ⟨[], List.nodup_singleton index, ?_, Links.Ring.enqueue_alone closed⟩
    intro other
    rw [all other]
    exact List.mem_cons_self

/-- `insert_into_queues` -/
theorem insertIntoQueues_spec
    (without : cache.FreeWithout index)
    (chains :
      cache.chain.Buckets cache.hash
        (Function.update cache.bucket index none))
    (loose :
      ∀ other, (cache.buffer other).dev = 0 → other ≠ index →
        cache.chain.next other = none ∧ cache.chain.prev other = none) :
    (insertIntoQueues index cache).buffer = cache.buffer ∧
      (insertIntoQueues index cache).FreeRing ∧
      (insertIntoQueues index cache).chain.Buckets
        (insertIntoQueues index cache).hash cache.bucket ∧
      (insertIntoQueues index cache).Loose := by
  have outside (other : Fin n) (different : other ≠ index) :
      some index ≠ some other :=
    fun same => different (Option.some.inj same).symm
  have ring : (insertIntoQueues index cache).FreeRing := by
    apply without.freeRing
    · unfold insertIntoQueues
      simp only
      split <;> rfl
    · unfold insertIntoQueues
      simp only
      split <;> rfl
  have alone :
      ((cache.chain.setPrev (some index) none).setNext (some index)
        none).Buckets cache.hash (Function.update cache.bucket index none) := by
    refine chains.frame ?_
    intro node used
    have different : node ≠ index := by
      intro same
      subst same
      rw [Function.update_self] at used
      exact used rfl
    rw [Links.setNext_other (outside node different), Links.setPrev_next,
      Links.setNext_prev, Links.setPrev_other (outside node different)]
    exact ⟨rfl, rfl⟩
  by_cases noDevice : (cache.buffer index).dev = 0
  · have inNone : cache.bucket index = none := if_pos noDevice
    rw [← inNone, Function.update_eq_self] at alone
    unfold insertIntoQueues at ring ⊢
    simp only [if_pos noDevice] at ring ⊢
    refine ⟨trivial, ring, alone, ?_⟩
    intro other isLoose
    by_cases isIndex : other = index
    · subst isIndex
      rw [Links.setNext_prev]
      exact ⟨Links.setNext_self, Links.setPrev_self⟩
    · obtain ⟨next, prev⟩ := loose other isLoose isIndex
      rw [Links.setNext_other (outside other isIndex), Links.setPrev_next,
        Links.setNext_prev, Links.setPrev_other (outside other isIndex)]
      exact ⟨next, prev⟩
  · have inList :
        cache.bucket index =
          some (hashfn (cache.buffer index).dev
            (cache.buffer index).blocknr) :=
      if_neg noDevice
    have pushed :=
      @Links.Buckets.push _ _ index _ _ _ _ _
        (hashfn (cache.buffer index).dev (cache.buffer index).blocknr) alone
        (Function.update_self ..)
    rw [Function.update_idem, ← inList, Function.update_eq_self] at pushed
    unfold insertIntoQueues at ring ⊢
    simp only [if_neg noDevice] at ring ⊢
    refine ⟨trivial, ring, pushed, ?_⟩
    intro other isLoose
    have different : other ≠ index := by
      intro same
      subst same
      exact noDevice isLoose
    have notFirst :
        cache.hash (hashfn (cache.buffer index).dev
          (cache.buffer index).blocknr) ≠ some other := by
      intro isFirst
      obtain ⟨nodes, -, members, first, -⟩ :=
        chains (hashfn (cache.buffer index).dev (cache.buffer index).blocknr)
      rw [first] at isFirst
      have inChain := (members other).mp (List.mem_of_mem_head? isFirst)
      have inNone : cache.bucket other = none := if_pos isLoose
      rw [Function.update_of_ne different, inNone] at inChain
      cases inChain
    obtain ⟨next, prev⟩ := loose other isLoose different
    unfold Links.push
    simp only
    rw [Links.setPrev_next, Links.setNext_other (outside other different),
      Links.setPrev_next, Links.setNext_other (outside other different),
      Links.setPrev_next, Links.setPrev_other notFirst, Links.setNext_prev,
      Links.setPrev_other (outside other different), Links.setNext_prev,
      Links.setPrev_other (outside other different)]
    exact ⟨next, prev⟩

@[simp] theorem set_self {value : Buffer} :
    (cache.set index value).buffer index = value :=
  Function.update_self ..

@[simp] theorem set_other
    {value : Buffer} {other : Fin n}
    (different : other ≠ index) :
    (cache.set index value).buffer other = cache.buffer other :=
  Function.update_of_ne different ..

/-- Other fields than `b_dev` and `b_blocknr` are not in the invariant. -/
theorem Cache.WellFormed.congr
    {buffer : Fin n → Buffer}
    (wellFormed : cache.WellFormed)
    (same :
      ∀ other, (buffer other).dev = (cache.buffer other).dev ∧
        (buffer other).blocknr = (cache.buffer other).blocknr) :
    Cache.WellFormed { cache with buffer := buffer } := by
  have buckets :
      Cache.bucket { cache with buffer := buffer } = cache.bucket := by
    funext other
    unfold Cache.bucket
    rw [(same other).1, (same other).2]
  constructor
  case freeRing => exact wellFormed.freeRing
  case chains =>
    rw [buckets]
    exact wellFormed.chains
  case loose =>
    intro other noDevice
    rw [(same other).1] at noDevice
    exact wellFormed.loose other noDevice
  case unique =>
    intro first second hasDevice sameDev sameBlock
    rw [(same first).1] at hasDevice sameDev
    rw [(same second).1] at sameDev
    rw [(same first).2, (same second).2] at sameBlock
    exact wellFormed.unique first second hasDevice sameDev sameBlock

theorem Cache.WellFormed.set
    {value : Buffer}
    (wellFormed : cache.WellFormed)
    (dev_eq : value.dev = (cache.buffer index).dev)
    (blocknr_eq : value.blocknr = (cache.buffer index).blocknr) :
    (cache.set index value).WellFormed := by
  apply wellFormed.congr
  intro other
  by_cases isIndex : other = index
  · subst isIndex
    rw [Function.update_self]
    exact ⟨dev_eq, blocknr_eq⟩
  · rw [Function.update_of_ne isIndex]
    exact ⟨rfl, rfl⟩

theorem Cache.WellFormed.raise
    (wellFormed : cache.WellFormed) :
    (cache.raise index).WellFormed :=
  wellFormed.set rfl rfl

theorem Cache.WellFormed.lower
    (wellFormed : cache.WellFormed) :
    (cache.lower index).WellFormed :=
  wellFormed.set rfl rfl

/-- `getblk` makes an unused buffer that of a block which has none. -/
theorem Cache.WellFormed.claim
    (wellFormed : cache.WellFormed)
    (absent :
      dev ≠ 0 →
        ∀ index, ¬ ((cache.buffer index).dev = dev ∧
          (cache.buffer index).blocknr = block))
    (index : Fin n) :
    ∃ claimed, claim dev block index cache = some claimed ∧
      claimed.WellFormed ∧
      (claimed.buffer index).dev = dev ∧
      ∀ other, other ≠ index → claimed.buffer other = cache.buffer other := by
  let used :=
    cache.set index
      { cache.buffer index with count := 1, dirt := false, uptodate := false }
  have usedFormed : used.WellFormed := wellFormed.set rfl rfl
  obtain ⟨removed, isRemoved, buffers, without, chains, loose⟩ :=
    removeFromQueues_spec usedFormed index
  let renamed :=
    removed.set index
      { removed.buffer index with dev := dev, blocknr := block }
  have otherBuffers (other : Fin n) (different : other ≠ index) :
      renamed.buffer other = cache.buffer other := by
    change (removed.set index _).buffer other = _
    rw [set_other different, buffers]
    exact set_other different
  have named :
      (renamed.buffer index).dev = dev ∧
        (renamed.buffer index).blocknr = block := by
    change ((removed.set index _).buffer index).dev = dev ∧
      ((removed.set index _).buffer index).blocknr = block
    rw [set_self]
    exact ⟨rfl, rfl⟩
  have withoutRenamed : renamed.FreeWithout index := by
    cases without with
    | others rest distinct members ring =>
      exact .others rest distinct members ring
    | alone first closed all => exact .alone first closed all
  have buckets :
      Function.update renamed.bucket index none =
        Function.update used.bucket index none := by
    funext other
    by_cases isIndex : other = index
    · subst isIndex
      rw [Function.update_self, Function.update_self]
    · rw [Function.update_of_ne isIndex, Function.update_of_ne isIndex]
      unfold Cache.bucket
      rw [otherBuffers other isIndex]
      exact congrArg (fun buffer : Buffer =>
        if buffer.dev = 0 then none
        else some (hashfn buffer.dev buffer.blocknr))
          (set_other isIndex).symm
  have chainsRenamed :
      renamed.chain.Buckets renamed.hash
        (Function.update renamed.bucket index none) := by
    rw [buckets]
    exact chains
  obtain ⟨inserted, freeRing, newChains, newLoose⟩ :=
    insertIntoQueues_spec withoutRenamed chainsRenamed (by
        intro other noDevice different
        rw [otherBuffers other different] at noDevice
        refine loose other ?_ different
        rw [set_other different]
        exact noDevice)
  have sameBucket :
      (insertIntoQueues index renamed).bucket = renamed.bucket := by
    unfold Cache.bucket
    rw [inserted]
  refine ⟨insertIntoQueues index renamed, ?_, ?_, inserted ▸ named.1, ?_⟩
  · unfold Buffers.claim
    simp only
    rw [isRemoved]
    rfl
  · refine ⟨freeRing, ?_, newLoose, ?_⟩
    · rw [sameBucket]
      exact newChains
    · intro first second firstDevice sameDev sameBlock
      rw [inserted] at firstDevice sameDev sameBlock
      by_cases isFirst : first = index
      · by_cases isSecond : second = index
        · exact isFirst.trans isSecond.symm
        · subst isFirst
          rw [named.1] at firstDevice
          rw [named.1, otherBuffers second isSecond] at sameDev
          rw [named.2, otherBuffers second isSecond] at sameBlock
          exact absurd ⟨sameDev.symm, sameBlock.symm⟩ (absent firstDevice second)
      · rw [otherBuffers first isFirst] at firstDevice sameDev sameBlock
        by_cases isSecond : second = index
        · subst isSecond
          rw [named.1] at sameDev
          rw [named.2] at sameBlock
          exact absurd ⟨sameDev, sameBlock⟩ (absent (sameDev ▸ firstDevice) first)
        · rw [otherBuffers second isSecond] at sameDev sameBlock
          exact wellFormed.unique first second firstDevice sameDev sameBlock
  · intro other different
    rw [inserted]
    exact otherBuffers other different

theorem getElem?_finRange
    {place : Nat}
    (inside : place < n) :
    (List.finRange n)[place]? = some ⟨place, inside⟩ := by
  rw [List.getElem?_eq_getElem (by rw [List.length_finRange]; exact inside),
    List.getElem_finRange]
  rfl

/-- The heads in memory are a ring. -/
theorem bufferInit_freeRing
    {m : Nat} (blocknr : Fin (m + 1) → Nat) :
    (bufferInit blocknr).FreeRing := by
  have all : (0 : Fin (m + 1)) :: (List.finRange m).map Fin.succ =
      List.finRange (m + 1) :=
    List.finRange_succ.symm
  refine ⟨(List.finRange m).map Fin.succ, ?_, ?_, ?_⟩
  · change ((0 : Fin (m + 1)) :: _).Nodup
    rw [all]
    exact List.nodup_finRange _
  · intro index
    change index ∈ (0 : Fin (m + 1)) :: _
    rw [all]
    exact List.mem_finRange index
  · change (bufferInit blocknr).free.Ring ((0 : Fin (m + 1)) :: _)
    rw [all]
    have first : (List.finRange (m + 1)).head? = some 0 := by
      rw [← all]
      rfl
    have last : (List.finRange (m + 1)).getLast? = some (Fin.last m) := by
      rw [List.finRange_succ_last, List.getLast?_concat]
    unfold Links.Ring
    rw [first, last]
    apply Links.segment_of_getElem?
    · intro place node stands
      obtain ⟨inside, is⟩ := List.getElem?_eq_some_iff.mp stands
      rw [List.length_finRange] at inside
      have isPlace : node = ⟨place, inside⟩ := by
        rw [← is, List.getElem_finRange]
        rfl
      subst isPlace
      change (if (⟨place, inside⟩ : Fin (m + 1)) = 0 then _ else _) = _
      by_cases isFirst : place = 0
      · subst isFirst
        rfl
      · have notFirst : (⟨place, inside⟩ : Fin (m + 1)) ≠ 0 :=
          fun same => isFirst (congrArg Fin.val same)
        rw [if_neg notFirst, if_neg isFirst,
          getElem?_finRange (Nat.lt_of_le_of_lt (Nat.sub_le place 1) inside)]
        congr 1
        apply Fin.ext
        rw [Fin.val_sub_one_of_ne_zero notFirst]
    · intro place node stands
      obtain ⟨inside, is⟩ := List.getElem?_eq_some_iff.mp stands
      rw [List.length_finRange] at inside
      have isPlace : node = ⟨place, inside⟩ := by
        rw [← is, List.getElem_finRange]
        rfl
      subst isPlace
      change (if (⟨place, inside⟩ : Fin (m + 1)) = Fin.last m then _ else _) = _
      by_cases isLast : place = m
      · subst isLast
        have outside : (List.finRange (place + 1))[place + 1]? = none :=
          List.getElem?_eq_none (Nat.le_of_eq List.length_finRange)
        rw [outside]
        exact if_pos rfl
      · have notLast : (⟨place, inside⟩ : Fin (m + 1)) ≠ Fin.last m :=
          fun same => isLast (congrArg Fin.val same)
        have inRange : place + 1 < m + 1 := by omega
        rw [if_neg notLast, getElem?_finRange inRange]
        congr 1
        apply Fin.ext
        rw [Fin.val_add_one_of_lt (Fin.lt_last_iff_ne_last.mpr notLast)]

theorem bufferInit_wellFormed
    {m : Nat} (blocknr : Fin (m + 1) → Nat) :
    (bufferInit blocknr).WellFormed where
  freeRing := bufferInit_freeRing blocknr
  chains key :=
    ⟨[], List.nodup_nil,
      fun _ => ⟨nofun,
        nofun⟩, rfl, trivial⟩
  loose _ _ := ⟨rfl, rfl⟩
  unique _ _ hasDevice := absurd rfl hasDevice

/-- A buffer stays that of its block. -/
def Buffer.SameBlock (buffer former : Buffer) : Prop :=
  buffer.dev = former.dev ∧ buffer.blocknr = former.blocknr

/-- A buffer that is not in use, not locked and clean. -/
def Buffer.Unused (buffer : Buffer) : Prop :=
  buffer.count = 0 ∧ buffer.lock = false ∧ buffer.dirt = false

/-- What a step does to the blocks of the buffers. -/
def Cache.Renames (later cache : Cache n) : Prop :=
  ∀ index,
    (later.buffer index).SameBlock (cache.buffer index) ∨ (cache.buffer index).Unused

theorem sameBlock_set
    {value : Buffer}
    (same : value.SameBlock (cache.buffer index))
    (other : Fin n) :
    ((cache.set index value).buffer other).SameBlock
      (cache.buffer other) := by
  by_cases isIndex : other = index
  · subst isIndex
    rw [set_self]
    exact same
  · rw [set_other isIndex]
    exact ⟨rfl, rfl⟩

theorem raise_sameBlock (other : Fin n) :
    ((cache.raise index).buffer other).SameBlock (cache.buffer other) := by
  apply sameBlock_set
  exact ⟨rfl, rfl⟩

theorem lower_sameBlock (other : Fin n) :
    ((cache.lower index).buffer other).SameBlock (cache.buffer other) := by
  apply sameBlock_set
  exact ⟨rfl, rfl⟩

variable {caller : Caller} {device : Device} {choice : Choice n}
variable {point : Point n} {next : Cache n × Point n}

theorem lookUp_wellFormed
    (wellFormed : cache.WellFormed) :
    (lookUp caller device block cache).1.WellFormed := by
  unfold lookUp
  split
  · exact wellFormed.raise
  · split
    · exact wellFormed
    · split <;> exact wellFormed

theorem lookUp_sameBlock (other : Fin n) :
    ((lookUp caller device block cache).1.buffer other).SameBlock
      (cache.buffer other) := by
  unfold lookUp
  split
  · exact raise_sameBlock other
  · split
    · exact ⟨rfl, rfl⟩
    · split <;> exact ⟨rfl, rfl⟩

theorem lookUp_renames :
    (lookUp caller device block cache).1.Renames cache :=
  fun other => Or.inl (lookUp_sameBlock other)

theorem obtained_fst :
    (obtained caller index cache).1 = cache := by
  unfold obtained
  split
  · split <;> rfl
  · rfl

/-- What every step of a task does. -/
theorem act_spec
    (wellFormed : cache.WellFormed)
    (acted : act choice cache point = some next) :
    next.1.WellFormed ∧ next.1.Renames cache := by
  have stays : cache.WellFormed ∧ cache.Renames cache :=
    ⟨wellFormed, fun _ => Or.inl ⟨rfl, rfl⟩⟩
  unfold act at acted
  cases point with
  | idle =>
    cases choice with
    | call caller device block =>
      cases acted
      exact ⟨lookUp_wellFormed wellFormed, lookUp_renames⟩
    | brelse index =>
      cases acted
      exact stays
    | go => cases acted
    | flags index dirt lock uptodate => cases acted
  | found caller device block index =>
    simp only at acted
    split at acted
    · cases acted
    · split at acted
      · cases acted
        rw [obtained_fst]
        exact stays
      · cases acted
        refine ⟨lookUp_wellFormed wellFormed.lower, ?_⟩
        intro other
        obtain ⟨devLater, blockLater⟩ :=
          @lookUp_sameBlock _ (cache.lower index) block caller device other
        have lowered :
            ((cache.lower index).buffer other).SameBlock
              (cache.buffer other) :=
          lower_sameBlock other
        exact Or.inl ⟨devLater.trans lowered.1, blockLater.trans lowered.2⟩
  | waiting caller device block =>
    cases acted
    exact ⟨lookUp_wellFormed wellFormed, lookUp_renames⟩
  | chosen caller device block index =>
    simp only at acted
    split at acted
    case isTrue => cases acted
    case isFalse unlocked =>
      split at acted
      case isTrue =>
        cases acted
        exact ⟨lookUp_wellFormed wellFormed, lookUp_renames⟩
      case isFalse unused =>
        split at acted
        case isTrue =>
          cases acted
          exact stays
        case isFalse clean =>
          split at acted
          case isTrue =>
            cases acted
            exact ⟨lookUp_wellFormed wellFormed, lookUp_renames⟩
          case isFalse missed =>
            have absent :=
              findBuffer_eq_none wellFormed device.property.1
                (Option.not_isSome_iff_eq_none.mp missed)
            obtain ⟨claimed, isClaimed, formed, -, others⟩ :=
              wellFormed.claim (fun _ => absent) index
            rw [isClaimed] at acted
            cases acted
            rw [obtained_fst]
            refine ⟨formed, ?_⟩
            intro other
            by_cases isIndex : other = index
            · subst isIndex
              exact Or.inr ⟨not_not.mp unused, eq_false_of_ne_true unlocked,
                eq_false_of_ne_true clean⟩
            · rw [others other isIndex]
              exact Or.inl ⟨rfl, rfl⟩
  | syncing caller device block index =>
    cases acted
    exact stays
  | requesting index =>
    cases acted
    exact stays
  | reading index =>
    simp only at acted
    split at acted
    · cases acted
    · split at acted <;> cases acted <;> exact stays
  | releasing index =>
    simp only at acted
    split at acted
    · cases acted
    · cases acted
      exact ⟨wellFormed.lower, fun other => Or.inl (lower_sameBlock other)⟩

variable {ι : Type} [DecidableEq ι]
variable {last : World (Option ι) (Cache n) (Point n)}
variable {labels : List (Option ι × Choice n)}

/-- What every step of a task or of a driver does. -/
theorem sharing_spec
    {label : Option ι × Choice n}
    {before after : World (Option ι) (Cache n) (Point n)}
    (wellFormed : before.shared.WellFormed)
    (stepped : sharing.Step label before after) :
    after.shared.WellFormed ∧ after.shared.Renames before.shared := by
  obtain ⟨next, acted, rfl⟩ := Program.Step.inversion stepped
  obtain ⟨agent, choice⟩ := label
  cases agent with
  | some task =>
    exact act_spec wellFormed acted
  | none =>
    cases choice with
    | flags index dirt lock uptodate =>
      cases acted
      refine ⟨wellFormed.set rfl rfl, fun other => Or.inl ?_⟩
      apply sameBlock_set
      exact ⟨rfl, rfl⟩
    | go => cases acted
    | call caller device block => cases acted
    | brelse index => cases acted

/--
From `buffer_init` on, the lists of the cache are in order in every state that is
reached, and a step makes a buffer that of another block only if it is not in use, not
locked and clean.
-/
theorem buffers_stay_wellFormed
    {m : Nat}
    {blocknr : Fin (m + 1) → Nat}
    {last : World (Option ι) (Cache (m + 1)) (Point (m + 1))}
    {labels : List (Option ι × Choice (m + 1))}
    (ran :
      Traces sharing.Step labels
        { shared := bufferInit blocknr, point := fun _ => .idle } last) :
    last.shared.WellFormed ∧
      ∀ label next, sharing.Step label last next →
        ∀ index,
          (next.shared.buffer index).SameBlock (last.shared.buffer index) ∨
            (last.shared.buffer index).Unused := by
  let inOrder (world : World (Option ι) (Cache (m + 1)) (Point (m + 1))) :=
    world.shared.WellFormed
  have wellFormed : inOrder last := by
    refine ran.invariant ?_ (bufferInit_wellFormed blocknr)
    exact fun label before after formed stepped =>
      (sharing_spec formed stepped).1
  exact ⟨wellFormed, fun label next stepped =>
    (sharing_spec wellFormed stepped).2⟩

/-- Two buffers, and two tasks that call `getblk` for one block. -/
theorem buffers_stay_wellFormed_two :
    ∃ (labels : List (Option Bool × Choice 2))
      (last : World (Option Bool) (Cache 2) (Point 2)),
      Traces sharing.Step labels
        { shared := bufferInit fun _ => 0, point := fun _ => .idle } last ∧
      (last.shared.buffer 0).blocknr = 5 ∧
      (last.shared.buffer 0).count = 2 ∧
      last.shared.WellFormed := by
  have runs :
      ∃ last : World (Option Bool) (Cache 2) (Point 2),
        sharing.run
          [(some false, .call .getblk ⟨1, by decide⟩ 5),
            (some true, .call .getblk ⟨1, by decide⟩ 5),
            (some false, .go), (some true, .go), (some true, .go)]
          { shared := bufferInit fun _ => 0, point := fun _ => .idle } = some last ∧
        (last.shared.buffer 0).blocknr = 5 ∧
        (last.shared.buffer 0).count = 2 :=
    ⟨_, rfl, rfl, rfl⟩
  obtain ⟨last, run, blocknr, count⟩ := runs
  have traces := Program.traces_of_run run
  exact ⟨_, last, traces, blocknr, count, (buffers_stay_wellFormed traces).1⟩

end Buffers

end HitOs
