import HitOs.BufferChoices
import HitOs.Evictions
import HitOs.ReturnConditions

namespace HitOs

/-!
# Requests and waiting

What the calls below `sync_inodes` do to the device, the block, the count and the dirty
bit of the buffers.  When a request is completed is not in this view of them.
-/

namespace Evictions

open Routine
open Buffers (Buffer Cache)
open Inodes (Index nrInode)

/-- What of a buffer no driver changes. -/
structure Head where
  dev : Nat
  blocknr : Nat
  count : Nat
  dirt : Bool
  deriving Repr, DecidableEq

/-- A device and a block on it. -/
abbrev Place :=
  Nat × Nat

def Head.place (head : Head) : Place :=
  (head.dev, head.blocknr)

/-- The block of an inode, on a device with a super block. -/
def Inode.home (devices : Devices) (inode : Inode) : Option Place :=
  (devices.super inode.dev).map fun first =>
    (inode.dev, inode.block first)

/-- The view of a buffer. -/
def headOf (buffer : Buffer) : Head where
  dev := buffer.dev
  blocknr := buffer.blocknr
  count := buffer.count
  dirt := buffer.dirt

abbrev Heads (n : Nat) :=
  Fin n → Head

def Kernel.heads {n : Nat} (kernel : Kernel n) : Heads n :=
  fun bh => headOf (kernel.buffer bh)

variable {n : Nat} {devices : Devices} {done : Nat → Fin n → Bool}
variable {wanted : Set Place} {heads : Heads n} {inodes : Index → Inode} {kernel : Kernel n}
variable {bh other : Fin n} {dev block : Nat}

/--
A kernel with a view, where of some blocks, those of inodes among them, only those are
up to date that can be read.
-/
structure Shows
    (devices : Devices)
    (wanted : Set Place)
    (heads : Heads n)
    (inodes : Index → Inode)
    (kernel : Kernel n) : Prop where
  heads :
    kernel.heads = heads
  table :
    kernel.inode = inodes
  wellFormed :
    kernel.cache.WellFormed
  readable :
    ∀ bh, (headOf (kernel.buffer bh)).place ∈ wanted →
      (kernel.buffer bh).uptodate = true →
        devices.readable (kernel.buffer bh).dev
          (kernel.buffer bh).blocknr = true
  wants :
    ∀ index place, (inodes index).home devices = some place → place ∈ wanted

theorem Shows.head
    (shows : Shows devices wanted heads inodes kernel)
    (bh : Fin n) :
    headOf (kernel.buffer bh) = heads bh := by
  rw [← shows.heads]
  rfl

theorem buffer_setBuffer_self
    {value : Buffer} :
    (kernel.setBuffer bh value).buffer bh = value :=
  Function.update_self ..

theorem heads_setBuffer
    {value : Buffer} :
    (kernel.setBuffer bh value).heads =
      Function.update kernel.heads bh (headOf value) := by
  funext other
  change headOf (Function.update kernel.cache.buffer bh value other) = _
  by_cases this : other = bh
  · rw [this, Function.update_self, Function.update_self]
  · rw [Function.update_of_ne this, Function.update_of_ne this]
    rfl

/-- A store into a buffer that keeps its block and knows nothing new. -/
theorem Shows.setBuffer
    (shows : Shows devices wanted heads inodes kernel)
    (value : Buffer)
    (dev : value.dev = (heads bh).dev)
    (blocknr : value.blocknr = (heads bh).blocknr)
    (readable :
      (headOf value).place ∈ wanted → value.uptodate = true →
        devices.readable value.dev value.blocknr = true) :
    Shows devices wanted (Function.update heads bh (headOf value)) inodes
      (kernel.setBuffer bh value) where
  heads := by
    rw [heads_setBuffer, shows.heads]
  table := shows.table
  wants := shows.wants
  wellFormed :=
    shows.wellFormed.set
      (dev.trans (congrArg Head.dev (shows.head bh)).symm)
      (blocknr.trans (congrArg Head.blocknr (shows.head bh)).symm)
  readable other := by
    change (headOf (Function.update kernel.cache.buffer bh value other)).place
          ∈ wanted →
        (Function.update kernel.cache.buffer bh value other).uptodate = true →
      devices.readable (Function.update kernel.cache.buffer bh value other).dev
        (Function.update kernel.cache.buffer bh value other).blocknr = true
    by_cases this : other = bh
    · rw [this, Function.update_self]
      exact readable
    · rw [Function.update_of_ne this]
      exact shows.readable other

/-- The same, where the view stays. -/
theorem Shows.setBuffer_same
    {value : Buffer}
    (shows : Shows devices wanted heads inodes kernel)
    (same : headOf value = heads bh)
    (readable :
      (headOf value).place ∈ wanted → value.uptodate = true →
        devices.readable value.dev value.blocknr = true) :
    Shows devices wanted heads inodes (kernel.setBuffer bh value) := by
  have set := shows.setBuffer value (congrArg Head.dev same)
    (congrArg Head.blocknr same) readable
  rwa [same, Function.update_eq_self] at set

theorem Shows.setCount
    {count : Nat}
    (shows : Shows devices wanted heads inodes kernel) :
    Shows devices wanted
      (Function.update heads bh { heads bh with count := count }) inodes
      (kernel.setCount bh count) := by
  rw [← shows.head bh]
  exact shows.setBuffer { kernel.buffer bh with count := count }
    (congrArg Head.dev (shows.head bh))
    (congrArg Head.blocknr (shows.head bh)) (shows.readable bh)

theorem Shows.setDirt
    {dirt : Bool}
    (shows : Shows devices wanted heads inodes kernel) :
    Shows devices wanted
      (Function.update heads bh { heads bh with dirt := dirt }) inodes
      (kernel.setDirt bh dirt) := by
  rw [← shows.head bh]
  exact shows.setBuffer { kernel.buffer bh with dirt := dirt }
    (congrArg Head.dev (shows.head bh))
    (congrArg Head.blocknr (shows.head bh)) (shows.readable bh)

theorem Shows.setLock
    {lock : Bool}
    (shows : Shows devices wanted heads inodes kernel) :
    Shows devices wanted heads inodes (kernel.setLock bh lock) := by
  exact shows.setBuffer_same (shows.head bh) (shows.readable bh)

/-! ## Waiting -/

theorem buffer_interrupts :
    (interrupts devices done kernel).buffer bh =
      if (kernel.buffer bh).lock && done kernel.time bh then
        devices.endRequest (kernel.buffer bh)
      else
        kernel.buffer bh :=
  rfl

theorem headOf_interrupts :
    headOf ((interrupts devices done kernel).buffer bh) =
      headOf (kernel.buffer bh) := by
  rw [buffer_interrupts]
  split <;> rfl

theorem Shows.interrupts
    (shows : Shows devices wanted heads inodes kernel) :
    Shows devices wanted heads inodes (interrupts devices done kernel) where
  heads := by
    rw [← shows.heads]
    funext bh
    exact headOf_interrupts
  table := shows.table
  wants := shows.wants
  wellFormed := by
    apply shows.wellFormed.congr
    intro bh
    exact ⟨congrArg Head.dev headOf_interrupts, congrArg Head.blocknr headOf_interrupts⟩
  readable bh := by
    rw [buffer_interrupts]
    split
    · exact fun _ => id
    · exact shows.readable bh

/-- Either a request is on its way, or its result is there. -/
def Settled
    (devices : Devices)
    (bh : Fin n)
    (kernel : Kernel n) : Prop :=
  (kernel.buffer bh).lock = true ∨
    (kernel.buffer bh).uptodate =
      devices.readable (kernel.buffer bh).dev (kernel.buffer bh).blocknr

theorem Settled.interrupts
    (settled : Settled devices bh kernel) :
    Settled devices bh (interrupts devices done kernel) := by
  unfold Settled
  rw [buffer_interrupts]
  split
  · exact Or.inr rfl
  · exact settled

/-- `wait_on_buffer` returns, with the result of a request. -/
theorem satisfies_waitOnBuffer
    (shows : Shows devices wanted heads inodes kernel) :
    (waitOnBuffer devices done bh).Satisfies kernel
      (fun _ after =>
        Shows devices wanted heads inodes after ∧
          (Settled devices bh kernel →
            (after.buffer bh).uptodate =
              devices.readable (heads bh).dev (heads bh).blocknr))
      (fun _ => False) := by
  unfold waitOnBuffer
  rw [satisfies_update]
  simp only
  have later :
      Shows devices wanted heads inodes
        (Evictions.interrupts devices done kernel) :=
    shows.interrupts
  by_cases locked : ((Evictions.interrupts devices done kernel).buffer bh).lock
  · rw [if_pos locked]
    refine ⟨later.setBuffer_same (later.head bh) (fun _ => id), ?_⟩
    intro _
    rw [buffer_setBuffer_self, ← later.head bh]
    rfl
  · rw [if_neg locked]
    refine ⟨later, ?_⟩
    intro settled
    rw [← later.head bh]
    exact settled.interrupts.resolve_left locked

/-! ## Requests -/

theorem buffer_setLock_self
    {lock : Bool} :
    (kernel.setLock bh lock).buffer bh = { kernel.buffer bh with lock := lock } :=
  Function.update_self ..

theorem buffer_setDirt_self
    {dirt : Bool} :
    (kernel.setDirt bh dirt).buffer bh = { kernel.buffer bh with dirt := dirt } :=
  Function.update_self ..

theorem update_dirt
    {dirt : Bool}
    (same : (heads bh).dirt = dirt) :
    Function.update heads bh { heads bh with dirt := dirt } = heads := by
  rw [← same]
  exact Function.update_eq_self ..

/-- `WRITE`: the buffer is clean then, whether the request is done or not. -/
theorem satisfies_makeRequest_write
    (shows : Shows devices wanted heads inodes kernel) :
    (makeRequest devices done .write bh).Satisfies kernel
      (fun _ after =>
        Shows devices wanted
          (Function.update heads bh { heads bh with dirt := false })
          inodes after)
      (fun _ => False) := by
  unfold makeRequest
  refine (satisfies_waitOnBuffer shows).andThen ?_
  rintro _ middle ⟨shown, _⟩
  rw [satisfies_bind, satisfies_update, satisfies_bind, satisfies_read,
    buffer_setLock_self]
  have sameDirt := congrArg Head.dirt (shown.head bh)
  cases dirty : (middle.buffer bh).dirt with
  | false =>
    rw [update_dirt (sameDirt.symm.trans dirty)]
    exact shown.setLock.setLock
  | true =>
    exact shown.setLock.interrupts.setDirt

/-- `READ`: the request is on its way, or its result is there. -/
theorem satisfies_makeRequest_read
    (shows : Shows devices wanted heads inodes kernel)
    (wants : (heads bh).place ∈ wanted) :
    (makeRequest devices done .read bh).Satisfies kernel
      (fun _ after =>
        (∃ dirt,
          Shows devices wanted
            (Function.update heads bh { heads bh with dirt := dirt })
            inodes after) ∧
          Settled devices bh after)
      (fun _ => False) := by
  unfold makeRequest
  refine (satisfies_waitOnBuffer shows).andThen ?_
  rintro _ middle ⟨shown, _⟩
  rw [satisfies_bind, satisfies_update, satisfies_bind, satisfies_read,
    buffer_setLock_self]
  cases uptodate : (middle.buffer bh).uptodate with
  | true =>
    refine ⟨⟨(heads bh).dirt, ?_⟩, Or.inr ?_⟩
    · rw [update_dirt rfl]
      exact shown.setLock.setLock
    · rw [buffer_setLock_self, buffer_setLock_self]
      rw [← shown.head bh] at wants
      exact uptodate.trans (shown.readable bh wants uptodate).symm
  | false =>
    refine ⟨⟨false, shown.setLock.interrupts.setDirt⟩, ?_⟩
    have settled : Settled devices bh (middle.setLock bh true) := by
      unfold Settled
      rw [buffer_setLock_self]
      exact Or.inl rfl
    unfold Settled
    rw [buffer_setDirt_self]
    exact settled.interrupts

/-- A buffer that is written is clean if its device has a driver. -/
theorem satisfies_llRwBlock_write
    (shows : Shows devices wanted heads inodes kernel) :
    (llRwBlock devices done .write bh).Satisfies kernel
      (fun _ after =>
        Shows devices wanted
          (if devices.drives (heads bh).dev then
            Function.update heads bh { heads bh with dirt := false }
          else heads)
          inodes after)
      (fun _ => False) := by
  unfold llRwBlock
  rw [satisfies_bind, satisfies_read,
    show (kernel.buffer bh).dev = (heads bh).dev from
      congrArg Head.dev (shows.head bh)]
  by_cases driven : devices.drives (heads bh).dev = true
  · rw [driven, Bool.not_true, if_neg Bool.false_ne_true, if_pos rfl]
    exact satisfies_makeRequest_write shows
  · rw [Bool.not_eq_true] at driven
    rw [driven, Bool.not_false, if_pos rfl, if_neg Bool.false_ne_true]
    exact shows

/-- Without a driver nothing comes into a buffer. -/
theorem satisfies_llRwBlock_read
    (shows : Shows devices wanted heads inodes kernel)
    (wants : (heads bh).place ∈ wanted)
    (empty : (kernel.buffer bh).uptodate = false) :
    (llRwBlock devices done .read bh).Satisfies kernel
      (fun _ after =>
        (∃ dirt,
          Shows devices wanted
            (Function.update heads bh { heads bh with dirt := dirt })
            inodes after) ∧
          Settled devices bh after)
      (fun _ => False) := by
  unfold llRwBlock
  rw [satisfies_bind, satisfies_read]
  by_cases driven : devices.drives (kernel.buffer bh).dev = true
  · rw [driven, Bool.not_true, if_neg Bool.false_ne_true]
    exact satisfies_makeRequest_read shows wants
  · rw [Bool.not_eq_true] at driven
    rw [driven, Bool.not_false, if_pos rfl]
    refine ⟨⟨(heads bh).dirt, ?_⟩, Or.inr ?_⟩
    · rw [update_dirt rfl]
      exact shows
    · unfold Devices.readable
      rw [empty, driven]
      rfl

theorem satisfies_brelse
    (shows : Shows devices wanted heads inodes kernel)
    (used : (heads bh).count ≠ 0) :
    (brelse devices done bh).Satisfies kernel
      (fun _ after =>
        Shows devices wanted
          (Function.update heads bh
            { heads bh with count := (heads bh).count - 1 })
          inodes after)
      (fun _ => False) := by
  unfold brelse
  refine (satisfies_waitOnBuffer shows).andThen ?_
  rintro _ middle ⟨shown, _⟩
  have count := congrArg Head.count (shown.head bh)
  change (middle.buffer bh).count = (heads bh).count at count
  rw [satisfies_bind, satisfies_read, count, if_neg used, satisfies_update]
  unfold Kernel.lower
  rw [count]
  exact shown.setCount

/-! ## The loops of `sync_dev` over the buffers -/

/-- The dirty buffers of a device are written, if it has a driver. -/
def written
    (devices : Devices)
    (dev : Nat)
    (bhs : List (Fin n))
    (heads : Heads n) : Heads n :=
  fun bh =>
    if bh ∈ bhs ∧ (heads bh).dev = dev ∧ devices.drives dev = true then
      { heads bh with dirt := false }
    else
      heads bh

theorem written_cons
    {rest : List (Fin n)} :
    written devices dev (bh :: rest) heads =
      written devices dev rest
        (if (heads bh).dev = dev ∧ devices.drives dev = true then
          Function.update heads bh { heads bh with dirt := false }
        else heads) := by
  funext other
  have inRest (this : other ≠ bh) : other ∈ bh :: rest ↔ other ∈ rest := by
    rw [List.mem_cons, or_iff_right this]
  unfold written
  by_cases own : (heads bh).dev = dev ∧ devices.drives dev = true
  · rw [if_pos own]
    by_cases this : other = bh
    · subst this
      rw [Function.update_self, if_pos ⟨List.mem_cons_self, own⟩]
      split <;> rfl
    · rw [Function.update_of_ne this]
      exact if_congr (and_congr_left' (inRest this)) rfl rfl
  · rw [if_neg own]
    by_cases this : other = bh
    · subst this
      rw [if_neg (fun both => own both.2), if_neg (fun both => own both.2)]
    · exact if_congr (and_congr_left' (inRest this)) rfl rfl

theorem satisfies_syncBuffers
    {bhs : List (Fin n)}
    (shows : Shows devices wanted heads inodes kernel) :
    (syncBuffers devices done dev bhs).Satisfies kernel
      (fun _ after =>
        Shows devices wanted (written devices dev bhs heads) inodes after)
      (fun _ => False) := by
  induction bhs generalizing heads kernel with
  | nil =>
    have same : written devices dev [] heads = heads := by
      funext bh
      exact if_neg (fun both => List.not_mem_nil both.1)
    rw [same]
    exact shows
  | cons bh rest inductionHypothesis =>
    rw [syncBuffers, satisfies_bind, satisfies_read, written_cons,
      show (kernel.buffer bh).dev = (heads bh).dev from
        congrArg Head.dev (shows.head bh)]
    by_cases own : (heads bh).dev = dev
    swap
    · rw [if_pos own, if_neg (fun both => own both.1)]
      exact inductionHypothesis shows
    rw [if_neg (not_not.mpr own)]
    refine (satisfies_waitOnBuffer shows).andThen ?_
    rintro _ middle ⟨shown, _⟩
    rw [satisfies_bind, satisfies_read,
      show (middle.buffer bh).dev = (heads bh).dev from
        congrArg Head.dev (shown.head bh),
      show (middle.buffer bh).dirt = (heads bh).dirt from
        congrArg Head.dirt (shown.head bh),
      own, beq_self_eq_true, Bool.true_and]
    cases dirty : (heads bh).dirt with
    | false =>
      rw [if_neg Bool.false_ne_true, update_dirt dirty, ite_self]
      exact inductionHypothesis shown
    | true =>
      rw [if_pos rfl]
      refine (satisfies_llRwBlock_write shown).andThen ?_
      intro _ after shown'
      rw [own] at shown'
      have same :
          (if dev = dev ∧ devices.drives dev = true then
              Function.update heads bh { heads bh with dirt := false }
            else heads) =
            if devices.drives dev = true then
              Function.update heads bh { heads bh with dirt := false }
            else heads :=
        if_congr (and_iff_right rfl) rfl rfl
      rw [same]
      exact inductionHypothesis shown'

end Evictions

end HitOs
