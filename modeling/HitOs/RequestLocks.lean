import HitOs.RequestLists

namespace HitOs

/-!
# Request slots and buffer locks

A locked buffer has one owner: a request in a list, a task that sleeps until there is
an empty slot, or the turn of `make_request` that is running.  What a turn and the
interrupts in it do to the slots, the lists and the locks follows from that.
-/

namespace Requests

open Routine

variable {ι β : Type}

/-- Who has a buffer locked. -/
inductive Owner (ι : Type) where
  | slot (slot : Nat)
  | task (task : ι)
  /-- The turn that is running. -/
  | hand
  deriving DecidableEq

/-- Who had the buffer of an owner, when the turn has passed its own on to an heir. -/
def Owner.former [DecidableEq ι] (owner heir : Owner ι) : Owner ι :=
  if owner = heir then .hand else owner

theorem Owner.eq_of_former
    [DecidableEq ι]
    {heir owner other : Owner ι}
    (same : owner.former heir = other.former heir)
    (notHand : owner ≠ .hand)
    (notHand' : other ≠ .hand) :
    owner = other := by
  unfold former at same
  split at same
  · split at same
    · rename_i first second
      rw [first, second]
    · exact absurd same.symm notHand'
  · split at same
    · exact absurd same notHand
    · exact same

/-- `hand` is the buffer that the turn of `running` has locked. -/
def Owns
    (lists : Nat → List Nat)
    (running : Option ι)
    (hand : Option β)
    (state : State ι β) : Owner ι → β → Prop
  | .slot slot, bh => (∃ major, slot ∈ lists major) ∧ (state.request slot).bh = some bh
  | .task task, bh =>
    running ≠ some task ∧ ∃ major rw, state.point task = .searching major rw bh
  | .hand, bh => hand = some bh

/-- The invariant; `busy` is a slot that is filled and not yet in a list. -/
structure Held
    (lists : Nat → List Nat)
    (running : Option ι)
    (hand : Option β)
    (busy : Option Nat)
    (state : State ι β) : Prop where
  listed : Lists lists state
  apart : ∀ slot, busy = some slot → ∀ major, slot ∉ lists major
  occupied :
    ∀ slot, slot < nrRequest →
      (0 ≤ (state.request slot).dev ↔ (∃ major, slot ∈ lists major) ∨ busy = some slot)
  locked :
    ∀ owner bh, Owns lists running hand state owner bh → (state.buffer bh).lock = true
  alone :
    ∀ owner other bh,
      Owns lists running hand state owner bh →
      Owns lists running hand state other bh → owner = other
  reads :
    ∀ slot, slot < nrRequest → nrRequest * 2 / 3 ≤ slot →
      0 ≤ (state.request slot).dev → (state.request slot).cmd = Rw.read

/-- Requests stay in their lists with their buffers, until they have ended. -/
structure Follows
    (lists : Nat → List Nat)
    (state : State ι β)
    (lists' : Nat → List Nat)
    (after : State ι β) : Prop where
  stay :
    ∃ completed, after.completed = state.completed ++ completed ∧
      ∀ major, ∀ slot ∈ lists major,
        slot ∈ completed ∨
          slot ∈ lists' major ∧ (after.request slot).bh = (state.request slot).bh

namespace Follows

variable {lists lists' lists'' : Nat → List Nat}
variable {state middle after : State ι β}

theorem trans
    (first : Follows lists state lists' middle)
    (second : Follows lists' middle lists'' after) :
    Follows lists state lists'' after := by
  obtain ⟨completed, grown, stay⟩ := first.stay
  obtain ⟨completed', grown', stay'⟩ := second.stay
  refine ⟨completed ++ completed', ?_, fun major slot member => ?_⟩
  · rw [grown', grown, List.append_assoc]
  · rcases stay major slot member with gone | ⟨here, same⟩
    · exact Or.inl (List.mem_append_left _ gone)
    · rcases stay' major slot here with gone | ⟨there, same'⟩
      · exact Or.inl (List.mem_append_right _ gone)
      · exact Or.inr ⟨there, same'.trans same⟩

/-- Nothing ends. -/
theorem of_subset
    (completed : after.completed = state.completed)
    (stay :
      ∀ major, ∀ slot ∈ lists major,
        slot ∈ lists' major ∧ (after.request slot).bh = (state.request slot).bh) :
    Follows lists state lists' after :=
  ⟨[], by rw [completed, List.append_nil],
    fun major slot member => Or.inr (stay major slot member)⟩

/-- Neither the lists nor the requests change. -/
theorem of_same
    (completed : after.completed = state.completed)
    (request : after.request = state.request) :
    Follows lists state lists after :=
  of_subset completed fun _ _ member => ⟨member, by rw [request]⟩

end Follows

namespace Held

variable {lists : Nat → List Nat} {running : Option ι} {hand : Option β}
variable {busy : Option Nat} {state after : State ι β}

/-- An empty slot is in no list. -/
theorem unlisted
    {slot : Nat}
    (held : Held lists running hand busy state)
    (empty : (state.request slot).dev < 0)
    (major : Nat) :
    slot ∉ lists major := by
  intro member
  have below := held.listed.below major slot member
  have filled := (held.occupied slot below).mpr (Or.inl ⟨major, member⟩)
  omega

/-- Owners that are left or have passed a buffer on, and buffers that stay locked. -/
theorem locks_of_owns
    {lists' : Nat → List Nat} {running' : Option ι} {hand' : Option β}
    (held : Held lists running hand busy state)
    (former : Owner ι → Owner ι)
    (owns :
      ∀ owner bh, Owns lists' running' hand' after owner bh →
        Owns lists running hand state (former owner) bh)
    (different :
      ∀ owner other bh,
        Owns lists' running' hand' after owner bh →
        Owns lists' running' hand' after other bh →
        former owner = former other → owner = other)
    (lock :
      ∀ owner bh, Owns lists' running' hand' after owner bh →
        (state.buffer bh).lock = true → (after.buffer bh).lock = true) :
    (∀ owner bh, Owns lists' running' hand' after owner bh →
      (after.buffer bh).lock = true) ∧
    ∀ owner other bh,
      Owns lists' running' hand' after owner bh →
      Owns lists' running' hand' after other bh → owner = other := by
  refine ⟨fun owner bh mine => ?_, fun owner other bh mine theirs => ?_⟩
  · exact lock owner bh mine
      (held.locked (former owner) bh (owns owner bh mine))
  · exact different owner other bh mine theirs
      (held.alone (former owner) (former other) bh (owns owner bh mine)
        (owns other bh theirs))

end Held

/-! ## Interrupts -/

section Interrupts

variable [DecidableEq β]
variable {lists : Nat → List Nat} {running : Option ι} {hand : Option β}
variable {busy : Option Nat} {state after : State ι β}

/-- What an interrupt leaves of the slots that are in no list. -/
def Spares
    (lists : Nat → List Nat)
    (state : State ι β)
    (lists' : Nat → List Nat)
    (after : State ι β) : Prop :=
  ∀ slot, (∀ major, slot ∉ lists major) →
    (∀ major, slot ∉ lists' major) ∧ after.request slot = state.request slot

theorem Held.ended
    {major slot : Nat} {rest : List Nat} {uptodate : Bool}
    (held : Held lists running hand busy state)
    (shape : lists major = slot :: rest) :
    Held (Function.update lists major rest) running hand busy
        (Requests.ended major slot uptodate state) ∧
      Follows lists state (Function.update lists major rest)
        (Requests.ended major slot uptodate state) ∧
      Spares lists state (Function.update lists major rest)
        (Requests.ended major slot uptodate state) := by
  have inOld : slot ∈ lists major := by
    rw [shape]
    exact List.mem_cons_self
  have below := held.listed.below major slot inOld
  have notAgain : slot ∉ rest := by
    have nodup := held.listed.nodup major
    rw [shape] at nodup
    exact (List.nodup_cons.mp nodup).1
  have members (other slot' : Nat) :
      slot' ∈ Function.update lists major rest other ↔
        slot' ∈ lists other ∧ slot' ≠ slot := by
    by_cases same : other = major
    · subst same
      rw [Function.update_self, shape, List.mem_cons]
      constructor
      · exact fun member =>
          ⟨Or.inr member, fun same => notAgain (same ▸ member)⟩
      · exact fun member => member.1.resolve_left member.2
    · rw [Function.update_of_ne same]
      refine ⟨fun member => ⟨member, ?_⟩, fun member => member.1⟩
      rintro rfl
      exact same (held.listed.apart other major slot' member inOld)
  have others (slot' : Nat) (different : slot' ≠ slot) :
      (Requests.ended major slot uptodate state).request slot' =
        state.request slot' := by
    rw [ended_request, Function.update_of_ne different]
  have buffers (slot' : Nat) :
      ((Requests.ended major slot uptodate state).request slot').bh =
        (state.request slot').bh := by
    by_cases same : slot' = slot
    · rw [same, ended_request, Function.update_self]
    · rw [others slot' same]
  have notBusy : busy ≠ some slot :=
    fun same => held.apart slot same major inOld
  have owns (owner : Owner ι) (bh : β)
      (mine :
        Owns (Function.update lists major rest) running hand
          (Requests.ended major slot uptodate state) owner bh) :
      Owns lists running hand state owner bh ∧ owner ≠ .slot slot := by
    cases owner with
    | slot slot' =>
      obtain ⟨⟨other, member⟩, buffer⟩ := mine
      obtain ⟨member, different⟩ := (members other slot').mp member
      rw [buffers] at buffer
      exact ⟨⟨⟨other, member⟩, buffer⟩, fun same => different (Owner.slot.inj same)⟩
    | task task =>
      obtain ⟨other, major', command, point⟩ := mine
      rw [ended_point] at point
      exact ⟨⟨other, major', command, point⟩, nofun⟩
    | hand =>
      exact ⟨mine, nofun⟩
  have locks := held.locks_of_owns id
    (fun owner bh mine => (owns owner bh mine).1) (fun _ _ _ _ _ same => same)
    (fun owner bh mine locked => by
      refine (ended_lock bh).mpr ⟨locked, fun buffer => ?_⟩
      have slotOwns : Owns lists running hand state (.slot slot) bh :=
        ⟨⟨major, inOld⟩, buffer⟩
      exact (owns owner bh mine).2
        (held.alone owner (.slot slot) bh (owns owner bh mine).1 slotOwns))
  refine ⟨⟨held.listed.ended shape, ?_, ?_, locks.1, locks.2, ?_⟩, ?_, ?_⟩
  · intro slot' isBusy other member
    exact held.apart slot' isBusy other ((members other slot').mp member).1
  · intro slot' inTable
    by_cases same : slot' = slot
    · subst same
      rw [ended_request, Function.update_self]
      refine iff_of_false (by decide : ¬ (0 : Int) ≤ -1) ?_
      rintro (⟨other, member⟩ | isBusy)
      · exact ((members other slot').mp member).2 rfl
      · exact notBusy isBusy
    · rw [others slot' same]
      refine (held.occupied slot' inTable).trans (or_congr_left ?_)
      exact exists_congr fun other =>
        ⟨fun member => (members other slot').mpr ⟨member, same⟩,
          fun member => ((members other slot').mp member).1⟩
  · intro slot' inTable reserved filled
    by_cases same : slot' = slot
    · subst same
      rw [ended_request, Function.update_self] at filled
      exact absurd filled (by decide : ¬ (0 : Int) ≤ -1)
    · rw [others slot' same] at filled ⊢
      exact held.reads slot' inTable reserved filled
  · refine ⟨[slot], ended_completed, fun other slot' member => ?_⟩
    by_cases same : slot' = slot
    · exact Or.inl (List.mem_singleton.mpr same)
    · exact Or.inr ⟨(members other slot').mpr ⟨member, same⟩, buffers slot'⟩
  · intro slot' nowhere
    refine ⟨fun other member => ?_, ?_⟩
    · exact nowhere other ((members other slot').mp member).1
    · exact others slot' fun same => nowhere major (same ▸ inOld)

theorem Held.endRequest
    (major : Nat)
    (uptodate : Bool)
    (held : Held lists running hand busy state) :
    ∃ lists' after,
      Requests.endRequest major uptodate state = .ret () after ∧
      Held lists' running hand busy after ∧
      Follows lists state lists' after ∧
      Spares lists state lists' after ∧
      after.point = state.point := by
  have linked := held.listed.linked major
  cases shape : lists major with
  | nil =>
    rw [shape] at linked
    exact ⟨lists, state, endRequest_of_none linked, held,
      .of_same rfl rfl, fun _ nowhere => ⟨nowhere, rfl⟩, rfl⟩
  | cons slot rest =>
    rw [shape] at linked
    obtain ⟨held, follows, spares⟩ := held.ended shape
    exact ⟨_, _, endRequest_of_some linked.1, held, follows, spares, ended_point⟩

theorem Held.interrupts
    (arrivals : List (Nat × Bool))
    (held : Held lists running hand busy state) :
    ∃ lists' after,
      Requests.interrupts arrivals state = .ret () after ∧
      Held lists' running hand busy after ∧
      Follows lists state lists' after ∧
      Spares lists state lists' after ∧
      after.point = state.point := by
  induction arrivals generalizing lists state with
  | nil =>
    exact ⟨lists, state, rfl, held, .of_same rfl rfl,
      fun _ nowhere => ⟨nowhere, rfl⟩, rfl⟩
  | cons arrival rest inductionHypothesis =>
    obtain ⟨lists', middle, ran, held', follows, spares, point⟩ :=
      held.endRequest arrival.1 arrival.2
    obtain ⟨lists'', after, ran', held'', follows', spares', point'⟩ :=
      inductionHypothesis held'
    refine ⟨lists'', after, ?_, held'', follows.trans follows', ?_, point'.trans point⟩
    · unfold Requests.interrupts
      rw [bind_of_ret ran]
      exact ran'
    · intro slot nowhere
      obtain ⟨nowhere', same⟩ := spares slot nowhere
      obtain ⟨nowhere'', same'⟩ := spares' slot nowhere'
      exact ⟨nowhere'', same'.trans same⟩

end Interrupts

/-! ## Parts of a turn -/

section Parts

variable [DecidableEq ι] [DecidableEq β]
variable {lists : Nat → List Nat} {running : Option ι} {hand : Option β}
variable {busy : Option Nat} {state after : State ι β}
variable {req command : Nat} {bh : β} {current : ι}

/-- The search finds an empty slot below its limit. -/
theorem Held.findRequest
    (arrivals : Nat → List (Nat × Bool))
    (limit : Nat)
    (held : Held lists running hand busy state) :
    ∃ lists' found after,
      Requests.findRequest arrivals limit state = .ret found after ∧
      Held lists' running hand busy after ∧
      Follows lists state lists' after ∧
      after.point = state.point ∧
      ∀ req, found = some req → req < limit ∧ (after.request req).dev < 0 := by
  induction limit generalizing lists state with
  | zero =>
    exact ⟨lists, none, state, rfl, held, .of_same rfl rfl, rfl, nofun⟩
  | succ req inductionHypothesis =>
    obtain ⟨lists', middle, ran, held', follows, _, point⟩ :=
      held.interrupts (arrivals req)
    unfold Requests.findRequest
    rw [bind_of_ret ran]
    change ∃ lists' found after,
      (if (middle.request req).dev < 0 then _ else _ :
        Routine (State ι β) (Option Nat)) middle = _ ∧ _
    by_cases empty : (middle.request req).dev < 0
    · rw [if_pos empty]
      refine ⟨lists', some req, middle, rfl, held', follows, point, ?_⟩
      rintro _ ⟨⟩
      exact ⟨Nat.lt_succ_self req, empty⟩
    · rw [if_neg empty]
      obtain ⟨lists'', found, after, ran', held'', follows', point', result⟩ :=
        inductionHypothesis held'
      refine ⟨lists'', found, after, ran', held'', follows.trans follows',
        point'.trans point, fun slot same => ?_⟩
      obtain ⟨below, empty⟩ := result slot same
      exact ⟨Nat.lt_succ_of_lt below, empty⟩

/-- An empty slot is filled, and is in no list yet. -/
theorem Held.fill
    (bh : β)
    (held : Held lists running hand none state)
    (inTable : req < nrRequest)
    (empty : (state.request req).dev < 0)
    (allowed : command = Rw.read ∨ req < nrRequest * 2 / 3) :
    Held lists running hand (some req) (fill req command bh state) ∧
      Follows lists state lists (fill req command bh state) := by
  have nowhere := held.unlisted empty
  have others (major slot : Nat) (member : slot ∈ lists major) :
      (Requests.fill req command bh state).request slot = state.request slot :=
    State.setRequest_of_ne fun same => nowhere major (same ▸ member)
  have owns (owner : Owner ι) (bh' : β)
      (mine :
        Owns lists running hand (Requests.fill req command bh state) owner bh') :
      Owns lists running hand state owner bh' := by
    cases owner with
    | slot slot =>
      obtain ⟨⟨major, member⟩, buffer⟩ := mine
      rw [others major slot member] at buffer
      exact ⟨⟨major, member⟩, buffer⟩
    | task task => exact mine
    | hand => exact mine
  have locks := held.locks_of_owns id owns (fun _ _ _ _ _ same => same)
    (fun _ _ _ locked => locked)
  refine ⟨⟨held.listed.setRequest nowhere, ?_, ?_, locks.1, locks.2, ?_⟩, ?_⟩
  · rintro slot ⟨⟩
    exact nowhere
  · intro slot below
    unfold Requests.fill
    by_cases same : slot = req
    · subst same
      rw [State.setRequest_self]
      exact iff_of_true (Int.natCast_nonneg _) (Or.inr rfl)
    · rw [State.setRequest_of_ne same]
      refine (held.occupied slot below).trans (or_congr_right ?_)
      exact iff_of_false nofun fun again => same (Option.some.inj again).symm
  · intro slot below reserved
    unfold Requests.fill
    by_cases same : slot = req
    · subst same
      rw [State.setRequest_self]
      exact fun _ => allowed.resolve_right (Nat.not_lt.mpr reserved)
    · rw [State.setRequest_of_ne same]
      exact held.reads slot below reserved
  · exact .of_subset rfl fun major slot member =>
      ⟨member, by rw [others major slot member]⟩

/-- The request takes the lock over from the turn. -/
theorem Held.addRequest
    (major : Nat)
    (held : Held lists running (some bh) (some req) state)
    (inTable : req < nrRequest)
    (buffer : (state.request req).bh = some bh) :
    ∃ lists' after,
      Requests.addRequest major req state = .ret () after ∧
      Held lists' running none none after ∧
      Follows lists state lists' after ∧
      after.point = state.point := by
  have nowhere := held.apart req rfl
  obtain ⟨after, ran, listed, kept, _⟩ :=
    addRequest_lists major held.listed nowhere inTable
  have members (other slot : Nat) :
      slot ∈ Function.update lists major
          (Elevator.add state.key req (lists major)) other ↔
        slot ∈ lists other ∨ slot = req ∧ other = major := by
    by_cases same : other = major
    · subst same
      rw [Function.update_self, Elevator.add_perm.mem_iff, List.mem_cons,
        or_comm, and_iff_left rfl]
    · rw [Function.update_of_ne same]
      exact (or_iff_left fun both => same both.2).symm
  have listedIff (slot : Nat) :
      (∃ other, slot ∈ Function.update lists major
          (Elevator.add state.key req (lists major)) other) ↔
        (∃ other, slot ∈ lists other) ∨ slot = req := by
    simp only [members]
    constructor
    · rintro ⟨other, member | ⟨same, _⟩⟩
      · exact Or.inl ⟨other, member⟩
      · exact Or.inr same
    · rintro (⟨other, member⟩ | same)
      · exact ⟨other, Or.inl member⟩
      · exact ⟨major, Or.inr ⟨same, rfl⟩⟩
  have dev (slot : Nat) :
      (after.request slot).dev = (state.request slot).dev ∧
        (after.request slot).cmd = (state.request slot).cmd ∧
        (after.request slot).bh = (state.request slot).bh := by
    obtain ⟨next, same⟩ := kept.request slot
    rw [same]
    exact ⟨rfl, rfl, rfl⟩
  have owns (owner : Owner ι) (bh' : β)
      (mine :
        Owns (Function.update lists major
          (Elevator.add state.key req (lists major))) running none after
            owner bh') :
      Owns lists running (some bh) state (owner.former (.slot req)) bh' ∧
        owner ≠ .hand := by
    cases owner with
    | slot slot =>
      obtain ⟨member, mine⟩ := mine
      rw [(dev slot).2.2] at mine
      refine ⟨?_, nofun⟩
      unfold Owner.former
      by_cases same : slot = req
      · subst same
        rw [if_pos rfl]
        exact buffer.symm.trans mine
      · rw [if_neg fun again => same (Owner.slot.inj again)]
        exact ⟨((listedIff slot).mp member).resolve_right same, mine⟩
    | task task =>
      obtain ⟨other, major', command', point⟩ := mine
      rw [kept.point] at point
      exact ⟨⟨other, major', command', point⟩, nofun⟩
    | hand =>
      cases mine
  have locks := held.locks_of_owns (fun owner => owner.former (.slot req))
    (fun owner bh' mine => (owns owner bh' mine).1)
    (fun owner other bh' mine theirs same =>
      Owner.eq_of_former same (owns owner bh' mine).2
        (owns other bh' theirs).2)
    (fun _ bh' _ locked => (kept.lock bh').trans locked)
  refine ⟨_, after, ran, ⟨listed, nofun, ?_, locks.1, locks.2, ?_⟩, ?_, kept.point⟩
  · intro slot below
    rw [(dev slot).1, listedIff]
    refine (held.occupied slot below).trans ?_
    constructor
    · rintro (member | same)
      · exact Or.inl (Or.inl member)
      · exact Or.inl (Or.inr (Option.some.inj same).symm)
    · rintro ((member | same) | never)
      · exact Or.inl member
      · exact Or.inr (congrArg some same.symm)
      · cases never
  · intro slot below reserved filled
    rw [(dev slot).1] at filled
    rw [(dev slot).2.1]
    exact held.reads slot below reserved filled
  · exact .of_subset kept.completed fun other slot member =>
      ⟨(members other slot).mpr (Or.inl member), (dev slot).2.2⟩

/-- What does not touch the slots keeps what is known of them. -/
theorem Held.of_locks
    {running' : Option ι} {hand' : Option β}
    (held : Held lists running hand none state)
    (request : after.request = state.request)
    (current : after.current = state.current)
    (locks :
      (∀ owner bh, Owns lists running' hand' after owner bh →
        (after.buffer bh).lock = true) ∧
      ∀ owner other bh,
        Owns lists running' hand' after owner bh →
        Owns lists running' hand' after other bh → owner = other) :
    Held lists running' hand' none after := by
  have next : after.next = state.next := by
    unfold State.next
    rw [request]
  obtain ⟨⟨linked, nodup, apart, below⟩, _, occupied, _, _, reads⟩ := held
  exact
    ⟨⟨by rwa [next, current], nodup, apart, below⟩, nofun, by rwa [request],
      locks.1, locks.2, by rwa [request]⟩

@[simp] theorem setLock_lock_self
    (lock : Bool) :
    ((state.setLock bh lock).buffer bh).lock = lock :=
  congrArg BufferHead.lock (Function.update_self bh _ state.buffer)

@[simp] theorem setLock_lock_of_ne
    {other : β}
    (lock : Bool)
    (different : other ≠ bh) :
    ((state.setLock bh lock).buffer other).lock = (state.buffer other).lock :=
  congrArg BufferHead.lock (Function.update_of_ne different _ state.buffer)

/-- The turn locks a buffer. -/
theorem Held.lock
    (held : Held lists running none none state)
    (free : (state.buffer bh).lock = false) :
    Held lists running (some bh) none (state.setLock bh true) ∧
      Follows lists state lists (state.setLock bh true) := by
  have nobody (owner : Owner ι)
      (mine : Owns lists running none state owner bh) : False := by
    have locked := held.locked owner bh mine
    rw [free] at locked
    cases locked
  have former (owner : Owner ι) (bh' : β)
      (mine :
        Owns lists running (some bh) (state.setLock bh true) owner bh') :
      owner = .hand ∧ bh' = bh ∨ Owns lists running none state owner bh' := by
    cases owner with
    | slot slot => exact Or.inr mine
    | task task => exact Or.inr mine
    | hand => exact Or.inl ⟨rfl, (Option.some.inj mine).symm⟩
  refine ⟨held.of_locks rfl rfl ⟨fun owner bh' mine => ?_, ?_⟩, .of_same rfl rfl⟩
  · by_cases same : bh' = bh
    · rw [same, setLock_lock_self]
    · rw [setLock_lock_of_ne true same]
      rcases former owner bh' mine with ⟨_, same'⟩ | old
      · exact absurd same' same
      · exact held.locked owner bh' old
  · intro owner other bh' mine theirs
    rcases former owner bh' mine with ⟨rfl, rfl⟩ | old
    · rcases former other bh' theirs with ⟨rfl, _⟩ | old
      · rfl
      · exact (nobody other old).elim
    · rcases former other bh' theirs with ⟨_, rfl⟩ | old'
      · exact (nobody owner old).elim
      · exact held.alone owner other bh' old old'

/-- The turn unlocks its buffer. -/
theorem Held.unlock
    (held : Held lists running (some bh) none state) :
    Held lists running none none (state.setLock bh false) ∧
      Follows lists state lists (state.setLock bh false) := by
  have owns (owner : Owner ι) (bh' : β)
      (mine :
        Owns lists running none (state.setLock bh false) owner bh') :
      Owns lists running (some bh) state owner bh' ∧ owner ≠ .hand := by
    cases owner with
    | slot slot => exact ⟨mine, nofun⟩
    | task task => exact ⟨mine, nofun⟩
    | hand => cases mine
  refine ⟨held.of_locks rfl rfl (held.locks_of_owns id
    (fun owner bh' mine => (owns owner bh' mine).1)
    (fun _ _ _ _ _ same => same) fun owner bh' mine locked => ?_),
    .of_same rfl rfl⟩
  have different : bh' ≠ bh := by
    rintro rfl
    have hand : Owns lists running (some bh') state .hand bh' := rfl
    exact (owns owner bh' mine).2
      (held.alone owner .hand bh' (owns owner bh' mine).1 hand)
  rwa [setLock_lock_of_ne false different]

/-- The turn of a task ends, and the task keeps its buffer while it sleeps. -/
theorem Held.goto
    {point : Point β}
    (held : Held lists (some current) hand none state)
    (keeps :
      ∀ major command bh, point = .searching major command bh → hand = some bh) :
    Held lists none none none (state.goto current point) ∧
      Follows lists state lists (state.goto current point) := by
  have owns (owner : Owner ι) (bh' : β)
      (mine : Owns lists none none (state.goto current point) owner bh') :
      Owns lists (some current) hand state (owner.former (.task current))
          bh' ∧
        owner ≠ .hand := by
    cases owner with
    | slot slot => exact ⟨mine, nofun⟩
    | task task =>
      obtain ⟨_, major, command, here⟩ := mine
      change Function.update state.point current point task = _ at here
      refine ⟨?_, nofun⟩
      unfold Owner.former
      by_cases same : task = current
      · subst same
        rw [Function.update_self] at here
        rw [if_pos rfl]
        exact keeps major command bh' here
      · rw [Function.update_of_ne same] at here
        rw [if_neg fun again => same (Owner.task.inj again)]
        exact ⟨fun again => same (Option.some.inj again).symm, major, command, here⟩
    | hand => cases mine
  refine ⟨held.of_locks rfl rfl (held.locks_of_owns
    (fun owner => owner.former (.task current))
    (fun owner bh' mine => (owns owner bh' mine).1) ?_
    fun _ _ _ locked => locked), .of_same rfl rfl⟩
  intro owner other bh' mine theirs same
  exact Owner.eq_of_former same (owns owner bh' mine).2
    (owns other bh' theirs).2

/-- The turn of a task begins; a task that has slept has a buffer. -/
theorem Held.start
    (held : Held lists none none none state)
    (keeps :
      ∀ bh, hand = some bh →
        ∃ major command, state.point current = .searching major command bh) :
    Held lists (some current) hand none state := by
  let former : Owner ι → Owner ι
    | .hand =>
      .task current
    | owner =>
      owner
  have owns (owner : Owner ι) (bh' : β)
      (mine : Owns lists (some current) hand state owner bh') :
      Owns lists none none state (former owner) bh' := by
    cases owner with
    | slot slot => exact mine
    | task task => exact ⟨nofun, mine.2⟩
    | hand => exact ⟨nofun, keeps bh' mine⟩
  have different (owner other : Owner ι) (bh' : β)
      (mine : Owns lists (some current) hand state owner bh')
      (theirs : Owns lists (some current) hand state other bh')
      (same : former owner = former other) :
      owner = other := by
    cases owner with
    | slot slot =>
      cases other with
      | slot other => exact same
      | task task => cases same
      | hand => cases same
    | task task =>
      cases other with
      | slot slot => cases same
      | task other => exact same
      | hand =>
        cases same
        exact absurd rfl mine.1
    | hand =>
      cases other with
      | slot slot => cases same
      | task task =>
        cases same
        exact absurd rfl theirs.1
      | hand => rfl
  exact held.of_locks rfl rfl (held.locks_of_owns former owns different
    fun _ _ _ locked => locked)

end Parts

end Requests

end HitOs
