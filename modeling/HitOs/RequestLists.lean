import HitOs.Elevators
import HitOs.Requests
import Mathlib.Data.Prod.Lex

namespace HitOs

/-!
# The lists of requests

The slots in the list of each major device, and what `add_request` and `end_request`
do to them.
-/

namespace Requests

open Routine

variable {ι β : Type}

/-- What `IN_ORDER` compares. -/
def Request.key (request : Request β) : ℕ ×ₗ ℤ ×ₗ ℕ :=
  toLex (request.cmd, toLex (request.dev, request.sector))

theorem inOrder_iff
    {s1 s2 : Request β} :
    inOrder s1 s2 = true ↔ s1.key < s2.key := by
  unfold inOrder Request.key
  simp only [Bool.or_eq_true, Bool.and_eq_true, decide_eq_true_iff,
    beq_iff_eq, Prod.Lex.toLex_lt_toLex]

namespace State

def next (state : State ι β) (slot : Nat) : Option Nat :=
  (state.request slot).next

def key (state : State ι β) (slot : Nat) : ℕ ×ₗ ℤ ×ₗ ℕ :=
  (state.request slot).key

end State

/-- The slots of each device are chained, and in one place only. -/
structure Lists (lists : Nat → List Nat) (state : State ι β) : Prop where
  linked :
    ∀ major, Linked state.next (state.current major) (lists major)
  nodup : ∀ major, (lists major).Nodup
  apart :
    ∀ major other slot, slot ∈ lists major → slot ∈ lists other → major = other
  below : ∀ major, ∀ slot ∈ lists major, slot < nrRequest

namespace Lists

variable {lists : Nat → List Nat} {state : State ι β}

/-- A list is no longer than the table. -/
theorem length_le
    (listed : Lists lists state)
    (major : Nat) :
    (lists major).length ≤ nrRequest := by
  have subset : (lists major) ⊆ List.range nrRequest :=
    fun slot member => List.mem_range.mpr (listed.below major slot member)
  have length := (List.subperm_of_subset (listed.nodup major) subset).length_le
  rwa [List.length_range] at length

end Lists

/-- Where the loop of `add_request` stops. -/
theorem findPlace_eq
    {state : State ι β} {tmp fuel : Nat} {rest : List Nat}
    (req : Nat)
    (linked : Linked state.next (state.next tmp) rest)
    (enough : rest.length < fuel) :
    ∃ earlier node later,
      tmp :: rest = earlier ++ node :: later ∧
      findPlace state req fuel tmp = some node ∧
      tmp :: Elevator.place state.key req tmp rest =
        earlier ++ node :: req :: later := by
  induction rest generalizing tmp fuel with
  | nil =>
    obtain ⟨fuel, rfl⟩ := Nat.exists_eq_succ_of_ne_zero
      (Nat.ne_zero_of_lt enough)
    have last : (state.request tmp).next = none := linked
    refine ⟨[], tmp, [], rfl, ?_, rfl⟩
    rw [findPlace, last]
  | cons next rest inductionHypothesis =>
    obtain ⟨fuel, rfl⟩ := Nat.exists_eq_succ_of_ne_zero
      (Nat.ne_zero_of_lt enough)
    obtain ⟨first, tail⟩ := linked
    have points : (state.request tmp).next = some next := first
    have condition :
        ((inOrder (state.request tmp) (state.request req) ||
            !inOrder (state.request tmp) (state.request next)) &&
            inOrder (state.request req) (state.request next)) = true ↔
          (state.key tmp < state.key req ∨
              ¬ state.key tmp < state.key next) ∧
            state.key req < state.key next := by
      unfold State.key
      rw [Bool.and_eq_true, Bool.or_eq_true, Bool.not_eq_true',
        ← Bool.not_eq_true, inOrder_iff, inOrder_iff, inOrder_iff]
    rw [findPlace, points, Elevator.place]
    by_cases here :
        (state.key tmp < state.key req ∨
            ¬ state.key tmp < state.key next) ∧
          state.key req < state.key next
    · rw [if_pos here]
      refine ⟨[], tmp, next :: rest, rfl, ?_, rfl⟩
      simp only [condition.mpr here, if_true]
    · obtain ⟨earlier, node, later, shape, found, placed⟩ :=
        inductionHypothesis tail (Nat.lt_of_succ_lt_succ enough)
      rw [if_neg here]
      refine ⟨tmp :: earlier, node, later, congrArg (tmp :: ·) shape, ?_,
        congrArg (tmp :: ·) placed⟩
      simp only [condition, here, if_false]
      exact found

/-! ## What does not change -/

variable [DecidableEq β]

/-- The requests keep all but their `next`, and the buffers their locks. -/
structure Kept (state after : State ι β) : Prop where
  request :
    ∀ slot, ∃ next, after.request slot = { state.request slot with next := next }
  lock : ∀ bh, (after.buffer bh).lock = (state.buffer bh).lock
  point : after.point = state.point
  completed : after.completed = state.completed

namespace State

variable {state : State ι β}

@[simp] theorem setNext_request_self
    (slot : Nat)
    (value : Option Nat) :
    (state.setNext slot value).request slot =
      { state.request slot with next := value } :=
  Function.update_self _ _ _

@[simp] theorem setNext_request_of_ne
    {slot other : Nat}
    (value : Option Nat)
    (different : other ≠ slot) :
    (state.setNext slot value).request other = state.request other :=
  Function.update_of_ne different _ _

@[simp] theorem setNext_next
    (slot : Nat)
    (value : Option Nat) :
    (state.setNext slot value).next =
      Function.update state.next slot value := by
  funext other
  change ((state.setNext slot value).request other).next = _
  by_cases same : other = slot
  · rw [same, setNext_request_self, Function.update_self]
  · rw [setNext_request_of_ne value same, Function.update_of_ne same]
    rfl

theorem setNext_kept
    (slot : Nat)
    (value : Option Nat) :
    Kept state (state.setNext slot value) := by
  refine ⟨fun other => ?_, fun _ => rfl, rfl, rfl⟩
  by_cases same : other = slot
  · subst same
    exact ⟨value, setNext_request_self other value⟩
  · exact ⟨_, setNext_request_of_ne value same⟩

/-- `req->bh->b_dirt = 0` -/
def clean (bh : Option β) (state : State ι β) : State ι β :=
  match bh with
  | none => state
  | some bh => state.setBuffer bh { state.buffer bh with dirt := false }

@[simp] theorem clean_request
    (bh : Option β) :
    (state.clean bh).request = state.request := by
  cases bh with
  | none => rfl
  | some bh => rfl

@[simp] theorem clean_current
    (bh : Option β) :
    (state.clean bh).current = state.current := by
  cases bh with
  | none => rfl
  | some bh => rfl

theorem clean_kept
    (bh : Option β) :
    Kept state (state.clean bh) := by
  cases bh with
  | none => exact ⟨fun _ => ⟨_, rfl⟩, fun _ => rfl, rfl, rfl⟩
  | some bh =>
    refine ⟨fun _ => ⟨_, rfl⟩, fun other => ?_, rfl, rfl⟩
    unfold clean setBuffer
    by_cases same : other = bh
    · subst same
      simp only [Function.update_self]
    · simp only [Function.update_of_ne same]

end State

theorem Kept.trans
    {first second third : State ι β}
    (kept : Kept first second)
    (again : Kept second third) :
    Kept first third := by
  refine ⟨fun slot => ?_, fun bh => (again.lock bh).trans (kept.lock bh),
    again.point.trans kept.point, again.completed.trans kept.completed⟩
  obtain ⟨next, same⟩ := kept.request slot
  obtain ⟨next', same'⟩ := again.request slot
  exact ⟨next', by rw [same', same]⟩

theorem Kept.key
    {state after : State ι β}
    (kept : Kept state after) :
    after.key = state.key := by
  funext slot
  obtain ⟨next, same⟩ := kept.request slot
  unfold State.key
  rw [same]
  rfl

section Filling

variable {state : State ι β} {req slot : Nat} {request : Request β}

@[simp] theorem State.setRequest_self :
    (state.setRequest req request).request req = request :=
  Function.update_self _ _ _

@[simp] theorem State.setRequest_of_ne
    (different : slot ≠ req) :
    (state.setRequest req request).request slot = state.request slot :=
  Function.update_of_ne different _ _

/-- A slot that is in no list is filled. -/
theorem Lists.setRequest
    {lists : Nat → List Nat}
    (listed : Lists lists state)
    (fresh : ∀ other, req ∉ lists other) :
    Lists lists (state.setRequest req request) := by
  refine ⟨fun major => ?_, listed.nodup, listed.apart, listed.below⟩
  refine (listed.linked major).congr fun slot member => ?_
  have different : slot ≠ req := fun same => fresh major (same ▸ member)
  unfold State.next
  rw [State.setRequest_of_ne different]

end Filling

/-! ## `add_request` -/

section Adding

variable {lists : Nat → List Nat} {state : State ι β} {major req : Nat}

/-- `add_request` up to the choice of a place. -/
def prepared (req : Nat) (state : State ι β) : State ι β :=
  (state.setNext req none).clean (state.request req).bh

theorem addRequest_eq :
    addRequest major req state =
      (match state.current major with
        | none =>
          update (State.setCurrent major (some req))
        | some tmp =>
          match findPlace (state.setNext req none) req nrRequest tmp with
          | none =>
            abandon
          | some tmp => do
              update (State.setNext req
                ((state.setNext req none).request tmp).next)
              update (State.setNext tmp (some req)) :
        Routine (State ι β) Unit) (prepared req state) := by
  have same : ((state.setNext req none).request req).bh =
      (state.request req).bh := by
    rw [State.setNext_request_self]
  unfold addRequest prepared
  simp only [bind, andThen, update, Routine.read, same]
  cases (state.request req).bh with
  | none => rfl
  | some bh => rfl

theorem prepared_kept : Kept state (prepared req state) :=
  (State.setNext_kept req none).trans (State.clean_kept _)

theorem prepared_next :
    (prepared req state).next = Function.update state.next req none := by
  unfold State.next prepared
  rw [State.clean_request]
  exact State.setNext_next req none

theorem prepared_current : (prepared req state).current = state.current := by
  unfold prepared
  rw [State.clean_current]
  rfl

/-- One list has changed, by a request that was in none. -/
theorem Lists.joined
    {after : State ι β} {slots : List Nat}
    (listed : Lists lists state)
    (fresh : ∀ other, req ∉ lists other)
    (inTable : req < nrRequest)
    (linked : Linked after.next (after.current major) slots)
    (perm : slots.Perm (req :: lists major))
    (others :
      ∀ other, other ≠ major → Linked after.next (after.current other) (lists other)) :
    Lists (Function.update lists major slots) after := by
  refine ⟨fun other => ?_, fun other => ?_, fun first second slot => ?_,
    fun other slot member => ?_⟩
  · by_cases same : other = major
    · subst same
      rw [Function.update_self]
      exact linked
    · rw [Function.update_of_ne same]
      exact others other same
  · by_cases same : other = major
    · subst same
      rw [Function.update_self]
      exact perm.nodup_iff.mpr
        (List.nodup_cons.mpr ⟨fresh other, listed.nodup other⟩)
    · rw [Function.update_of_ne same]
      exact listed.nodup other
  · intro inFirst inSecond
    by_cases same : first = major
    · by_cases same' : second = major
      · exact same.trans same'.symm
      · subst same
        rw [Function.update_self] at inFirst
        rw [Function.update_of_ne same'] at inSecond
        rcases List.mem_cons.mp (perm.mem_iff.mp inFirst) with rfl | inOld
        · exact absurd inSecond (fresh second)
        · exact listed.apart first second slot inOld inSecond
    · rw [Function.update_of_ne same] at inFirst
      by_cases same' : second = major
      · subst same'
        rw [Function.update_self] at inSecond
        rcases List.mem_cons.mp (perm.mem_iff.mp inSecond) with rfl | inOld
        · exact absurd inFirst (fresh first)
        · exact listed.apart first second slot inFirst inOld
      · rw [Function.update_of_ne same'] at inSecond
        exact listed.apart first second slot inFirst inSecond
  · by_cases same : other = major
    · subst same
      rw [Function.update_self] at member
      rcases List.mem_cons.mp (perm.mem_iff.mp member) with rfl | inOld
      · exact inTable
      · exact listed.below other slot inOld
    · rw [Function.update_of_ne same] at member
      exact listed.below other slot member

/-- `add_request` puts a request into the list of its device. -/
theorem addRequest_lists
    (major : Nat)
    (listed : Lists lists state)
    (fresh : ∀ other, req ∉ lists other)
    (inTable : req < nrRequest) :
    ∃ after,
      addRequest major req state = .ret () after ∧
      Lists
        (Function.update lists major
          (Elevator.add state.key req (lists major))) after ∧
      Kept state after ∧
      (∀ tmp, state.current major = some tmp →
        after.current major = some tmp) := by
  have linkedOthers (other : Nat) :
      Linked (Function.update state.next req none) (state.current other)
        (lists other) :=
    (listed.linked other).congr fun slot member => by
      have different : slot ≠ req := fun same => fresh other (same ▸ member)
      exact Function.update_of_ne different _ _
  have linked := linkedOthers major
  rw [addRequest_eq]
  cases current : state.current major with
  | none =>
    rw [current] at linked
    have empty : lists major = [] := linked.eq_nil
    refine ⟨_, rfl, listed.joined fresh inTable ?_ Elevator.add_perm ?_, ?_,
      fun _ head => nomatch head⟩
    · rw [empty]
      change Linked (prepared req state).next
        (Function.update (prepared req state).current major (some req)
          major) [req]
      rw [Function.update_self, prepared_next]
      refine ⟨rfl, ?_⟩
      rw [Function.update_self]
      rfl
    · intro other different
      change Linked (prepared req state).next
        (Function.update (prepared req state).current major (some req)
          other) _
      rw [Function.update_of_ne different, prepared_next, prepared_current]
      exact linkedOthers other
    · exact prepared_kept.trans
        ⟨fun _ => ⟨_, rfl⟩, fun _ => rfl, rfl, rfl⟩
  | some tmp =>
    rw [current] at linked
    cases shape : lists major with
    | nil =>
      rw [shape] at linked
      cases linked
    | cons head rest =>
      have short := listed.length_le major
      rw [shape] at linked short
      obtain ⟨⟨⟩, tail⟩ := linked
      rw [← State.setNext_next] at tail
      obtain ⟨earlier, node, later, split, found, placed⟩ :=
        findPlace_eq req tail short
      have member : node ∈ lists major := by
        rw [shape, split]
        exact List.mem_append_right _ List.mem_cons_self
      have notReq : node ≠ req := fun same => fresh major (same ▸ member)
      have nodup := listed.nodup major
      have notIn := fresh major
      rw [shape, split] at nodup notIn
      have next :
          (((prepared req state).setNext req
            ((state.setNext req none).request node).next).setNext node
              (some req)).next =
            Function.update
              (Function.update (Function.update state.next req none) req
                (Function.update state.next req none node))
              node (some req) := by
        rw [State.setNext_next, State.setNext_next, prepared_next, ← State.setNext_next]
        rfl
      have whole :
          Linked (Function.update state.next req none)
            (some tmp) (earlier ++ node :: later) := by
        rw [← split, ← current, ← shape]
        exact linkedOthers major
      simp only [found]
      refine ⟨_, rfl, listed.joined fresh inTable ?_ ?_ ?_, ?_, ?_⟩
      · rw [Elevator.add]
        have kept : Kept state (state.setNext req none) :=
          State.setNext_kept req none
        rw [← kept.key, placed, next]
        change Linked _ ((prepared req state).current major) _
        rw [prepared_current, current]
        exact whole.insert nodup notIn
      · rw [shape]
        exact Elevator.add_perm
      · intro other different
        rw [next]
        change Linked _ ((prepared req state).current other) _
        rw [prepared_current]
        refine (linkedOthers other).congr fun slot inOther => ?_
        have notNode : slot ≠ node := by
          rintro rfl
          exact different (listed.apart other major slot inOther member)
        have notNew : slot ≠ req :=
          fun same => fresh other (same ▸ inOther)
        rw [Function.update_of_ne notNode, Function.update_of_ne notNew]
      · exact prepared_kept.trans
          ((State.setNext_kept req _).trans (State.setNext_kept node _))
      · intro head same
        cases same
        change (prepared req state).current major = _
        rw [prepared_current, current]

end Adding

/-! ## `end_request` -/

/-- What `end_request` does to the buffer of a request. -/
def State.done
    (bh : Option β)
    (uptodate : Bool)
    (state : State ι β) : State ι β :=
  match bh with
  | none => state
  | some bh =>
    state.setBuffer bh
      { state.buffer bh with uptodate := uptodate, lock := false }

/-- The state after `end_request` for a slot. -/
def ended
    (major slot : Nat)
    (uptodate : Bool)
    (state : State ι β) : State ι β :=
  (((state.done (state.request slot).bh uptodate).setRequest slot
    { state.request slot with dev := -1 }).setCurrent major
      (state.next slot)).complete slot

section Ending

variable {lists : Nat → List Nat} {state : State ι β} {major slot : Nat}
variable {uptodate : Bool}

theorem endRequest_of_none
    (idle : state.current major = none) :
    endRequest major uptodate state = .ret () state := by
  unfold endRequest
  simp only [bind, andThen, Routine.read, idle]
  rfl

theorem endRequest_of_some
    (head : state.current major = some slot) :
    endRequest major uptodate state =
      .ret () (ended major slot uptodate state) := by
  unfold endRequest ended State.done
  cases bh : (state.request slot).bh with
  | none =>
    simp only [bind, andThen, Routine.read, update, head, bh,
      State.setRequest, State.setCurrent, State.complete,
      Function.update_self]
    rfl
  | some mine =>
    simp only [bind, andThen, Routine.read, update, head, bh,
      State.setRequest, State.setCurrent, State.setBuffer, State.complete,
      Function.update_self]
    rfl

theorem ended_request :
    (ended major slot uptodate state).request =
      Function.update state.request slot
        { state.request slot with dev := -1 } := by
  unfold ended State.done
  cases (state.request slot).bh with
  | none => rfl
  | some bh => rfl

theorem ended_next :
    (ended major slot uptodate state).next = state.next := by
  funext other
  unfold State.next
  rw [ended_request]
  by_cases same : other = slot
  · rw [same, Function.update_self]
  · rw [Function.update_of_ne same]

theorem ended_current :
    (ended major slot uptodate state).current =
      Function.update state.current major (state.next slot) := by
  unfold ended State.done
  cases (state.request slot).bh with
  | none => rfl
  | some bh => rfl

theorem ended_point :
    (ended major slot uptodate state).point = state.point := by
  unfold ended State.done
  cases (state.request slot).bh with
  | none => rfl
  | some bh => rfl

theorem ended_completed :
    (ended major slot uptodate state).completed =
      state.completed ++ [slot] := by
  unfold ended State.done
  cases (state.request slot).bh with
  | none => rfl
  | some bh => rfl

/-- The buffer of the request is unlocked, and no other one. -/
theorem ended_lock
    (bh : β) :
    ((ended major slot uptodate state).buffer bh).lock = true ↔
      (state.buffer bh).lock = true ∧ (state.request slot).bh ≠ some bh := by
  unfold ended State.done
  cases (state.request slot).bh with
  | none =>
    exact ⟨fun locked => ⟨locked, nofun⟩, fun locked => locked.1⟩
  | some mine =>
    change (Function.update state.buffer mine _ bh).lock = true ↔ _
    by_cases same : bh = mine
    · subst same
      rw [Function.update_self]
      exact ⟨nofun, fun other => absurd rfl other.2⟩
    · rw [Function.update_of_ne same]
      refine ⟨fun locked => ⟨locked, fun again => ?_⟩, fun other => other.1⟩
      exact same (Option.some.inj again).symm

/-- The list of the device loses its head. -/
theorem Lists.ended
    {rest : List Nat}
    (listed : Lists lists state)
    (shape : lists major = slot :: rest) :
    Lists (Function.update lists major rest)
      (ended major slot uptodate state) := by
  have linked := listed.linked major
  have nodup := listed.nodup major
  rw [shape] at linked nodup
  have inOld (slot' : Nat) (member : slot' ∈ rest) : slot' ∈ lists major := by
    rw [shape]
    exact List.mem_cons_of_mem slot member
  have old (other slot' : Nat)
      (member : slot' ∈ Function.update lists major rest other) :
      slot' ∈ lists other := by
    by_cases same : other = major
    · subst same
      rw [Function.update_self] at member
      exact inOld slot' member
    · rwa [Function.update_of_ne same] at member
  refine ⟨fun other => ?_, fun other => ?_, ?_, ?_⟩
  · rw [ended_next, ended_current]
    by_cases same : other = major
    · subst same
      rw [Function.update_self, Function.update_self]
      exact linked.2
    · rw [Function.update_of_ne same, Function.update_of_ne same]
      exact listed.linked other
  · by_cases same : other = major
    · subst same
      rw [Function.update_self]
      exact (List.nodup_cons.mp nodup).2
    · rw [Function.update_of_ne same]
      exact listed.nodup other
  · intro first second slot' inFirst inSecond
    exact listed.apart first second slot' (old first slot' inFirst)
      (old second slot' inSecond)
  · intro other slot' member
    exact listed.below other slot' (old other slot' member)

end Ending

end Requests

end HitOs
