import HitOs.RequestLists

namespace HitOs

/-!
# The request queue of a device

Any sequence of `add_request` and `end_request` on one device.  The requests that have
been added and those that have ended are recorded beside the state, each with its slot
and with what `IN_ORDER` compares.
-/

namespace Requests

open Routine

variable {ι β : Type} [DecidableEq β]

/-- A request in a slot. -/
abbrev Entry := Nat × (ℕ ×ₗ ℤ ×ₗ ℕ)

def State.entry (state : State ι β) (slot : Nat) : Entry :=
  (slot, state.key slot)

/-- A state with the requests that have been added and that have ended. -/
structure Served (ι β : Type) where
  state : State ι β
  added : List Entry
  ended : List Entry

/-- What happens to the queue of a device. -/
inductive QueueAction (β : Type) where
  | add (req : Nat) (request : Request β)
  | endRequest (uptodate : Bool)

def onState (routine : Routine (State ι β) Unit) : Routine (Served ι β) Unit :=
  zoom Served.state (fun state served => { served with state := state }) routine

namespace QueueAction

def perform (major : Nat) : QueueAction β → Routine (Served ι β) Unit
  | .add req request => do
      update fun served =>
        { served with
          state := served.state.setRequest req request
          added := served.added ++ [(req, request.key)] }
      onState (addRequest major req)
  | .endRequest uptodate => do
      let served ← read
      match served.state.current major with
      | none => pure ()
      | some slot =>
        update fun served =>
          { served with ended := served.ended ++ [served.state.entry slot] }
      onState (Requests.endRequest major uptodate)

/-- A request is new if it is put into an empty slot, and differs from those that are
there in what `IN_ORDER` compares. -/
def Enabled (served : Served ι β) : QueueAction β → Prop
  | .add req request =>
    (req < nrRequest ∧ (served.state.request req).dev < 0) ∧
      0 ≤ request.dev ∧
      ∀ slot, slot < nrRequest → 0 ≤ (served.state.request slot).dev →
        served.state.key slot ≠ request.key
  | .endRequest _ => True

instance
    {served : Served ι β} {action : QueueAction β} :
    Decidable (action.Enabled served) :=
  match action with
  | .add _ request =>
    @instDecidableAnd _ _ inferInstance
      (@instDecidableAnd _ _ inferInstance
        (Nat.decidableBallLT nrRequest fun slot _ =>
          0 ≤ (served.state.request slot).dev → served.state.key slot ≠ request.key))
  | .endRequest _ => isTrue trivial

end QueueAction

/-- The requests of one device, from `blk_dev_init` on. -/
def queueMachine (major : Nat) : Machine (Served ι β) (QueueAction β) where
  initial served :=
    (∀ slot, slot < nrRequest →
      (served.state.request slot).dev = -1 ∧ (served.state.request slot).next = none) ∧
    (∀ other, served.state.current other = none) ∧
    served.added = [] ∧ served.ended = []
  enabled action served := action.Enabled served
  perform action := action.perform major

/-- The lists when only one device has requests. -/
def only (major : Nat) (slots : List Nat) : Nat → List Nat :=
  Function.update (fun _ => []) major slots

theorem only_self
    {major : Nat} {slots : List Nat} :
    only major slots major = slots :=
  Function.update_self _ _ _

theorem mem_only
    {major other slot : Nat} {slots : List Nat}
    (member : slot ∈ only major slots other) :
    slot ∈ slots := by
  unfold only at member
  by_cases same : other = major
  · subst same
    rwa [Function.update_self] at member
  · rw [Function.update_of_ne same] at member
    cases member

/-- The invariant. -/
structure Elevated
    (major : Nat)
    (slots : List Nat)
    (served : Served ι β) : Prop where
  listed : Lists (only major slots) served.state
  occupied :
    ∀ slot, slot < nrRequest → (0 ≤ (served.state.request slot).dev ↔ slot ∈ slots)
  counted :
    (served.ended ++ slots.map served.state.entry).Perm served.added
  sweeps :
    ∀ head rest, slots = head :: rest → Elevator.Sweeps served.state.key head rest

namespace Elevated

variable {major : Nat} {slots : List Nat} {served after : Served ι β}

/-- The slots that are filled differ from a new one. -/
theorem fresh
    {req : Nat}
    (elevated : Elevated major slots served)
    (inTable : req < nrRequest)
    (empty : (served.state.request req).dev < 0) :
    req ∉ slots := by
  intro member
  have filled := (elevated.occupied req inTable).mpr member
  omega

theorem add
    {req : Nat} {request : Request β}
    (elevated : Elevated major slots served)
    (enabled : (QueueAction.add req request).Enabled served) :
    ∃ after,
      (QueueAction.add req request).perform major served = .ret () after ∧
      Elevated major
        (Elevator.add (served.state.setRequest req request).key req slots)
        after ∧
      (∀ head, served.state.current major = some head →
        after.state.current major = some head) := by
  obtain ⟨⟨inTable, empty⟩, real, distinct⟩ := enabled
  have notIn := elevated.fresh inTable empty
  have notReq (slot : Nat) (member : slot ∈ slots) : slot ≠ req :=
    fun same => notIn (same ▸ member)
  have keys (slot : Nat) (member : slot ∈ slots) :
      (served.state.setRequest req request).key slot =
        served.state.key slot := by
    unfold State.key
    rw [State.setRequest_of_ne (notReq slot member)]
  have mine :
      (served.state.setRequest req request).key req = request.key := by
    unfold State.key
    rw [State.setRequest_self]
  have nowhere (other : Nat) : req ∉ only major slots other :=
    fun member => notIn (mem_only member)
  obtain ⟨state, ran, listed, kept, head⟩ :=
    addRequest_lists major (elevated.listed.setRequest nowhere) nowhere
      inTable
  have key : state.key = (served.state.setRequest req request).key :=
    kept.key
  rw [only_self] at listed
  refine ⟨⟨state, served.added ++ [(req, request.key)], served.ended⟩, ?_,
    ⟨?_, ?_, ?_, ?_⟩, head⟩
  · change onState (addRequest major req)
      ⟨served.state.setRequest req request, _, served.ended⟩ = _
    exact zoom_of_ret ran
  · unfold only at listed ⊢
    rwa [Function.update_idem] at listed
  · intro slot below
    obtain ⟨next, same⟩ := kept.request slot
    rw [Elevator.add_perm.mem_iff, List.mem_cons]
    change 0 ≤ (state.request slot).dev ↔ _
    rw [same]
    by_cases new : slot = req
    · subst new
      rw [State.setRequest_self]
      exact iff_of_true real (Or.inl rfl)
    · rw [State.setRequest_of_ne new]
      exact (elevated.occupied slot below).trans (or_iff_right new).symm
  · have entries :
        ((Elevator.add (served.state.setRequest req request).key req
          slots).map state.entry).Perm
          ((req, request.key) :: slots.map served.state.entry) := by
      have moved :
          ((Elevator.add (served.state.setRequest req request).key req
            slots).map state.entry).Perm
            ((req :: slots).map state.entry) :=
        Elevator.add_perm.map state.entry
      have others :
          slots.map state.entry = slots.map served.state.entry :=
        List.map_congr_left fun slot member => by
          unfold State.entry
          rw [key, keys slot member]
      rw [List.map_cons, others] at moved
      have first : state.entry req = (req, request.key) := by
        unfold State.entry
        rw [key, mine]
      rwa [first] at moved
    refine (entries.append_left served.ended).trans ?_
    refine List.perm_middle.trans ?_
    refine (List.perm_append_singleton _ _).symm.trans ?_
    exact elevated.counted.append_right _
  · intro first rest shape
    rw [key]
    cases slots with
    | nil =>
      cases shape
      exact trivial
    | cons x xs =>
      cases shape
      refine Elevator.sweeps_place ?_ ?_
      · exact (elevated.sweeps first xs rfl).congr keys
      · intro slot member
        have inSlots : slot ∈ first :: xs :=
          List.mem_cons_of_mem first member
        rw [mine, keys slot inSlots]
        have below := elevated.listed.below major slot
          (by rwa [only_self])
        exact distinct slot below
          ((elevated.occupied slot below).mpr inSlots)

theorem endRequest
    {uptodate : Bool}
    (elevated : Elevated major slots served) :
    ∃ after,
      (QueueAction.endRequest uptodate).perform major served = .ret () after ∧
      Elevated major slots.tail after := by
  have linked := elevated.listed.linked major
  rw [only_self] at linked
  cases slots with
  | nil =>
    refine ⟨served, ?_, elevated⟩
    have idle : served.state.current major = none := linked
    unfold QueueAction.perform
    simp only [bind, andThen, Routine.read, idle]
    exact zoom_of_ret (endRequest_of_none idle)
  | cons slot rest =>
    have head : served.state.current major = some slot := linked.1
    have inTable : slot < nrRequest :=
      elevated.listed.below major slot (by
        rw [only_self]
        exact List.mem_cons_self)
    have notAgain : slot ∉ rest := by
      have nodup := elevated.listed.nodup major
      rw [only_self] at nodup
      exact (List.nodup_cons.mp nodup).1
    have other (slot' : Nat) (member : slot' ∈ rest) :
        (ended major slot uptodate served.state).request slot' =
          served.state.request slot' := by
      have different : slot' ≠ slot := fun same => notAgain (same ▸ member)
      rw [ended_request, Function.update_of_ne different]
    refine ⟨⟨ended major slot uptodate served.state, served.added,
      served.ended ++ [served.state.entry slot]⟩, ?_, ?_, ?_, ?_, ?_⟩
    · unfold QueueAction.perform
      simp only [bind, andThen, Routine.read, head, update]
      exact zoom_of_ret (endRequest_of_some head)
    · have listed :
          Lists (Function.update (only major (slot :: rest)) major rest)
            (ended major slot uptodate served.state) :=
        elevated.listed.ended only_self
      unfold only at listed ⊢
      rwa [Function.update_idem] at listed
    · intro slot' below
      change 0 ≤ ((ended major slot uptodate served.state).request
        slot').dev ↔ slot' ∈ rest
      by_cases same : slot' = slot
      · subst same
        rw [ended_request, Function.update_self]
        exact iff_of_false (by decide : ¬ (0 : Int) ≤ -1) notAgain
      · rw [ended_request, Function.update_of_ne same]
        refine (elevated.occupied slot' below).trans ?_
        rw [List.mem_cons]
        exact or_iff_right same
    · have entries :
          rest.map (ended major slot uptodate served.state).entry =
            rest.map served.state.entry :=
        List.map_congr_left fun slot' member => by
          unfold State.entry State.key
          rw [other slot' member]
      change ((served.ended ++ [_]) ++
        rest.map (ended major slot uptodate served.state).entry).Perm _
      rw [entries, List.append_assoc]
      exact elevated.counted
    · rintro first rest' rfl
      refine (elevated.sweeps slot (first :: rest') rfl).tail.congr ?_
      intro slot' member
      unfold State.key
      rw [other slot' member]

/-- The step lemma. -/
theorem step
    {action : QueueAction β}
    (elevated : Elevated major slots served)
    (stepped : (queueMachine major).Step served action after) :
    (∃ slots, Elevated major slots after) ∧
      ∀ req request head,
        action = .add req request →
        served.state.current major = some head →
          after.state.current major = some head := by
  obtain ⟨enabled, ends⟩ := stepped.ends
  cases action with
  | add req request =>
    obtain ⟨last, ran, elevated, head⟩ := elevated.add enabled
    have same : after = last := Outcome.eq_of_ends ran ends
    subst same
    exact ⟨⟨_, elevated⟩, fun _ _ slot _ => head slot⟩
  | endRequest uptodate =>
    obtain ⟨last, ran, elevated⟩ := elevated.endRequest
    have same : after = last := Outcome.eq_of_ends ran ends
    subst same
    exact ⟨⟨_, elevated⟩, fun _ _ _ never => nomatch never⟩

theorem of_initial
    (initial : (queueMachine major).initial served) :
    Elevated major [] served := by
  obtain ⟨empty, idle, added, ended⟩ := initial
  have isNone : only major [] = fun _ => [] := Function.update_eq_self _ _
  refine ⟨?_, ?_, ?_, nofun⟩
  · rw [isNone]
    exact ⟨idle, fun _ => List.nodup_nil, nofun, nofun⟩
  · intro slot below
    rw [(empty slot below).1]
    exact iff_of_false (by decide) (List.not_mem_nil)
  · rw [added, ended]
    exact List.Perm.refl _

end Elevated

/--
The request queue is an elevator.  Its slots are those of the requests that have been
added and have not ended, each once, and they go up at most twice; a new request leaves
the head of the list where it is.
-/
theorem queue_is_elevator
    {major : Nat} {served : Served ι β}
    (reached : (queueMachine major).Reachable served) :
    (∃ slots,
      Linked served.state.next (served.state.current major) slots ∧
      slots.Nodup ∧
      (served.ended ++ slots.map served.state.entry).Perm served.added ∧
      ∃ first second,
        slots = first ++ second ∧
        (first.Pairwise fun earlier later =>
          inOrder (served.state.request earlier)
            (served.state.request later) = true) ∧
        second.Pairwise fun earlier later =>
          inOrder (served.state.request earlier)
            (served.state.request later) = true) ∧
      ∀ req request after head,
        (queueMachine major).Step served (.add req request) after →
        served.state.current major = some head →
          after.state.current major = some head := by
  have invariant : ∃ slots, Elevated major slots served := by
    induction reached with
    | start initial =>
      exact ⟨[], .of_initial initial⟩
    | step _ stepped inductionHypothesis =>
      obtain ⟨slots, elevated⟩ := inductionHypothesis
      exact (elevated.step stepped).1
  obtain ⟨slots, elevated⟩ := invariant
  have linked := elevated.listed.linked major
  have nodup := elevated.listed.nodup major
  rw [only_self] at linked nodup
  refine ⟨⟨slots, linked, nodup, elevated.counted, ?_⟩, ?_⟩
  · simp only [inOrder_iff]
    cases slots with
    | nil =>
      exact ⟨[], [], rfl, List.Pairwise.nil, List.Pairwise.nil⟩
    | cons first rest =>
      exact (elevated.sweeps first rest rfl).runs
  · intro req request after head stepped current
    exact (elevated.step stepped).2 req request head rfl current

/-- No request, for the device of major number 3. -/
def noRequest : Served Unit Unit where
  state :=
    { request := fun _ =>
        { dev := -1, cmd := 0, sector := 0, bh := none, next := none }
      current := fun _ => none
      buffer := fun _ =>
        { dev := 0x301
          blocknr := 0
          uptodate := false
          dirt := false
          lock := false }
      point := fun _ => .user
      completed := [] }
  added := []
  ended := []

def reading (sector : Nat) : Request Unit :=
  { dev := 0x301, cmd := Rw.read, sector := sector, bh := none, next := none }

/-- Sectors 10, 4 and 20 are wanted, and the first of them is read. -/
def threeReads : List (QueueAction Unit) :=
  [.add 31 (reading 10), .add 30 (reading 4), .add 29 (reading 20), .endRequest true]

theorem queue_is_elevator_reads :
    ∃ served : Served Unit Unit, ∃ slots,
      (queueMachine 3).Reachable served ∧ served.ended.length = 1 ∧
      Linked served.state.next (some 30) slots ∧ slots.Nodup ∧
      slots.length = 2 := by
  have passed :
      ((queueMachine 3).follow (fun action served => action.Enabled served)
        threeReads noRequest).any
          (fun served =>
            served.state.current 3 == some 30 && served.ended.length == 1 &&
              served.added.length == 3) = true := by
    decide +kernel
  obtain ⟨served, followed, test⟩ := (Option.any_eq_true _ _).mp passed
  simp only [Bool.and_eq_true, beq_iff_eq] at test
  obtain ⟨⟨current, ended⟩, added⟩ := test
  have initial : (queueMachine 3).initial noRequest :=
    ⟨fun _ _ => ⟨rfl, rfl⟩, fun _ => rfl, rfl, rfl⟩
  have reached : (queueMachine 3).Reachable served :=
    Machine.Reachable.follow
      (fun action served enabled =>
        (of_decide_eq_true enabled : action.Enabled served))
      (.start initial) followed
  obtain ⟨⟨slots, linked, nodup, counted, _⟩, _⟩ := queue_is_elevator reached
  rw [current] at linked
  refine ⟨served, slots, reached, ended, linked, nodup, ?_⟩
  have length := counted.length_eq
  rw [List.length_append, List.length_map, ended, added] at length
  omega

end Requests

end HitOs
