import HitOs.Chains
import HitOs.Routine
import Mathlib.Data.List.Perm.Subperm

namespace HitOs

/-!
# Timers

`add_timer` and the part of `do_timer` that runs timers.  A timer is a node of
the array `timer_list`; the nodes in use are linked in the order in which they
expire, each with the time from the one before it.
-/

namespace Timers

open Routine

/-- `TIME_REQUESTS` -/
def timeRequests : Nat := 64

/-- An entry of `timer_list`. -/
structure Node (α : Type) where
  jiffies : Int
  fn : Option α
  next : Option Nat

/-- The timers, the tick, and the calls that timers have made, with their tick. -/
structure State (α : Type) where
  node : Nat → Node α
  nextTimer : Option Nat
  ticks : Int
  called : List (Int × α)

variable {α : Type}

namespace State

def setNode
    (index : Nat)
    (value : Node α)
    (state : State α) : State α :=
  { state with node := Function.update state.node index value }

/-- `(fn)()` -/
def call (fn : α) (state : State α) : State α :=
  { state with called := state.called ++ [(state.ticks, fn)] }

end State

/--
The loop of `add_timer`: the contents of the node `p` go down the list past the
nodes that expire before.
-/
def bubble : Nat → Nat → State α → State α
  | 0, _, state => state
  | fuel + 1, p, state =>
    match (state.node p).next with
    | none => state
    | some next =>
      let here := state.node p
      let there := state.node next
      if there.jiffies < here.jiffies then
        bubble fuel next
          ((state.setNode p
            { here with jiffies := there.jiffies, fn := there.fn }).setNode
            next
            { there with
              jiffies := here.jiffies - there.jiffies
              fn := here.fn })
      else
        state

/-- The first entry of `timer_list` without a function. -/
def freeNode (state : State α) : Option Nat :=
  (List.range timeRequests).find? fun index =>
    (state.node index).fn.isNone

def addTimer (jiffies : Int) (fn : Option α) : Routine (State α) Unit :=
  match fn with
  | none => pure ()
  | some fn =>
    if jiffies ≤ 0 then
      update (State.call fn)
    else do
      let state ← read
      match freeNode state with
      | none => Routine.panic "No more time requests free"
      | some p =>
        update fun state =>
          bubble timeRequests p
            { state.setNode p
                { jiffies := jiffies
                  fn := some fn
                  next := state.nextTimer } with
              nextTimer := some p }

/-- The loop of `do_timer`: the timers that have expired are called. -/
def expire : Nat → State α → State α
  | 0, state => state
  | fuel + 1, state =>
    match state.nextTimer with
    | none => state
    | some index =>
      let timer := state.node index
      if timer.jiffies ≤ 0 then
        let removed :=
          { state.setNode index { timer with fn := none } with
            nextTimer := timer.next }
        expire fuel
          (match timer.fn with
          | none => removed
          | some fn => removed.call fn)
      else
        state

/-- A tick, as far as `do_timer` runs timers. -/
def doTimer (state : State α) : State α :=
  let state := { state with ticks := state.ticks + 1 }
  match state.nextTimer with
  | none => state
  | some index =>
    let timer := state.node index
    expire timeRequests
      (state.setNode index { timer with jiffies := timer.jiffies - 1 })

/-! ## The list of the nodes in use -/

/-- What a node holds. -/
def State.contents (state : State α) (index : Nat) : Int × Option α :=
  ((state.node index).jiffies, (state.node index).fn)

def State.next (state : State α) (index : Nat) : Option Nat :=
  (state.node index).next

/-- The nodes in use are linked, once each. -/
structure Represents
    (state : State α)
    (nodes : List Nat)
    (timers : List (Int × α)) : Prop where
  linked :
    Linked state.next state.nextTimer nodes
  nodup :
    nodes.Nodup
  used :
    ∀ index, index ∈ nodes ↔ index < timeRequests ∧ (state.node index).fn ≠ none
  contents :
    nodes.map state.contents = timers.map fun timer => (timer.1, some timer.2)
  free :
    ∀ index, timeRequests ≤ index → (state.node index).fn = none

/-- What `add_timer` makes of a list: nothing is taken from the timers behind. -/
def insert {β : Type} : Int × β → List (Int × β) → List (Int × β)
  | timer, [] => [timer]
  | timer, first :: rest =>
    if first.1 < timer.1 then
      first :: insert (timer.1 - first.1, timer.2) rest
    else
      timer :: first :: rest

/-- `insert` does not look at what the timers call. -/
theorem insert_map
    {β γ : Type}
    (f : β → γ)
    (timers : List (Int × β)) :
    ∀ timer : Int × β,
      insert (timer.1, f timer.2)
          (timers.map fun other => (other.1, f other.2)) =
        (insert timer timers).map fun other => (other.1, f other.2) := by
  induction timers with
  | nil =>
    intro timer
    rfl
  | cons first rest inductionHypothesis =>
    intro timer
    rw [List.map_cons, insert, insert]
    simp only
    split
    · rw [List.map_cons, ← inductionHypothesis (timer.1 - first.1, timer.2)]
    · rfl

/-! ## `add_timer` on the list -/

section Bubble

variable {state : State α}

@[simp] theorem next_setNode
    {index : Nat} {value : Node α}
    (same : value.next = (state.node index).next) :
    (state.setNode index value).next = state.next := by
  funext other
  unfold State.next State.setNode
  simp only
  by_cases here : other = index
  · rw [here, Function.update_self, same]
  · rw [Function.update_of_ne here]

theorem contents_setNode_of_ne
    {index other : Nat} {value : Node α}
    (different : other ≠ index) :
    (state.setNode index value).contents other = state.contents other := by
  unfold State.contents State.setNode
  simp only
  rw [Function.update_of_ne different]

theorem contents_setNode_self
    {index : Nat} {value : Node α} :
    (state.setNode index value).contents index =
      (value.jiffies, value.fn) := by
  unfold State.contents State.setNode
  simp only
  rw [Function.update_self]

/-- What the loop has done: the links are the same, the contents have moved. -/
structure Bubbled
    (p : Nat)
    (nodes : List Nat)
    (state after : State α) : Prop where
  links :
    after.next = state.next
  start :
    after.nextTimer = state.nextTimer
  ticks :
    after.ticks = state.ticks
  called :
    after.called = state.called
  contents :
    (p :: nodes).map after.contents =
      insert (state.contents p) (nodes.map state.contents)
  others :
    ∀ other, other ∉ p :: nodes → after.contents other = state.contents other

theorem Bubbled.refl
    {p : Nat} {nodes : List Nat}
    (stays :
      insert (state.contents p) (nodes.map state.contents) =
        (p :: nodes).map state.contents) :
    Bubbled p nodes state state :=
  ⟨rfl, rfl, rfl, rfl, stays.symm, fun _ _ => rfl⟩

/-- The loop goes down the list, node by node. -/
theorem bubbled
    {nodes : List Nat} {p fuel : Nat}
    (linked : Linked state.next (state.next p) nodes)
    (nodup : (p :: nodes).Nodup)
    (enough : nodes.length ≤ fuel) :
    Bubbled p nodes state (bubble fuel p state) := by
  induction nodes generalizing p fuel state with
  | nil =>
    have last : (state.node p).next = none := linked
    cases fuel with
    | zero =>
      exact Bubbled.refl rfl
    | succ fuel =>
      unfold bubble
      rw [last]
      exact Bubbled.refl rfl
  | cons n rest inductionHypothesis =>
    obtain ⟨follows, tail⟩ := linked
    have nextShape : (state.node p).next = some n := follows
    obtain ⟨pNotMember, restNodup⟩ := List.nodup_cons.mp nodup
    have different : n ≠ p :=
      fun same => pNotMember (same ▸ List.mem_cons_self)
    cases fuel with
    | zero =>
      exact absurd enough (Nat.not_succ_le_zero _)
    | succ fuel =>
      unfold bubble
      rw [nextShape]
      simp only
      split
      · rename_i before
        obtain ⟨swapped, swappedShape⟩ :
            ∃ swapped, swapped =
              ((state.setNode p
                { state.node p with
                  jiffies := (state.node n).jiffies
                  fn := (state.node n).fn }).setNode n
                { state.node n with
                  jiffies :=
                    (state.node p).jiffies - (state.node n).jiffies
                  fn := (state.node p).fn }) :=
          ⟨_, rfl⟩
        rw [← swappedShape]
        have untouched (other : Nat)
            (notP : other ≠ p)
            (notN : other ≠ n) :
            swapped.contents other = state.contents other := by
          rw [swappedShape, contents_setNode_of_ne notN, contents_setNode_of_ne notP]
        have atN :
            swapped.contents n =
              ((state.contents p).1 - (state.contents n).1,
                (state.contents p).2) := by
          rw [swappedShape, contents_setNode_self]
          rfl
        have atP : swapped.contents p = state.contents n := by
          rw [swappedShape, contents_setNode_of_ne different.symm,
            contents_setNode_self]
          rfl
        have links : swapped.next = state.next := by
          rw [swappedShape]
          refine (next_setNode ?_).trans (next_setNode rfl)
          unfold State.setNode
          simp only
          rw [Function.update_of_ne different]
        have start : swapped.nextTimer = state.nextTimer := by
          rw [swappedShape]
          rfl
        have ticks : swapped.ticks = state.ticks := by
          rw [swappedShape]
          rfl
        have called : swapped.called = state.called := by
          rw [swappedShape]
          rfl
        have moved :
            Bubbled n rest swapped (bubble fuel n swapped) := by
          apply inductionHypothesis
          · rw [links]
            exact tail
          · exact restNodup
          · exact Nat.le_of_succ_le_succ enough
        have restSame :
            rest.map swapped.contents = rest.map state.contents := by
          apply List.map_congr_left
          intro other member
          apply untouched
          · rintro rfl
            exact pNotMember (List.mem_cons_of_mem _ member)
          · rintro rfl
            exact (List.nodup_cons.mp restNodup).1 member
        refine ⟨moved.links.trans links, moved.start.trans start,
          moved.ticks.trans ticks, moved.called.trans called, ?_, ?_⟩
        · have head :
              (bubble fuel n swapped).contents p = state.contents n :=
            (moved.others p pNotMember).trans atP
          have remaining := moved.contents
          rw [List.map_cons, head, remaining, atN, restSame, List.map_cons, insert]
          have earlier :
              (state.contents n).1 < (state.contents p).1 :=
            before
          rw [if_pos earlier]
        · intro other outside
          have notP : other ≠ p :=
            fun same => outside (same ▸ List.mem_cons_self)
          have notRest : other ∉ n :: rest :=
            fun member => outside (List.mem_cons_of_mem _ member)
          have notN : other ≠ n :=
            fun same => notRest (same ▸ List.mem_cons_self)
          rw [moved.others other notRest, untouched other notP notN]
      · rename_i notBefore
        have stays :
            ¬ (state.contents n).1 < (state.contents p).1 :=
          notBefore
        apply Bubbled.refl
        rw [List.map_cons, insert, if_neg stays]
        rfl

end Bubble

/-! ## The two operations -/

section Operations

variable {state : State α} {nodes : List Nat} {timers : List (Int × α)}

/-- A node on the list holds a timer. -/
theorem Represents.same_length
    (represents : Represents state nodes timers) :
    nodes.length = timers.length := by
  have same := congrArg List.length represents.contents
  simpa using same

theorem freeNode_some
    {p : Nat}
    (found : freeNode state = some p) :
    p < timeRequests ∧ (state.node p).fn = none := by
  unfold freeNode at found
  have member := List.mem_of_find?_eq_some found
  have free := List.find?_some found
  exact ⟨List.mem_range.mp member, Option.isNone_iff_eq_none.mp free⟩

/-- With fewer than `TIME_REQUESTS` timers there is a free node. -/
theorem freeNode_of_room
    (represents : Represents state nodes timers)
    (room : timers.length < timeRequests) :
    freeNode state ≠ none := by
  intro full
  unfold freeNode at full
  rw [List.find?_eq_none] at full
  have covered : List.range timeRequests ⊆ nodes := by
    intro index member
    rw [represents.used]
    refine ⟨List.mem_range.mp member, ?_⟩
    intro free
    exact full index member (by rw [free]; rfl)
  have enough :=
    (List.subperm_of_subset List.nodup_range covered).length_le
  rw [List.length_range, represents.same_length] at enough
  omega

/-- Every node of the list has a function when the contents say so. -/
theorem fn_of_contents
    {after : State α} {index : Nat}
    (contents :
      nodes.map after.contents = timers.map fun timer => (timer.1, some timer.2))
    (member : index ∈ nodes) :
    (after.node index).fn ≠ none := by
  have image : after.contents index ∈ nodes.map after.contents :=
    List.mem_map_of_mem member
  rw [contents, List.mem_map] at image
  obtain ⟨timer, _, same⟩ := image
  have fn := congrArg Prod.snd same
  change some timer.2 = (after.node index).fn at fn
  rw [← fn]
  exact Option.some_ne_none _

/-- `add_timer` inserts into the list. -/
theorem satisfies_addTimer
    {jiffies : Int} {fn : α} {abandoned : State α → Prop}
    (represents : Represents state nodes timers)
    (positive : 0 < jiffies)
    (room : timers.length < timeRequests) :
    (addTimer jiffies (some fn)).Satisfies state
      (fun _ after =>
        after.ticks = state.ticks ∧ after.called = state.called ∧
          ∃ nodes', Represents after nodes' (insert (jiffies, fn) timers))
      abandoned := by
  unfold addTimer
  simp only
  rw [if_neg (Int.not_le.mpr positive), satisfies_bind, satisfies_read]
  cases found : freeNode state with
  | none =>
    exact absurd found (freeNode_of_room represents room)
  | some p =>
    obtain ⟨inArray, free⟩ := freeNode_some found
    simp only
    rw [satisfies_update]
    have notUsed : p ∉ nodes := by
      rw [represents.used]
      exact fun used => used.2 free
    obtain ⟨placed, placedShape⟩ :
        ∃ placed, placed =
          { state.setNode p
              { jiffies := jiffies, fn := some fn,
                next := state.nextTimer } with
            nextTimer := some p } :=
      ⟨_, rfl⟩
    rw [← placedShape]
    have untouched (other : Nat) (different : other ≠ p) :
        placed.node other = state.node other := by
      rw [placedShape]
      exact Function.update_of_ne different _ _
    have atP :
        placed.node p =
          { jiffies := jiffies, fn := some fn,
            next := state.nextTimer } := by
      rw [placedShape]
      exact Function.update_self ..
    have notP (other : Nat) (member : other ∈ nodes) : other ≠ p := by
      rintro rfl
      exact notUsed member
    have tail : Linked placed.next (placed.next p) nodes := by
      have start : placed.next p = state.nextTimer := by
        unfold State.next
        rw [atP]
      rw [start]
      apply represents.linked.congr
      intro other member
      unfold State.next
      rw [untouched other (notP other member)]
    have nodup : (p :: nodes).Nodup :=
      List.nodup_cons.mpr ⟨notUsed, represents.nodup⟩
    have enough : nodes.length ≤ timeRequests := by
      rw [represents.same_length]
      omega
    have moved :
        Bubbled p nodes placed (bubble timeRequests p placed) :=
      bubbled tail nodup enough
    have contents :
        (p :: nodes).map (bubble timeRequests p placed).contents =
          (insert (jiffies, fn) timers).map
            fun timer => (timer.1, some timer.2) := by
      have same : nodes.map placed.contents = nodes.map state.contents := by
        apply List.map_congr_left
        intro other member
        unfold State.contents
        rw [untouched other (notP other member)]
      have first : placed.contents p = (jiffies, some fn) := by
        unfold State.contents
        rw [atP]
      rw [moved.contents, same, first, represents.contents]
      exact insert_map some timers (jiffies, fn)
    have outside (other : Nat) (notMember : other ∉ p :: nodes) :
        ((bubble timeRequests p placed).node other).fn =
          (state.node other).fn := by
      have same := congrArg Prod.snd (moved.others other notMember)
      change
        ((bubble timeRequests p placed).node other).fn = (placed.node other).fn at same
      rw [same, untouched other]
      rintro rfl
      exact notMember List.mem_cons_self
    refine ⟨?_, ?_, p :: nodes, ?_, nodup, ?_, contents, ?_⟩
    · rw [moved.ticks, placedShape]
      rfl
    · rw [moved.called, placedShape]
      rfl
    · have start : placed.nextTimer = some p := by
        rw [placedShape]
      rw [moved.links, moved.start]
      exact ⟨start, tail⟩
    · intro index
      by_cases member : index ∈ p :: nodes
      · refine ⟨fun _ => ⟨?_, fn_of_contents contents member⟩,
          fun _ => member⟩
        rcases List.mem_cons.mp member with rfl | inNodes
        · exact inArray
        · exact ((represents.used index).mp inNodes).1
      · rw [outside index member, ← represents.used]
        exact ⟨fun inside => absurd inside member,
          fun inside => List.mem_cons_of_mem _ inside⟩
    · intro index beyond
      have notMember : index ∉ p :: nodes := by
        intro member
        rcases List.mem_cons.mp member with rfl | inNodes
        · omega
        · have inside := ((represents.used index).mp inNodes).1
          omega
      rw [outside index notMember]
      exact represents.free index beyond

/-- Whether a timer at the front of the list is called. -/
def expires (timer : Int × α) : Bool :=
  decide (timer.1 ≤ 0)

/-- The loop calls the timers at the front that have expired. -/
theorem expired
    {fuel : Nat}
    (represents : Represents state nodes timers)
    (enough : nodes.length ≤ fuel) :
    (expire fuel state).ticks = state.ticks ∧
      (expire fuel state).called =
        state.called ++
          (timers.takeWhile expires).map
            (fun timer => (state.ticks, timer.2)) ∧
      ∃ nodes', Represents (expire fuel state) nodes'
        (timers.dropWhile expires) := by
  induction nodes generalizing fuel state timers with
  | nil =>
    have noTimers : timers = [] := by
      have same := represents.same_length
      exact List.eq_nil_of_length_eq_zero same.symm
    have ended : expire fuel state = state := by
      have start : state.nextTimer = none := represents.linked
      cases fuel with
      | zero =>
        rfl
      | succ fuel =>
        unfold expire
        rw [start]
    rw [ended]
    subst noTimers
    refine ⟨rfl, ?_, [], represents⟩
    simp
  | cons index rest inductionHypothesis =>
    obtain ⟨start, tail⟩ := represents.linked
    obtain ⟨notInRest, restNodup⟩ :=
      List.nodup_cons.mp represents.nodup
    cases timers with
    | nil =>
      have same := represents.same_length
      exact absurd same (Nat.succ_ne_zero _)
    | cons timer others =>
      have contents := represents.contents
      rw [List.map_cons, List.map_cons, List.cons.injEq] at contents
      obtain ⟨first, restContents⟩ := contents
      have jiffies : (state.node index).jiffies = timer.1 :=
        congrArg Prod.fst first
      have fn : (state.node index).fn = some timer.2 :=
        congrArg Prod.snd first
      cases fuel with
      | zero =>
        exact absurd enough (Nat.not_succ_le_zero _)
      | succ fuel =>
        unfold expire
        rw [start]
        simp only [jiffies, fn]
        by_cases due : timer.1 ≤ 0
        · have front : expires timer = true :=
            decide_eq_true due
          rw [if_pos due, List.takeWhile_cons_of_pos front,
            List.dropWhile_cons_of_pos front]
          obtain ⟨removed, removedShape⟩ :
              ∃ removed, removed =
                State.call timer.2
                  { state.setNode index
                      { jiffies := timer.1, fn := none,
                        next := (state.node index).next } with
                    nextTimer := (state.node index).next } :=
            ⟨_, rfl⟩
          rw [← removedShape]
          have untouched (other : Nat) (different : other ≠ index) :
              removed.node other = state.node other := by
            rw [removedShape]
            exact Function.update_of_ne different _ _
          have atIndex : (removed.node index).fn = none := by
            rw [removedShape]
            unfold State.call State.setNode
            simp only
            rw [Function.update_self]
          have notIndex (other : Nat) (member : other ∈ rest) :
              other ≠ index := by
            rintro rfl
            exact notInRest member
          have still : Represents removed rest others := by
            refine ⟨?_, restNodup, ?_, ?_, ?_⟩
            · have nextTimer :
                  removed.nextTimer = state.next index := by
                rw [removedShape]
                rfl
              rw [nextTimer]
              apply tail.congr
              intro other member
              unfold State.next
              rw [untouched other (notIndex other member)]
            · intro other
              by_cases same : other = index
              · subst same
                refine ⟨fun member => absurd member notInRest, ?_⟩
                rintro ⟨_, used⟩
                exact absurd atIndex used
              · rw [untouched other same, ← represents.used]
                constructor
                · exact List.mem_cons_of_mem _
                · intro member
                  exact (List.mem_cons.mp member).resolve_left same
            · rw [← restContents]
              apply List.map_congr_left
              intro other member
              unfold State.contents
              rw [untouched other (notIndex other member)]
            · intro other beyond
              by_cases same : other = index
              · rw [same]
                exact atIndex
              · rw [untouched other same]
                exact represents.free other beyond
          obtain ⟨ticks, called, nodes', represents'⟩ :=
            inductionHypothesis still (Nat.le_of_succ_le_succ enough)
          have sameTicks : removed.ticks = state.ticks := by
            rw [removedShape]
            rfl
          have oneCall :
              removed.called =
                state.called ++ [(state.ticks, timer.2)] := by
            rw [removedShape]
            rfl
          refine ⟨ticks.trans sameTicks, ?_, nodes', represents'⟩
          rw [called, oneCall, sameTicks, List.map_cons, List.append_assoc]
          rfl
        · have stays : ¬ expires timer = true :=
            fun front => due (of_decide_eq_true front)
          rw [if_neg due, List.takeWhile_cons_of_neg stays,
            List.dropWhile_cons_of_neg stays]
          refine ⟨rfl, ?_, _, represents⟩
          simp

/-- The first timer is a tick nearer. -/
def count : List (Int × α) → List (Int × α)
  | [] => []
  | first :: rest => (first.1 - 1, first.2) :: rest

/-- A tick calls the timers that it makes expire. -/
theorem ticked
    (represents : Represents state nodes timers)
    (bounded : timers.length ≤ timeRequests) :
    (doTimer state).ticks = state.ticks + 1 ∧
      (doTimer state).called =
        state.called ++
          ((count timers).takeWhile expires).map
            (fun timer => (state.ticks + 1, timer.2)) ∧
      ∃ nodes', Represents (doTimer state) nodes'
        ((count timers).dropWhile expires) := by
  obtain ⟨later, laterShape⟩ :
      ∃ later : State α, later = { state with ticks := state.ticks + 1 } :=
    ⟨_, rfl⟩
  have sameStart : later.nextTimer = state.nextTimer := by
    rw [laterShape]
  have sameNode : later.node = state.node := by
    rw [laterShape]
  have ticks : later.ticks = state.ticks + 1 := by
    rw [laterShape]
  have called : later.called = state.called := by
    rw [laterShape]
  unfold doTimer
  simp only
  rw [← laterShape, ← sameStart, ← sameNode]
  have still : Represents later nodes timers := by
    refine ⟨?_, represents.nodup, ?_, ?_, ?_⟩
    · rw [sameStart]
      apply represents.linked.congr
      intro index _
      unfold State.next
      rw [sameNode]
    · rw [sameNode]
      exact represents.used
    · rw [← represents.contents]
      apply List.map_congr_left
      intro index _
      unfold State.contents
      rw [sameNode]
    · rw [sameNode]
      exact represents.free
  cases nodes with
  | nil =>
    have noTimers : timers = [] := by
      have same := represents.same_length
      exact List.eq_nil_of_length_eq_zero same.symm
    have start : later.nextTimer = none := still.linked
    subst noTimers
    rw [start]
    refine ⟨ticks, ?_, [], still⟩
    rw [called]
    simp [count]
  | cons index rest =>
    obtain ⟨start, tail⟩ := still.linked
    obtain ⟨notInRest, _⟩ := List.nodup_cons.mp represents.nodup
    cases timers with
    | nil =>
      have same := represents.same_length
      exact absurd same (Nat.succ_ne_zero _)
    | cons timer others =>
      have contents := still.contents
      rw [List.map_cons, List.map_cons, List.cons.injEq] at contents
      obtain ⟨first, restContents⟩ := contents
      have jiffies : (later.node index).jiffies = timer.1 :=
        congrArg Prod.fst first
      have fn : (later.node index).fn = some timer.2 :=
        congrArg Prod.snd first
      rw [start]
      simp only
      obtain ⟨counted, countedShape⟩ :
          ∃ counted : State α, counted =
            later.setNode index
              { later.node index with
                jiffies := (later.node index).jiffies - 1 } :=
        ⟨_, rfl⟩
      rw [← countedShape]
      have sameFn (other : Nat) :
          (counted.node other).fn = (later.node other).fn := by
        rw [countedShape]
        unfold State.setNode
        simp only
        by_cases same : other = index
        · rw [same, Function.update_self]
        · rw [Function.update_of_ne same]
      have links : counted.next = later.next := by
        rw [countedShape]
        exact next_setNode rfl
      have nextTimer : counted.nextTimer = later.nextTimer := by
        rw [countedShape]
        rfl
      have nearer :
          Represents counted (index :: rest) (count (timer :: others)) := by
        refine ⟨?_, still.nodup, ?_, ?_, ?_⟩
        · rw [links, nextTimer]
          exact still.linked
        · intro other
          rw [sameFn]
          exact still.used other
        · rw [count, List.map_cons, List.map_cons, ← restContents]
          congr 1
          · rw [countedShape, contents_setNode_self]
            simp only
            rw [jiffies, fn]
          · apply List.map_congr_left
            intro other member
            have different : other ≠ index := by
              rintro rfl
              exact notInRest member
            rw [countedShape, contents_setNode_of_ne different]
        · intro other beyond
          rw [sameFn]
          exact still.free other beyond
      have enough : (index :: rest).length ≤ timeRequests := by
        rw [represents.same_length]
        exact bounded
      have result := expired nearer enough
      have countedTicks : counted.ticks = state.ticks + 1 := by
        rw [countedShape]
        exact ticks
      have countedCalled : counted.called = state.called := by
        rw [countedShape]
        exact called
      rw [countedTicks, countedCalled] at result
      exact result

end Operations

end Timers

end HitOs
