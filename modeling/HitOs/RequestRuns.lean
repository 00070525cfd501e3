import HitOs.RequestLocks

namespace HitOs

/-!
# Runs of block requests

What each turn of `ll_rw_block` does to the slots and the locks, and from that what
holds in every run, whatever the interrupts do.
-/

namespace Requests

open Routine

variable {ι β : Type} [DecidableEq ι] [DecidableEq β]

/-- A routine returns with the invariant, and no request is lost. -/
def Holds
    (lists : Nat → List Nat)
    (state : State ι β)
    (routine : Routine (State ι β) Unit) : Prop :=
  ∃ lists' after,
    routine state = .ret () after ∧
    Held lists' none none none after ∧
    Follows lists state lists' after

namespace Holds

variable {lists lists' : Nat → List Nat} {state middle : State ι β}
variable {current : ι} {point : Point β} {hand : Option β}

/-- The rest of a turn after a part of it. -/
theorem after
    {α : Type} {value : α}
    {first : Routine (State ι β) α} {next : α → Routine (State ι β) Unit}
    (ran : first state = .ret value middle)
    (follows : Follows lists state lists' middle)
    (rest : Holds lists' middle (next value)) :
    Holds lists state (first >>= next) := by
  obtain ⟨lists'', after, ran', held, follows'⟩ := rest
  refine ⟨lists'', after, ?_, held, follows.trans follows'⟩
  rw [bind_of_ret ran]
  exact ran'

/-- The end of a turn. -/
theorem goto
    (held : Held lists (some current) hand none state)
    (keeps :
      ∀ major transfer bh, point = .searching major transfer bh → hand = some bh) :
    Holds lists state (update (State.goto current point)) :=
  ⟨lists, _, rfl, held.goto keeps⟩

end Holds

section Resumed

variable {state : State ι β} {current : ι} {bh : β} {major transfer : Nat}
variable {driven : Nat → Bool} {arrivals : Arrivals}

theorem perform_of_locking
    {rwAhead : Bool}
    (point : state.point current = .locking major transfer rwAhead bh) :
    (Action.resume current arrivals).perform driven state =
      lockRequest current arrivals major transfer rwAhead bh state := by
  have reads : (read : Routine (State ι β) _) state = .ret state state := rfl
  rw [Action.perform, bind_of_ret reads, point]

theorem perform_of_searching
    (point : state.point current = .searching major transfer bh) :
    (Action.resume current arrivals).perform driven state =
      searchRequest current arrivals major transfer false bh state := by
  have reads : (read : Routine (State ι β) _) state = .ret state state := rfl
  rw [Action.perform, bind_of_ret reads, point]

end Resumed

namespace Held

variable {lists : Nat → List Nat} {state after : State ι β}
variable {current : ι} {bh : β} {major transfer : Nat} {rwAhead : Bool}

/-- The turn unlocks its buffer and returns. -/
theorem unlockAndReturn
    (held : Held lists (some current) (some bh) none state) :
    Holds lists state (do
      update (State.setLock bh false)
      update (State.goto current .user)) := by
  obtain ⟨held, follows⟩ := held.unlock
  exact .after rfl follows (.goto held nofun)

theorem searchRequest
    (arrivals : Arrivals)
    (held : Held lists (some current) (some bh) none state) :
    Holds lists state
      (Requests.searchRequest current arrivals major transfer rwAhead bh) := by
  unfold Requests.searchRequest
  obtain ⟨lists₁, found, state₁, ran, held, follows, _, result⟩ :=
    held.findRequest arrivals.searching
      (if transfer = Rw.read then nrRequest else nrRequest * 2 / 3)
  refine .after ran follows ?_
  cases found with
  | none =>
    cases rwAhead with
    | true => exact held.unlockAndReturn
    | false =>
      refine .goto held ?_
      rintro _ _ _ ⟨⟩
      rfl
  | some req =>
    obtain ⟨below, empty⟩ := result req rfl
    have inTable : req < nrRequest := by
      split at below
      · exact below
      · exact Nat.lt_of_lt_of_le below (by decide)
    have allowed : transfer = Rw.read ∨ req < nrRequest * 2 / 3 := by
      split at below
      · rename_i reads
        exact Or.inl reads
      · exact Or.inr below
    have nowhere := held.unlisted empty
    obtain ⟨lists₂, state₂, ran, held, follows, spares, _⟩ :=
      held.interrupts arrivals.found
    refine .after ran follows ?_
    have empty : (state₂.request req).dev < 0 := by
      rw [(spares req nowhere).2]
      exact empty
    obtain ⟨held, follows⟩ := held.fill bh inTable empty allowed
    refine .after rfl follows ?_
    have buffer : ((Requests.fill req transfer bh state₂).request req).bh = some bh :=
      congrArg Request.bh State.setRequest_self
    obtain ⟨lists₃, state₃, ran, held', follows, spares, _⟩ :=
      held.interrupts arrivals.filled
    refine .after ran follows ?_
    have buffer : (state₃.request req).bh = some bh := by
      rw [(spares req (held.apart req rfl)).2]
      exact buffer
    obtain ⟨lists₄, state₄, ran, held, follows, _⟩ :=
      held'.addRequest major inTable buffer
    exact .after ran follows (.goto held nofun)

theorem lockRequest
    (arrivals : Arrivals)
    (held : Held lists (some current) none none state) :
    Holds lists state
      (Requests.lockRequest current arrivals major transfer rwAhead bh) := by
  unfold Requests.lockRequest
  refine .after rfl (.of_same rfl rfl) ?_
  change Holds lists state
    (if (state.buffer bh).lock = true then _ else _)
  by_cases lock : (state.buffer bh).lock = true
  · rw [if_pos lock]
    exact .goto held nofun
  · rw [if_neg lock]
    obtain ⟨held, follows⟩ := held.lock (Bool.eq_false_of_not_eq_true lock)
    refine .after rfl follows ?_
    split
    · exact held.unlockAndReturn
    · exact held.searchRequest arrivals

end Held

namespace Held

variable {lists : Nat → List Nat} {state after : State ι β}
variable {current : ι} {bh : β} {major transfer : Nat}

/-- `make_request` panics, or keeps the invariant. -/
theorem makeRequest
    (current : ι)
    (arrivals : Arrivals)
    (held : Held lists none none none state) :
    (∃ message,
      Requests.makeRequest current arrivals major transfer bh state = .panic message) ∨
    Holds lists state
      (Requests.makeRequest current arrivals major transfer bh) := by
  have turn : Held lists (some current) none none state := held.start nofun
  unfold Requests.makeRequest
  by_cases ahead : transfer = Rw.readA ∨ transfer = Rw.writeA
  · refine Or.inr (.after rfl (.of_same rfl rfl) ?_)
    rw [if_pos ahead]
    split
    · exact ⟨lists, state, rfl, held, .of_same rfl rfl⟩
    · exact turn.lockRequest arrivals
  · by_cases unknown : transfer ≠ Rw.read ∧ transfer ≠ Rw.write
    · refine Or.inl ⟨"Bad block dev command, must be R/W/RA/WA", ?_⟩
      change (if transfer = Rw.readA ∨ transfer = Rw.writeA then _
        else if transfer ≠ Rw.read ∧ transfer ≠ Rw.write then _ else _ :
          Routine (State ι β) Unit) state = _
      rw [if_neg ahead, if_pos unknown]
      rfl
    · refine Or.inr (.after rfl (.of_same rfl rfl) ?_)
      rw [if_neg ahead, if_neg unknown]
      exact turn.lockRequest arrivals

/-- The step lemma. -/
theorem step
    {driven : Nat → Bool} {action : Action ι β}
    (held : Held lists none none none state)
    (stepped : (requestMachine driven).Step state action after) :
    ∃ lists', Held lists' none none none after ∧
      Follows lists state lists' after := by
  obtain ⟨enabled, ends⟩ := stepped.ends
  have finish {routine : Routine (State ι β) Unit}
      (holds : Holds lists state routine)
      (ends : (routine state).EndsIn after) :
      ∃ lists', Held lists' none none none after ∧
        Follows lists state lists' after := by
    obtain ⟨lists', last, ran, held, follows⟩ := holds
    rw [Outcome.eq_of_ends ran ends]
    exact ⟨lists', held, follows⟩
  cases action with
  | llRwBlock current transfer bh arrivals =>
    change (Requests.llRwBlock driven current arrivals transfer bh state).EndsIn
      after at ends
    change ((if nrBlkDev ≤ (state.buffer bh).dev / 256 ∨
        driven ((state.buffer bh).dev / 256) = false then _ else _ :
          Routine (State ι β) Unit) state).EndsIn after at ends
    split at ends
    · exact finish ⟨lists, state, rfl, held, .of_same rfl rfl⟩ ends
    · rcases held.makeRequest current arrivals with
        ⟨message, panicked⟩ | holds
      · rw [panicked] at ends
        rcases ends with ⟨_, never⟩ | never
        · cases never
        · cases never
      · exact finish holds ends
  | resume current arrivals =>
    change ((Action.resume current arrivals).perform driven
      state).EndsIn after at ends
    cases point : state.point current with
    | user => exact absurd point enabled
    | locking major transfer rwAhead bh =>
      rw [perform_of_locking point] at ends
      have turn : Held lists (some current) none none state :=
        held.start fun _ never => absurd never (Option.some_ne_none _).symm
      exact finish (turn.lockRequest arrivals) ends
    | searching major transfer bh =>
      rw [perform_of_searching point] at ends
      have turn : Held lists (some current) (some bh) none state :=
        held.start fun bh' same => by
          cases same
          exact ⟨major, transfer, point⟩
      exact finish (turn.searchRequest arrivals) ends
  | endRequest major uptodate =>
    obtain ⟨lists', last, ran, held, follows, _⟩ :=
      held.endRequest major uptodate
    exact finish ⟨lists', last, ran, held, follows⟩ ends
  | use bh head =>
    refine finish ⟨lists, state.setBuffer bh head, rfl, held.of_locks rfl rfl
      (held.locks_of_owns id (fun _ _ mine => mine)
        (fun _ _ _ _ _ same => same) fun owner bh' _ locked => ?_),
      .of_same rfl rfl⟩ ends
    change (Function.update state.buffer bh head bh').lock = true
    by_cases same : bh' = bh
    · subst same
      rw [Function.update_self]
      exact Eq.trans enabled locked
    · rwa [Function.update_of_ne same]

theorem of_initial
    {driven : Nat → Bool}
    (initial : (requestMachine driven).initial state) :
    Held (fun _ => []) none none none state := by
  obtain ⟨empty, idle, _, users⟩ := initial
  have nobody (owner : Owner ι) (bh : β) :
      ¬ Owns (fun _ => []) none none state owner bh := by
    cases owner with
    | slot slot =>
      rintro ⟨⟨_, member⟩, _⟩
      cases member
    | task task =>
      rintro ⟨_, major, transfer, point⟩
      cases (users task).symm.trans point
    | hand => exact nofun
  refine ⟨⟨idle, fun _ => List.nodup_nil, nofun, nofun⟩, nofun, ?_,
    fun owner bh mine => absurd mine (nobody owner bh),
    fun owner _ bh mine => absurd mine (nobody owner bh), ?_⟩
  · intro slot below
    rw [(empty slot below).1]
    refine iff_of_false (by decide) ?_
    rintro (⟨_, member⟩ | never)
    · cases member
    · cases never
  · intro slot below _ filled
    rw [(empty slot below).1] at filled
    exact absurd filled (by decide)

end Held

/-- Slots, lists and locks match. -/
structure Matched
    (lists : Nat → List Nat)
    (state : State ι β) : Prop where
  linked :
    ∀ major, Linked state.next (state.current major) (lists major)
  occupied :
    ∀ slot, slot < nrRequest →
      (0 ≤ (state.request slot).dev ↔ ∃ major, slot ∈ lists major)
  locked :
    ∀ major slot bh, slot ∈ lists major →
      (state.request slot).bh = some bh → (state.buffer bh).lock = true
  once :
    ∀ major slot major' slot' bh,
      slot ∈ lists major → slot' ∈ lists major' →
      (state.request slot).bh = some bh →
      (state.request slot').bh = some bh → major = major' ∧ slot = slot'
  reserved :
    ∀ slot, nrRequest * 2 / 3 ≤ slot → slot < nrRequest →
      0 ≤ (state.request slot).dev → (state.request slot).cmd ≠ Rw.write

theorem Held.matched
    {lists : Nat → List Nat} {state : State ι β}
    (held : Held lists none none none state) :
    Matched lists state := by
  refine ⟨held.listed.linked, fun slot below => ?_, ?_, ?_, ?_⟩
  · exact (held.occupied slot below).trans (or_iff_left nofun)
  · intro major slot bh member buffer
    exact held.locked (.slot slot) bh ⟨⟨major, member⟩, buffer⟩
  · intro major slot major' slot' bh member member' buffer buffer'
    have same := held.alone (.slot slot) (.slot slot') bh
      ⟨⟨major, member⟩, buffer⟩ ⟨⟨major', member'⟩, buffer'⟩
    cases same
    exact ⟨held.listed.apart major major' slot member member', rfl⟩
  · intro slot reserved below filled
    rw [held.reads slot below reserved filled]
    decide

/--
Slots, lists and locks match in every reachable state; and whatever happens after that,
a request stays in its list with its buffer, which stays locked, until it has ended.
-/
theorem slots_match_locks
    {driven : Nat → Bool} {state : State ι β}
    (reached : (requestMachine driven).Reachable state) :
    ∃ lists, Matched lists state ∧
      ∀ actions last,
        Traces
          (fun action before after =>
            (requestMachine driven).Step before action after)
          actions state last →
        ∃ lists' completed, Matched lists' last ∧
          last.completed = state.completed ++ completed ∧
          ∀ major, ∀ slot ∈ lists major,
            slot ∈ completed ∨
              slot ∈ lists' major ∧
                (last.request slot).bh = (state.request slot).bh := by
  have invariant : ∃ lists, Held lists none none none state := by
    induction reached with
    | start initial => exact ⟨_, .of_initial initial⟩
    | step _ stepped inductionHypothesis =>
      obtain ⟨lists, held⟩ := inductionHypothesis
      obtain ⟨lists', held', _⟩ := held.step stepped
      exact ⟨lists', held'⟩
  obtain ⟨lists, held⟩ := invariant
  refine ⟨lists, held.matched, fun actions last run => ?_⟩
  have kept (action : Action ι β) (before after : State ι β)
      (holding :
        ∃ lists', Held lists' none none none before ∧ Follows lists state lists' before)
      (stepped : (requestMachine driven).Step before action after) :
      ∃ lists', Held lists' none none none after ∧
        Follows lists state lists' after := by
    obtain ⟨lists', held', follows⟩ := holding
    obtain ⟨lists'', held'', follows'⟩ := held'.step stepped
    exact ⟨lists'', held'', follows.trans follows'⟩
  obtain ⟨lists', held', ⟨completed, grown, stay⟩⟩ :=
    run.invariant kept ⟨lists, held, .of_same rfl rfl⟩
  exact ⟨lists', completed, held'.matched, grown, stay⟩

/-- A disk that has nothing to do. -/
def idleDisk : State Nat Nat where
  request _ := { dev := -1, cmd := 0, sector := 0, bh := none, next := none }
  current _ := none
  buffer bh :=
    { dev := 0x301
      blocknr := bh
      uptodate := false
      dirt := false
      lock := false }
  point _ := .user
  completed := []

def noArrivals : Arrivals where
  searching _ := []
  found := []
  filled := []

def isUser : Point Nat → Bool
  | .user => true
  | _ => false

/-- Which actions are tried below, where they can happen. -/
def isEnabled (action : Action Nat Nat) (state : State Nat Nat) : Bool :=
  match action with
  | .llRwBlock current _ _ _ => isUser (state.point current)
  | .resume current _ => !isUser (state.point current)
  | .endRequest _ _ => true
  | .use _ _ => false

theorem enabled_of_isEnabled
    (action : Action Nat Nat)
    (state : State Nat Nat)
    (passed : isEnabled action state = true) :
    action.Enabled state := by
  cases action with
  | llRwBlock current rw bh arrivals =>
    unfold Action.Enabled
    cases point : state.point current <;> simp_all [isEnabled, isUser]
  | resume current arrivals =>
    unfold Action.Enabled
    cases point : state.point current <;> simp_all [isEnabled, isUser]
  | endRequest major uptodate => trivial
  | use bh head => cases passed

/-- Task 1 reads two blocks, and task 2 waits for the first one. -/
def twoReads : List (Action Nat Nat) :=
  [.llRwBlock 1 Rw.read 5 noArrivals, .llRwBlock 1 Rw.read 6 noArrivals,
    .llRwBlock 2 Rw.read 5 noArrivals]

/-- The first read fails, and task 2 tries again. -/
def readAgain : List (Action Nat Nat) :=
  [.endRequest 3 false, .resume 2 noArrivals]

/-- The second request stays while the first one ends and its sleeper makes it again. -/
theorem slots_match_locks_read :
    ∃ state last : State Nat Nat, ∃ lists lists',
      (requestMachine fun _ => true).Reachable state ∧
        isUser (state.point 2) = false ∧
        Traces
          (fun action before after =>
            (requestMachine fun _ => true).Step before action after)
          readAgain state last ∧
        last.completed = [31] ∧ Matched lists state ∧ Matched lists' last ∧
        ∃ major, 30 ∈ lists major ∧ 30 ∈ lists' major := by
  have passed :
      (((requestMachine fun _ => true).follow isEnabled twoReads idleDisk).any
        fun state =>
          decide (0 ≤ (state.request 30).dev) && state.completed == [] &&
            !isUser (state.point 2) &&
            ((requestMachine fun _ => true).follow isEnabled readAgain state).any
              fun last => last.completed == [31]) = true := by
    decide +kernel
  obtain ⟨state, followed, test⟩ := (Option.any_eq_true _ _).mp passed
  simp only [Bool.and_eq_true, decide_eq_true_iff, beq_iff_eq, Bool.not_eq_true',
    Option.any_eq_true] at test
  obtain ⟨⟨⟨filled, nothing⟩, sleeps⟩, last, goesOn, ended⟩ := test
  have initial : (requestMachine fun _ => true).initial idleDisk :=
    ⟨fun _ _ => ⟨rfl, rfl⟩, fun _ => rfl, fun _ => rfl, fun _ => rfl⟩
  have reached : (requestMachine fun _ => true).Reachable state :=
    .follow enabled_of_isEnabled (.start initial) followed
  have run :
      Traces
        (fun action before after =>
          (requestMachine fun _ => true).Step before action after)
        readAgain state last :=
    (Machine.traces_of_follow
      (fun action state passed => ⟨enabled_of_isEnabled action state passed, trivial⟩)
      goesOn).mono fun _ _ _ stepped => stepped.1
  obtain ⟨lists, matched, stays⟩ := slots_match_locks reached
  obtain ⟨lists', completed, matched', grown, kept⟩ := stays readAgain last run
  obtain ⟨major, member⟩ := (matched.occupied 30 (by decide)).mp filled
  rw [ended, nothing, List.nil_append] at grown
  have notEnded : 30 ∉ completed := grown ▸ by decide
  exact ⟨state, last, lists, lists', reached, sleeps, run, ended, matched, matched',
    major, member, ((kept major 30 member).resolve_left notEnded).1⟩

end Requests

end HitOs
