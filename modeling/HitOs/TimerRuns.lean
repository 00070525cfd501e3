import HitOs.Timers
import HitOs.Traces

namespace HitOs

/-!
# When timers are called

`add_timer` subtracts the time of the timers in front of the new one, but not
the new one's time from the timer behind it.  A run in which every timer is
added behind all others calls each exactly in time.
-/

namespace Timers

open Routine

variable {α : Type}

/-- The timers, and for each `add_timer` so far the tick it asked for. -/
structure Session (α : Type) where
  state : State α
  registered : List (Int × α)

/-- The two operations of a run. -/
inductive Action (α : Type) where
  | add (jiffies : Int) (fn : α)
  | tick

/-- One operation; `add_timer` has returned. -/
inductive Session.Does
    (session : Session α) : Action α → Session α → Prop where
  | add
      {jiffies : Int} {fn : α} {after : State α}
      (positive : 0 < jiffies)
      (outcome :
        addTimer jiffies (some fn) session.state = .ret () after) :
      Does session (.add jiffies fn)
        { state := after
          registered :=
            session.registered ++ [(session.state.ticks + jiffies, fn)] }
  | tick :
      Does session .tick { session with state := doTimer session.state }

/-- No timer is in use. -/
def Session.Starts (session : Session α) : Prop :=
  (∀ index, (session.state.node index).fn = none) ∧
    session.state.nextTimer = none ∧ session.state.called = [] ∧ session.registered = []

/--
The claim about a state: each timer whose tick has come was called once, on that
tick, and nothing else was called.
-/
def Session.OnTime (session : Session α) : Prop :=
  session.state.called.Perm
    (session.registered.filter fun timer =>
      decide (timer.1 ≤ session.state.ticks))

/-- A timer is added behind all that are outstanding. -/
def Session.Latest (session : Session α) : Action α → Prop
  | .add jiffies _ =>
    ∀ timer ∈ session.registered,
      session.state.ticks < timer.1 → timer.1 < session.state.ticks + jiffies
  | .tick => True

/-- An operation that adds no timer in front of another. -/
def Session.DoesBehind
    (action : Action α)
    (session next : Session α) : Prop :=
  session.Latest action ∧ session.Does action next

/-- The ticks at which the timers of a list expire, counted from `ticks`. -/
def dues (ticks : Int) : List (Int × α) → List (Int × α)
  | [] => []
  | timer :: rest => (ticks + timer.1, timer.2) :: dues (ticks + timer.1) rest

/-- The invariant of runs that add behind. -/
structure Session.Punctual (session : Session α) : Prop where
  list :
    ∃ nodes timers, Represents session.state nodes timers ∧
      (∀ timer ∈ timers, 0 < timer.1) ∧
      (dues session.state.ticks timers).Perm
        (session.registered.filter fun timer =>
          decide (session.state.ticks < timer.1))
  onTime :
    session.OnTime

theorem starts_punctual
    {session : Session α}
    (starts : session.Starts) :
    session.Punctual := by
  obtain ⟨free, start, noCall, nothing⟩ := starts
  have represents : Represents session.state [] [] := by
    refine ⟨start, List.nodup_nil, ?_, rfl, fun index _ => free index⟩
    intro index
    simp [free]
  refine ⟨⟨[], [], represents, ?_, ?_⟩, ?_⟩
  · intro timer member
    cases member
  · rw [nothing]
    exact .refl _
  · unfold Session.OnTime
    rw [noCall, nothing]
    exact .refl _

/-! ## Adding behind all others -/

section Lists

variable {ticks : Int} {timers : List (Int × α)}

/-- The last of the timers expires when it was asked to. -/
theorem dues_insert
    (timers : List (Int × α)) :
    ∀ (ticks jiffies : Int) (fn : α),
      (∀ timer ∈ dues ticks timers, timer.1 < ticks + jiffies) →
        dues ticks (insert (jiffies, fn) timers) =
          dues ticks timers ++ [(ticks + jiffies, fn)] := by
  induction timers with
  | nil =>
    intro ticks jiffies fn _
    rfl
  | cons first rest inductionHypothesis =>
    intro ticks jiffies fn before
    have firstBefore : first.1 < jiffies := by
      have bound := before _ List.mem_cons_self
      simp only at bound
      omega
    have restBefore :
        ∀ timer ∈ dues (ticks + first.1) rest,
          timer.1 < ticks + first.1 + (jiffies - first.1) := by
      intro timer member
      have bound := before timer (List.mem_cons_of_mem _ member)
      omega
    have tail :=
      inductionHypothesis (ticks + first.1) (jiffies - first.1) fn
        restBefore
    have target :
        ticks + first.1 + (jiffies - first.1) = ticks + jiffies := by
      omega
    rw [insert, if_pos firstBefore, dues, tail, target, dues, List.cons_append]

/-- The deltas stay positive when the new timer comes last. -/
theorem positive_insert
    (timers : List (Int × α)) :
    ∀ (jiffies : Int) (fn : α),
      0 < jiffies →
      (∀ timer ∈ timers, 0 < timer.1) →
        ∀ timer ∈ insert (jiffies, fn) timers, 0 < timer.1 := by
  induction timers with
  | nil =>
    intro jiffies fn positive _ timer member
    rw [insert, List.mem_singleton] at member
    rw [member]
    exact positive
  | cons first rest inductionHypothesis =>
    intro jiffies fn positive all timer member
    rw [insert] at member
    split at member
    · rename_i before
      rcases List.mem_cons.mp member with rfl | inRest
      · exact all _ List.mem_cons_self
      · refine inductionHypothesis (jiffies - first.1) fn ?_
          (fun other inside => all other (List.mem_cons_of_mem _ inside))
          timer inRest
        change first.1 < jiffies at before
        omega
    · rcases List.mem_cons.mp member with rfl | inRest
      · exact positive
      · exact all timer inRest

/-- Timers with positive deltas expire after `ticks`. -/
theorem dues_after
    (timers : List (Int × α)) :
    ∀ ticks : Int, (∀ timer ∈ timers, 0 < timer.1) →
      ∀ timer ∈ dues ticks timers, ticks < timer.1 := by
  induction timers with
  | nil =>
    intro ticks _ timer member
    cases member
  | cons first rest inductionHypothesis =>
    intro ticks positive timer member
    have firstPositive := positive first List.mem_cons_self
    rcases List.mem_cons.mp member with rfl | inRest
    · simp only
      omega
    · have later :=
        inductionHypothesis (ticks + first.1)
          (fun other inside =>
            positive other (List.mem_cons_of_mem _ inside))
          timer inRest
      omega

end Lists

/-! ## A tick -/

/-- What a tick calls and what it leaves, in terms of the ticks asked for. -/
theorem dues_tick
    {timers : List (Int × α)}
    (ticks : Int)
    (positive : ∀ timer ∈ timers, 0 < timer.1) :
    (((count timers).takeWhile expires).map
          (fun timer => (ticks + 1, timer.2)) =
        (dues ticks timers).filter
          fun timer => decide (timer.1 ≤ ticks + 1)) ∧
      dues (ticks + 1) ((count timers).dropWhile expires) =
        ((dues ticks timers).filter
          fun timer => decide (ticks + 1 < timer.1)) ∧
      ∀ timer ∈ (count timers).dropWhile expires, 0 < timer.1 := by
  cases timers with
  | nil =>
    exact ⟨rfl, rfl, fun _ member => nomatch member⟩
  | cons first rest =>
    have firstPositive := positive first List.mem_cons_self
    have restPositive : ∀ timer ∈ rest, 0 < timer.1 :=
      fun other inside => positive other (List.mem_cons_of_mem _ inside)
    have restLater := dues_after rest (ticks + first.1) restPositive
    have noneNow :
        (dues (ticks + first.1) rest).filter
          (fun timer => decide (timer.1 ≤ ticks + 1)) = [] := by
      rw [List.filter_eq_nil_iff]
      intro timer member
      have later := restLater timer member
      rw [decide_eq_true_iff]
      omega
    have allLater :
        (dues (ticks + first.1) rest).filter
            (fun timer => decide (ticks + 1 < timer.1)) =
          dues (ticks + first.1) rest := by
      rw [List.filter_eq_self]
      intro timer member
      have later := restLater timer member
      rw [decide_eq_true_iff]
      omega
    rw [count, dues]
    by_cases due : first.1 - 1 ≤ 0
    · have one : first.1 = 1 := by
        omega
      have front : expires (first.1 - 1, first.2) = true :=
        decide_eq_true due
      have stops : ∀ timer ∈ rest, expires timer = false := by
        intro timer member
        have later := restPositive timer member
        exact decide_eq_false (by omega)
      have noMore : rest.takeWhile expires = [] := by
        cases rest with
        | nil =>
          rfl
        | cons second others =>
          apply List.takeWhile_cons_of_neg
          rw [stops second List.mem_cons_self]
          decide
      have keeps : rest.dropWhile expires = rest := by
        cases rest with
        | nil =>
          rfl
        | cons second others =>
          apply List.dropWhile_cons_of_neg
          rw [stops second List.mem_cons_self]
          decide
      rw [List.takeWhile_cons_of_pos front,
        List.dropWhile_cons_of_pos front, noMore, keeps,
        List.filter_cons_of_pos (by simp [one]),
        List.filter_cons_of_neg (by simp [one]), noneNow, allLater, one]
      exact ⟨rfl, rfl, restPositive⟩
    · have stays : ¬ expires (first.1 - 1, first.2) = true :=
        fun front => due (of_decide_eq_true front)
      have same : ticks + 1 + (first.1 - 1) = ticks + first.1 := by
        omega
      rw [List.takeWhile_cons_of_neg stays,
        List.dropWhile_cons_of_neg stays, List.filter_cons,
        List.filter_cons, noneNow, allLater, dues, same]
      simp only [decide_eq_true_eq]
      rw [if_neg (by omega), if_pos (by omega)]
      refine ⟨rfl, rfl, ?_⟩
      intro timer member
      rcases List.mem_cons.mp member with rfl | inRest
      · simp only
        omega
      · exact restPositive timer inRest

/-- The timers of the next tick, out of those of all later ticks. -/
theorem filter_tick
    (ticks : Int)
    (registered : List (Int × α)) :
    (registered.filter fun timer => decide (timer.1 ≤ ticks + 1)).Perm
      ((registered.filter fun timer => decide (timer.1 ≤ ticks)) ++
        (registered.filter fun timer => decide (ticks < timer.1)).filter
          fun timer => decide (timer.1 ≤ ticks + 1)) := by
  induction registered with
  | nil =>
    exact .refl _
  | cons first rest inductionHypothesis =>
    simp only [List.filter_cons, decide_eq_true_eq]
    by_cases past : first.1 ≤ ticks
    · rw [if_pos (by omega), if_pos past, if_neg (by omega),
        List.cons_append]
      exact inductionHypothesis.cons first
    · by_cases now : first.1 ≤ ticks + 1
      · rw [if_pos now, if_neg past, if_pos (by omega),
          List.filter_cons_of_pos (by simpa using now)]
        exact (inductionHypothesis.cons first).trans
          List.perm_middle.symm
      · rw [if_neg now, if_neg past, if_pos (by omega),
          List.filter_cons_of_neg (by simpa using now)]
        exact inductionHypothesis

/-- The timers beyond the next tick. -/
theorem filter_later
    (ticks : Int)
    (registered : List (Int × α)) :
    ((registered.filter fun timer => decide (ticks < timer.1)).filter
        fun timer => decide (ticks + 1 < timer.1)) =
      registered.filter fun timer => decide (ticks + 1 < timer.1) := by
  rw [List.filter_filter]
  apply List.filter_congr
  intro timer _
  rw [← Bool.decide_and]
  apply decide_eq_decide.mpr
  omega

/-! ## Runs -/

/-- `add_timer` returns exactly when there is a free node. -/
theorem Represents.bounded
    {state : State α} {nodes : List Nat} {timers : List (Int × α)}
    (represents : Represents state nodes timers) :
    timers.length ≤ timeRequests := by
  have inside : nodes ⊆ List.range timeRequests := by
    intro index member
    exact List.mem_range.mpr ((represents.used index).mp member).1
  have few := (List.subperm_of_subset represents.nodup inside).length_le
  rw [List.length_range, represents.same_length] at few
  exact few

/-- A call of `add_timer` that returned had room. -/
theorem room_of_ret
    {state after : State α} {nodes : List Nat} {timers : List (Int × α)}
    {jiffies : Int} {fn : α}
    (represents : Represents state nodes timers)
    (positive : 0 < jiffies)
    (outcome : addTimer jiffies (some fn) state = .ret () after) :
    timers.length < timeRequests := by
  by_contra full
  have all : timers.length = timeRequests :=
    Nat.le_antisymm represents.bounded (Nat.not_lt.mp full)
  have noneFree : freeNode state = none := by
    by_contra isSome
    obtain ⟨p, found⟩ := Option.ne_none_iff_exists'.mp isSome
    obtain ⟨inArray, free⟩ := freeNode_some found
    have notUsed : p ∉ nodes := by
      rw [represents.used]
      exact fun used => used.2 free
    have inside : p :: nodes ⊆ List.range timeRequests := by
      intro index member
      rcases List.mem_cons.mp member with rfl | inNodes
      · exact List.mem_range.mpr inArray
      · exact List.mem_range.mpr ((represents.used index).mp inNodes).1
    have few :=
      (List.subperm_of_subset
        (List.nodup_cons.mpr ⟨notUsed, represents.nodup⟩)
        inside).length_le
    rw [List.length_range, List.length_cons, represents.same_length] at few
    omega
  have stops :
      (addTimer jiffies (some fn)).Ensures state fun _ _ => False := by
    unfold addTimer
    simp only
    rw [if_neg (Int.not_le.mpr positive), ensures_read_bind, noneFree]
    exact ensures_panic _
  exact stops () after outcome

theorem punctual_does
    {session next : Session α} {action : Action α}
    (punctual : session.Punctual)
    (latest : session.Latest action)
    (does : session.Does action next) :
    next.Punctual := by
  obtain ⟨⟨nodes, timers, represents, positive, outstanding⟩, onTime⟩ :=
    punctual
  cases does with
  | add asked outcome =>
    rename_i jiffies fn after
    have room := room_of_ret represents asked outcome
    have adds :
        (addTimer jiffies (some fn)).Satisfies session.state _
          (fun _ => True) :=
      satisfies_addTimer represents asked room
    obtain ⟨sameTicks, sameCalls, nodes', represents'⟩ :=
      adds.of_ret outcome
    have behind :
        ∀ timer ∈ dues session.state.ticks timers,
          timer.1 < session.state.ticks + jiffies := by
      intro timer member
      have inside := outstanding.mem_iff.mp member
      rw [List.mem_filter, decide_eq_true_iff] at inside
      exact latest timer inside.1 inside.2
    refine ⟨⟨nodes', _, represents',
      positive_insert timers jiffies fn asked positive, ?_⟩, ?_⟩
    · simp only [sameTicks]
      rw [dues_insert timers _ jiffies fn behind, List.filter_append]
      have kept :
          [(session.state.ticks + jiffies, fn)].filter
              (fun timer => decide (session.state.ticks < timer.1)) =
            [(session.state.ticks + jiffies, fn)] := by
        rw [List.filter_cons]
        simp only [decide_eq_true_eq]
        rw [if_pos (by omega)]
        rfl
      rw [kept]
      exact outstanding.append_right _
    · unfold Session.OnTime at onTime ⊢
      simp only [sameTicks, sameCalls]
      rw [List.filter_append]
      have dropped :
          [(session.state.ticks + jiffies, fn)].filter
              (fun timer => decide (timer.1 ≤ session.state.ticks)) =
            [] := by
        rw [List.filter_cons]
        simp only [decide_eq_true_eq]
        rw [if_neg (by omega)]
        rfl
      rw [dropped, List.append_nil]
      exact onTime
  | tick =>
    obtain ⟨sameTicks, calls, nodes', represents'⟩ :=
      ticked represents represents.bounded
    obtain ⟨called, left, leftPositive⟩ :=
      dues_tick session.state.ticks positive
    refine ⟨⟨nodes', _, represents', leftPositive, ?_⟩, ?_⟩
    · simp only [sameTicks]
      rw [left]
      exact (outstanding.filter _).trans
        (.of_eq (filter_later session.state.ticks session.registered))
    · unfold Session.OnTime at onTime ⊢
      simp only [sameTicks]
      rw [calls, called]
      exact (onTime.append (outstanding.filter _)).trans
        (filter_tick session.state.ticks session.registered).symm

/--
In every run in which each timer is added behind all that are outstanding, every
timer is called once, on the tick it asked for, and no call is unasked for.
-/
theorem onTime_of_latest
    {actions : List (Action α)} {start session : Session α}
    (starts : start.Starts)
    (run : Traces Session.DoesBehind actions start session) :
    session.OnTime := by
  have punctual : session.Punctual :=
    run.invariant
      (fun _ _ _ punctual stepped =>
        punctual_does punctual stepped.1 stepped.2)
      (starts_punctual starts)
  exact punctual.onTime

/-! ## A timer added in front of another -/

/-- No timer, at tick 0. -/
def idle : Session Nat where
  state :=
    { node := fun _ => { jiffies := 0, fn := none, next := none }
      nextTimer := none
      ticks := 0
      called := [] }
  registered := []

theorem idle_starts : idle.Starts :=
  ⟨fun _ => rfl, rfl, rfl, rfl⟩

/-- `count` ticks. -/
def tickTimes : Nat → State Nat → State Nat
  | 0, state => state
  | count + 1, state => tickTimes count (doTimer state)

theorem traces_ticks
    (count : Nat) :
    ∀ session : Session Nat,
      Traces (fun action before after => Session.Does before action after)
        (List.replicate count .tick) session
        { session with state := tickTimes count session.state } := by
  induction count with
  | zero =>
    intro session
    exact .done session
  | succ count inductionHypothesis =>
    intro session
    exact .next .tick (inductionHypothesis _)

/-- The timers of two calls of `add_timer`, after some ticks. -/
def twoTimers (first second : Int) (test : State Nat → Bool) : Bool :=
  (addTimer first (some 1) idle.state).passes fun _ state =>
    state.ticks == 0 &&
    (addTimer second (some 2) state).passes fun _ later => test later

/-- The run behind a test of two timers, which asked for their ticks at tick 0. -/
theorem traces_twoTimers
    {first second : Int} {test : State Nat → Bool}
    (firstPositive : 0 < first)
    (secondPositive : 0 < second)
    (passed : twoTimers first second test = true) :
    ∃ middle later,
      Session.Does idle (.add first 1) middle ∧
        Session.Does middle (.add second 2)
          { state := later, registered := [(first, 1), (second, 2)] } ∧
        middle.state.ticks = 0 ∧ middle.registered = [(first, 1)] ∧
        test later = true := by
  unfold twoTimers at passed
  simp only [Outcome.passes_iff, Bool.and_eq_true, beq_iff_eq] at passed
  obtain ⟨_, state, addedFirst, start, _, later, addedSecond, passed⟩ :=
    passed
  have firstDoes : Session.Does idle (.add first 1) _ :=
    .add firstPositive addedFirst
  have secondDoes :
      Session.Does
        { state := state, registered := idle.registered ++
            [(idle.state.ticks + first, 1)] }
        (.add second 2) _ :=
    .add secondPositive addedSecond
  have firstTick : idle.state.ticks + first = first :=
    Int.zero_add first
  have secondTick : state.ticks + second = second := by
    rw [start]
    exact Int.zero_add second
  rw [firstTick] at firstDoes secondDoes
  simp only [secondTick] at secondDoes
  exact ⟨_, later, firstDoes, secondDoes, start, rfl, passed⟩

/-- A timer for tick 5, one for tick 3 in front of it, and five ticks. -/
theorem not_onTime :
    idle.Starts ∧ ∃ actions session,
      Traces (fun action before after => Session.Does before action after)
          actions idle session ∧
        ¬ session.OnTime := by
  obtain ⟨middle, later, first, second, _, _, passed⟩ :=
    traces_twoTimers (by decide) (by decide)
      (show twoTimers 5 3 (fun later =>
          (tickTimes 5 later).ticks == 5 &&
          (tickTimes 5 later).called == [(3, 2)]) = true by
        decide +kernel)
  simp only [Bool.and_eq_true, beq_iff_eq] at passed
  refine ⟨idle_starts, _, _, .next first (.next second (traces_ticks 5 _)), ?_⟩
  intro onTime
  have same := onTime.length_eq
  simp only [passed.1, passed.2] at same
  exact absurd same (by decide)

/-- A timer for tick 3, one for tick 5 behind it, and five ticks. -/
theorem onTime_of_latest_behind :
    ∃ (actions : List (Action Nat)) (session : Session Nat),
      Traces Session.DoesBehind actions idle session ∧
        session.registered = [(3, 1), (5, 2)] ∧ session.OnTime := by
  obtain ⟨middle, later, first, second, ticks, registered, _⟩ :=
    traces_twoTimers (by decide) (by decide)
      (show twoTimers 3 5 (fun _ => true) = true by decide +kernel)
  have latest : middle.Latest (.add 5 2) := by
    intro timer member _
    rw [registered, List.mem_singleton] at member
    rw [member, ticks]
    decide
  have nothing : idle.Latest (.add 3 1) := by
    intro timer member _
    cases member
  have firstBehind : Session.DoesBehind (.add 3 1) idle middle :=
    ⟨nothing, first⟩
  have secondBehind :
      Session.DoesBehind (.add 5 2) middle
        { state := later, registered := [(3, 1), (5, 2)] } :=
    ⟨latest, second⟩
  have ticking :
      Session.DoesBehind .tick
        { state := later, registered := [(3, 1), (5, 2)] } _ :=
    ⟨trivial, .tick⟩
  have run :=
    Traces.next firstBehind (.next secondBehind (.next ticking (.done _)))
  exact ⟨_, _, run, rfl, onTime_of_latest idle_starts run⟩

end Timers

end HitOs
