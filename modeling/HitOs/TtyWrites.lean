import HitOs.PageWord
import HitOs.TerminalSteps
import HitOs.Traces

namespace HitOs

/-!
# Writers of several terminals

`tty_write` with its one `cr_flag` for all terminals and tasks.  A task runs until it
sleeps in `sleep_if_full` or calls `schedule`; then any other task may go on.  What
`tty->write` and the interrupts make of a `write_q` is a step of its own.  On its
terminal a task does what `TerminalSteps` has (`State.On.go`, `State.On.fill`).
-/

namespace TtyWrites

open Terminals

/-- Where a call of `tty_write` is. -/
inductive Point where
  /-- At `while (nr>0)`. -/
  | looping
  /-- In the loop of `sleep_if_full`. -/
  | sleeping
  /-- At the test of the inner loop. -/
  | filling
deriving DecidableEq

/-- A call of `tty_write` with the bytes that are not yet consumed. -/
structure Call where
  channel : Nat
  rest : List Byte
  point : Point
deriving DecidableEq

/--
`termios` and `writeQ` are those of each channel.  What is put and consumed, and whether
a carriage return has been put for a line feed that is not consumed, is not in the
source.
-/
structure State (ι : Type) where
  crFlag : Bool
  termios : Nat → Termios
  writeQ : Nat → Queue
  call : ι → Option Call
  running : Option ι
  put : Nat → List Byte
  consumed : Nat → List Byte
  pending : Nat → Bool

inductive Action (ι : Type) where
  /-- A task calls `tty_write`. -/
  | call (current : ι) (channel : Nat) (buf : List Byte)
  /-- A task goes on that has slept or called `schedule`. -/
  | resume (current : ι)
  /-- The task that runs goes on; whether it has a signal, and a bit for `toupper`. -/
  | go (signal stray : Bool)
  /-- A queue is changed by its terminal. -/
  | drain (channel : Nat) (queue : Queue)

variable {ι : Type} [DecidableEq ι]

namespace State

def setCall
    (current : ι)
    (call : Option Call)
    (state : State ι) : State ι :=
  { state with call := Function.update state.call current call }

def setRunning (running : Option ι) (state : State ι) : State ι :=
  { state with running := running }

/-- `PUTCH` to the `write_q` of a channel. -/
def putch (channel : Nat) (c : Byte) (state : State ι) : State ι :=
  { state with
    writeQ := Function.update state.writeQ channel
      ((state.writeQ channel).putch c)
    put := Function.update state.put channel (state.put channel ++ [c]) }

/-- The call is over. -/
def returns (current : ι) (state : State ι) : State ι :=
  (state.setCall current none).setRunning none

/-- The call waits at a point. -/
def waits (current : ι) (call : Call) (state : State ι) : State ι :=
  (state.setCall current (some call)).setRunning none

/-- One round of the inner loop, which puts a byte and may consume one. -/
def fill
    (current : ι)
    (channel : Nat)
    (c : Byte)
    (rest : List Byte)
    (stray : Bool)
    (state : State ι) : State ι :=
  let termios := state.termios channel
  if termios.returns state.crFlag c then
    { state.putch channel 13 with
      crFlag := true
      pending := Function.update state.pending channel true }
  else
    { (state.putch channel (termios.written stray c)).setCall current
        (some ⟨channel, rest, .filling⟩) with
      crFlag := false
      consumed := Function.update state.consumed channel
        (state.consumed channel ++ [c])
      pending := Function.update state.pending channel false }

/-- What the running task does next. -/
def go
    (current : ι)
    (call : Call)
    (signal stray : Bool)
    (state : State ι) : State ι :=
  let queue := state.writeQ call.channel
  match call.point, call.rest with
  | .looping, [] => state.returns current
  | .looping, _ :: _ =>
    if queue.full then
      state.setCall current (some { call with point := .sleeping })
    else if signal then
      state.returns current
    else
      state.setCall current (some { call with point := .filling })
  | .sleeping, _ =>
    if !signal && queue.left < 128 then
      state.waits current call
    else if signal then
      state.returns current
    else
      state.setCall current (some { call with point := .filling })
  | .filling, [] => state.returns current
  | .filling, c :: rest =>
    if queue.full then
      state.waits current { call with point := .looping }
    else
      state.fill current call.channel c rest stray

/-- A step, if it is possible. -/
def next (action : Action ι) (state : State ι) : Option (State ι) :=
  match action, state.running with
  | .call current channel buf, none =>
    if state.call current = none ∧ channel ≤ 2 then
      some ((state.setCall current
        (some ⟨channel, buf, .looping⟩)).setRunning (some current))
    else
      none
  | .resume current, none =>
    if (state.call current).isSome then
      some (state.setRunning (some current))
    else
      none
  | .go signal stray, some current =>
    (state.call current).map fun call => state.go current call signal stray
  | .drain channel queue, _ =>
    some { state with
      writeQ := Function.update state.writeQ channel queue }
  | _, _ => none

/-- The step relation. -/
def Step (action : Action ι) (before after : State ι) : Prop :=
  before.next action = some after

/-- Nothing has been written yet; the queues may hold anything. -/
structure Initial (state : State ι) : Prop where
  crFlag : state.crFlag = false
  call : ∀ task, state.call task = none
  running : state.running = none
  put : ∀ channel, state.put channel = []
  consumed : ∀ channel, state.consumed channel = []
  pending : ∀ channel, state.pending channel = false

end State

/-! ## A writer of one terminal -/

/-- The call as the routines of one terminal have it. -/
def Call.one (call : Call) : Terminals.Call :=
  match call.point with
  | .looping => .writing call.rest
  | .sleeping => .fullSleeping call.rest
  | .filling => .filling call.rest

/-- A terminal of `TerminalSteps` is that of a channel, where a task writes. -/
structure State.On
    (state : State ι)
    (current : ι)
    (channel : Nat)
    (one : Terminals.State) : Prop where
  termios : one.tty.termios = state.termios channel
  writeQ : one.tty.writeQ = state.writeQ channel
  crFlag : one.crFlag = state.crFlag
  put : one.history.put = state.put channel
  call : one.call = (state.call current).map Call.one

section One

variable {state : State ι} {current : ι} {channel : Nat} {one : Terminals.State}

theorem State.On.setCall
    (on : state.On current channel one)
    (call : Option Call) :
    (state.setCall current call).On current channel (one.setCall (call.map Call.one)) where
  termios := on.termios
  writeQ := on.writeQ
  crFlag := on.crFlag
  put := on.put
  call := by
    change _ = (Function.update state.call current call current).map Call.one
    rw [Function.update_self]
    rfl

theorem State.On.returns (on : state.On current channel one) :
    (state.returns current).On current channel (one.setCall none) :=
  have ended := on.setCall none
  ⟨ended.termios, ended.writeQ, ended.crFlag, ended.put, ended.call⟩

omit [DecidableEq ι] in
theorem State.On.putch
    (on : state.On current channel one)
    (c : Byte) :
    (state.putch channel c).On current channel (one.putWrite c) where
  termios := on.termios
  writeQ := by simp [State.putch, Terminals.State.putWrite, on.writeQ]
  crFlag := on.crFlag
  put := by simp [State.putch, Terminals.State.putWrite, on.put]
  call := on.call

/-- The tests of `write_q` are those of the terminal, unless the task sleeps on. -/
theorem State.On.go
    {call : Call} {signal : Bool}
    (on : state.On current call.channel one)
    (tests : call.point ≠ .filling)
    (awake :
      call.point = .sleeping →
        signal = true ∨ 128 ≤ (state.writeQ call.channel).left)
    (stray : Bool) :
    (state.go current call signal stray).On current call.channel
      (one.goCall signal stray call.one) := by
  obtain ⟨channel, rest, point⟩ := call
  have writeQ := on.writeQ
  dsimp only at writeQ
  cases point with
  | looping =>
    cases rest with
    | nil => exact on.returns
    | cons c rest =>
      simp only [State.go, Terminals.State.goCall, Call.one, writeQ]
      split
      · exact on.setCall (some ⟨channel, c :: rest, .sleeping⟩)
      · split
        · exact on.returns
        · exact on.setCall (some ⟨channel, c :: rest, .filling⟩)
  | sleeping =>
    have stirs :
        ¬((!signal && decide ((state.writeQ channel).left < 128)) = true) := by
      rcases awake rfl with rfl | roomy
      · simp
      · simp [Nat.not_lt.mpr roomy]
    simp only [State.go, Terminals.State.goCall, Call.one, writeQ, if_neg stirs]
    split
    · exact on.returns
    · exact on.setCall (some ⟨channel, rest, .filling⟩)
  | filling => exact absurd rfl tests

/-- A round of the inner loop is the test and the `PUTCH` of the terminal. -/
theorem State.On.fill
    {c : Byte} {rest : List Byte}
    (on : state.On current channel one)
    (calls : state.call current = some ⟨channel, c :: rest, .filling⟩)
    (room : (state.writeQ channel).full = false)
    (signal stray : Bool) :
    (state.go current ⟨channel, c :: rest, .filling⟩ signal stray).On current channel
      ((one.goCall signal stray (.filling (c :: rest))).goCall signal stray
        (.fetching c rest)) := by
  have roomy : one.tty.writeQ.full = false := by
    rw [on.writeQ]
    exact room
  simp only [State.go, Terminals.State.goCall, room, roomy, Bool.false_eq_true, if_false,
    State.fill, Terminals.State.fill]
  have sameTermios : (one.setCall (some (.fetching c rest))).tty.termios =
      state.termios channel := on.termios
  have sameFlag : (one.setCall (some (.fetching c rest))).crFlag = state.crFlag :=
    on.crFlag
  rw [sameTermios, sameFlag]
  split
  · have put := on.putch 13
    refine ⟨put.termios, put.writeQ, rfl, put.put, ?_⟩
    change _ = (state.call current).map Call.one
    rw [calls]
    rfl
  · have put := (on.putch ((state.termios channel).written stray c)).setCall
      (some ⟨channel, rest, .filling⟩)
    exact ⟨put.termios, put.writeQ, rfl, put.put, put.call⟩

end One

/-! ## Newlines -/

/-- `OPOST` and `ONLCR`, and no flag that changes other characters. -/
structure Newlines (termios : Termios) : Prop where
  opost : termios.opost = true
  onlcr : termios.onlcr = true
  ocrnl : termios.ocrnl = false
  onlret : termios.onlret = false
  olcuc : termios.olcuc = false

/-- Bytes with every line feed replaced by a carriage return and a line feed. -/
def expand (bytes : List Byte) : List Byte :=
  bytes.flatMap fun c => if c = 10 then [13, 10] else [c]

namespace State

/--
What is put to each terminal are the bytes consumed, expanded, and one carriage return
if its last call has stopped between it and the line feed.
-/
def Expanded (state : State ι) : Prop :=
  ∀ channel,
    state.put channel = expand (state.consumed channel) ++
      if state.pending channel then [13] else []

/--
`cr_flag` is set for a line feed just if its carriage return has been put to the same
terminal, and nothing else comes between the two.
-/
def TellsTruth (channel : Nat) (c : Byte) (state : State ι) : Prop :=
  if c = 10 then
    state.crFlag = state.pending channel
  else
    state.pending channel = false

/-- The next byte of the call, if a step takes one. -/
def taken (current : ι) (state : State ι) : Option (Nat × Byte) :=
  match state.call current with
  | some ⟨channel, c :: _, .filling⟩ =>
    if (state.writeQ channel).full then none else some (channel, c)
  | _ => none

end State

/-- The condition on a step: `cr_flag` is right for the byte that is taken. -/
def Action.Careful (action : Action ι) (state : State ι) : Prop :=
  match action, state.running with
  | .go _ _, some current =>
    match state.taken current with
    | some (channel, c) => state.TellsTruth channel c
    | none => True
  | _, _ => True

instance {action : Action ι} {state : State ι} :
    Decidable (action.Careful state) := by
  unfold Action.Careful State.TellsTruth
  split
  · split <;> infer_instance
  · infer_instance

theorem expand_feed (bytes : List Byte) :
    expand (bytes ++ [10#8]) = expand bytes ++ [13#8, 10#8] := by
  unfold expand
  rw [List.flatMap_append, List.flatMap_singleton]
  rfl

theorem expand_other {c : Byte} (other : c ≠ 10) (bytes : List Byte) :
    expand (bytes ++ [c]) = expand bytes ++ [c] := by
  unfold expand
  rw [List.flatMap_append, List.flatMap_singleton, if_neg other]

namespace Newlines

variable {termios : Termios}

theorem output
    (newlines : Newlines termios)
    (c : Byte) :
    termios.output c = c := by
  simp [Termios.output, newlines.ocrnl, newlines.onlret]

theorem returns
    (newlines : Newlines termios)
    (crFlag : Bool)
    (c : Byte) :
    termios.returns crFlag c = true ↔ c = 10 ∧ crFlag = false := by
  simp [Termios.returns, newlines.output, newlines.opost, newlines.onlcr]

theorem written
    (newlines : Newlines termios)
    (stray : Bool)
    (c : Byte) :
    termios.written stray c = c := by
  simp [Termios.written, newlines.output, newlines.opost, newlines.olcuc]

end Newlines

namespace State

variable {state : State ι} {current : ι} {channel : Nat} {call : Call} {c : Byte}
variable {rest : List Byte} {signal stray : Bool}

/-- What one round of the inner loop keeps, if `cr_flag` tells the truth. -/
theorem Expanded.fill
    (expanded : state.Expanded)
    (newlines : Newlines (state.termios channel))
    (truth : state.TellsTruth channel c) :
    (state.fill current channel c rest stray).Expanded := by
  intro other
  have before := expanded other
  unfold TellsTruth at truth
  unfold State.fill
  dsimp only
  by_cases same : other = channel
  · subst same
    split
    case isTrue returns =>
      obtain ⟨rfl, flag⟩ := (newlines.returns _ _).mp returns
      rw [if_pos rfl, flag] at truth
      rw [← truth] at before
      simpa [State.putch] using before
    case isFalse stays =>
      rw [newlines.returns, not_and, Bool.not_eq_false] at stays
      by_cases feed : c = 10
      · subst feed
        rw [if_pos rfl, stays rfl] at truth
        rw [← truth] at before
        simp [State.putch, State.setCall, expand_feed, newlines.written, before]
      · rw [if_neg feed] at truth
        rw [truth] at before
        simp [State.putch, State.setCall, expand_other feed, newlines.written, before]
  · split
    · simpa [State.putch, same] using before
    · simpa [State.putch, State.setCall, same] using before

/-- Otherwise it puts what no expansion has. -/
theorem not_expanded_fill
    (expanded : state.Expanded)
    (newlines : Newlines (state.termios channel))
    (lie : ¬state.TellsTruth channel c) :
    ¬(state.fill current channel c rest stray).Expanded := by
  intro later
  have before := expanded channel
  have after := later channel
  unfold TellsTruth at lie
  unfold State.fill at after
  dsimp only at after
  split at after
  case isTrue returns =>
    obtain ⟨rfl, flag⟩ := (newlines.returns _ _).mp returns
    rw [if_pos rfl, flag, eq_comm, Bool.not_eq_false] at lie
    rw [lie] at before
    simp [State.putch, before] at after
  case isFalse stays =>
    rw [newlines.returns, not_and, Bool.not_eq_false] at stays
    by_cases feed : c = 10
    · subst feed
      rw [if_pos rfl, stays rfl, eq_comm, Bool.not_eq_true] at lie
      rw [lie] at before
      simp [State.putch, State.setCall, expand_feed, newlines.written, before]
        at after
    · rw [if_neg feed, Bool.not_eq_false] at lie
      rw [lie] at before
      simp [State.putch, State.setCall, expand_other feed, newlines.written,
        before] at after

/-- The running task takes the byte that it is to take. -/
theorem go_of_taken
    (calls : state.call current = some call)
    (taken : state.taken current = some (channel, c)) :
    ∃ rest,
      state.go current call signal stray =
        state.fill current channel c rest stray := by
  obtain ⟨channel', rest, point⟩ := call
  unfold State.taken at taken
  rw [calls] at taken
  split at taken
  · rename_i channel' c' rest' shape
    cases shape
    split at taken
    case isTrue =>
      cases taken
    case isFalse room =>
      cases taken
      exact ⟨rest', if_neg room⟩
  · cases taken

/-- What is put and consumed changes only when a byte is taken. -/
theorem go_of_not_taken
    (calls : state.call current = some call)
    (taken : state.taken current = none)
    (signal stray : Bool) :
    let after := state.go current call signal stray
    after.put = state.put ∧ after.consumed = state.consumed ∧
      after.pending = state.pending := by
  obtain ⟨channel, rest, point⟩ := call
  unfold State.taken at taken
  rw [calls] at taken
  unfold State.go
  dsimp only
  split
  · exact ⟨rfl, rfl, rfl⟩
  · split_ifs <;> exact ⟨rfl, rfl, rfl⟩
  · split_ifs <;> exact ⟨rfl, rfl, rfl⟩
  · exact ⟨rfl, rfl, rfl⟩
  · dsimp only at taken
    split at taken
    case isTrue full =>
      rw [if_pos full]
      exact ⟨rfl, rfl, rfl⟩
    case isFalse =>
      cases taken

theorem go_termios :
    (state.go current call signal stray).termios = state.termios := by
  unfold State.go State.fill
  dsimp only
  split
  · rfl
  · split_ifs <;> rfl
  · split_ifs <;> rfl
  · rfl
  · split_ifs <;> rfl

omit [DecidableEq ι] in
theorem Expanded.congr
    {before after : State ι}
    (expanded : before.Expanded)
    (put : after.put = before.put)
    (consumed : after.consumed = before.consumed)
    (pending : after.pending = before.pending) :
    after.Expanded := by
  intro channel
  rw [put, consumed, pending]
  exact expanded channel

end State

/-- What a step does: it takes a byte, or changes nothing that is put or consumed. -/
theorem State.Step.cases
    {action : Action ι}
    {before after : State ι}
    (stepped : State.Step action before after) :
    after.termios = before.termios ∧
      ((after.put = before.put ∧ after.consumed = before.consumed ∧
          after.pending = before.pending ∧ action.Careful before) ∨
        ∃ signal stray current channel c rest,
          action = .go signal stray ∧ before.running = some current ∧
            before.taken current = some (channel, c) ∧
            after = before.fill current channel c rest stray) := by
  unfold State.Step State.next at stepped
  split at stepped
  · split at stepped
    · cases stepped
      exact ⟨rfl, .inl ⟨rfl, rfl, rfl, by unfold Action.Careful; trivial⟩⟩
    · cases stepped
  · split at stepped
    · cases stepped
      exact ⟨rfl, .inl ⟨rfl, rfl, rfl, by unfold Action.Careful; trivial⟩⟩
    · cases stepped
  · rename_i signal stray current running
    obtain ⟨call, calls, rfl⟩ := Option.map_eq_some_iff.mp stepped
    refine ⟨State.go_termios, ?_⟩
    cases taken : before.taken current with
    | none =>
      obtain ⟨put, consumed, pending⟩ :=
        State.go_of_not_taken calls taken signal stray
      refine .inl ⟨put, consumed, pending, ?_⟩
      unfold Action.Careful
      rw [running]
      dsimp only
      rw [taken]
      trivial
    | some byte =>
      obtain ⟨channel, c⟩ := byte
      obtain ⟨rest, same⟩ := State.go_of_taken calls taken
      exact .inr ⟨signal, stray, current, channel, c, rest, rfl, running, taken, same⟩
  · cases stepped
    exact ⟨rfl, .inl ⟨rfl, rfl, rfl, by unfold Action.Careful; trivial⟩⟩
  · cases stepped

/-! ## Runs -/

/-- The state of a run: what is put is expanded, by the flags of all terminals. -/
structure Sound (state : State ι) : Prop where
  newlines : ∀ channel, Newlines (state.termios channel)
  expanded : state.Expanded

theorem Sound.step
    {action : Action ι}
    {before after : State ι}
    (sound : Sound before)
    (stepped : State.Step action before after)
    (careful : action.Careful before) :
    Sound after := by
  obtain ⟨termios, shape⟩ := stepped.cases
  refine ⟨fun channel => termios ▸ sound.newlines channel, ?_⟩
  rcases shape with ⟨put, consumed, pending, _⟩ |
    ⟨signal, stray, current, channel, c, rest, rfl, running, taken, rfl⟩
  · exact sound.expanded.congr put consumed pending
  · unfold Action.Careful at careful
    rw [running] at careful
    dsimp only at careful
    rw [taken] at careful
    exact sound.expanded.fill (sound.newlines channel) careful

theorem not_expanded_of_step
    {action : Action ι}
    {before after : State ι}
    (sound : Sound before)
    (stepped : State.Step action before after)
    (careless : ¬action.Careful before) :
    ¬after.Expanded := by
  obtain ⟨_, shape⟩ := stepped.cases
  rcases shape with ⟨_, _, _, careful⟩ |
    ⟨signal, stray, current, channel, c, rest, rfl, running, taken, rfl⟩
  · exact absurd careful careless
  · refine State.not_expanded_fill sound.expanded (sound.newlines channel)
      fun truth => careless ?_
    unfold Action.Careful
    rw [running]
    dsimp only
    rw [taken]
    exact truth

/--
Along a run what is put to each terminal is what has been consumed with its line feeds
expanded, if and only if `cr_flag` is right for every byte that a step takes.
-/
theorem newlines_expanded_iff
    {actions : List (Action ι)}
    {state last : State ι}
    (initial : state.Initial)
    (newlines : ∀ channel, Newlines (state.termios channel))
    (run : Traces State.Step actions state last) :
    Traces.Along State.Step State.Expanded actions state last ↔
      Traces
        (fun action before after =>
          State.Step action before after ∧ action.Careful before)
        actions state last := by
  have start : Sound state := by
    refine ⟨newlines, fun channel => ?_⟩
    rw [initial.put, initial.consumed, initial.pending]
    rfl
  refine run.along_iff ?_ ?_ ?_ ?_ start
  · intro action before first second stepped again
    exact Option.some.inj (stepped.symm.trans again)
  · exact fun _ sound => sound.expanded
  · exact fun _ _ _ sound stepped careful => sound.step stepped careful
  · exact fun _ _ _ sound stepped careless =>
      not_expanded_of_step sound stepped careless

/-- Two tasks, before they write to terminals with the same queue. -/
def start (queue : Queue) : State Bool :=
  { crFlag := false
    termios := fun _ => initTermios
    writeQ := fun _ => queue
    call := fun _ => none
    running := none
    put := fun _ => []
    consumed := fun _ => []
    pending := fun _ => false }

theorem start_initial (queue : Queue) : (start queue).Initial :=
  ⟨rfl, fun _ => rfl, rfl, fun _ => rfl, fun _ => rfl, fun _ => rfl⟩

theorem start_newlines (queue : Queue) (channel : Nat) :
    Newlines ((start queue).termios channel) :=
  ⟨rfl, rfl, rfl, rfl, rfl⟩

/-- A line feed that is written to an empty queue. -/
theorem newlines_expanded_line :
    let queue : Queue := ⟨0, 0, 0, fun _ => 0⟩
    let actions : List (Action Bool) :=
      [.call false 1 [10], .go false false, .go false false, .go false false]
    ∃ last,
      Traces.Along State.Step State.Expanded actions (start queue) last ∧
        last.put 1 = [13, 10] := by
  intro queue actions
  have passed :
      (Traces.runIf State.next
        (fun action state => decide (action.Careful state))
        actions (start queue)).any
          (fun last => decide (last.put 1 = [13, 10])) = true := by
    decide
  obtain ⟨last, run, written⟩ :=
    Traces.exists_of_decide passed
  have steps : Traces State.Step actions (start queue) last :=
    run.mono fun _ _ _ stepped => stepped.1
  exact ⟨last,
    (newlines_expanded_iff (start_initial queue) (start_newlines queue)
      steps).mpr run,
    written⟩

/--
A task stops behind the carriage return of a terminal with one free place; then a line
feed goes to another terminal as it is.
-/
theorem newline_not_expanded :
    ∃ (state last : State Bool) (actions : List (Action Bool)),
      state.Initial ∧ (∀ channel, Newlines (state.termios channel)) ∧
        Traces State.Step actions state last ∧ last.put 2 = [10] ∧
        ¬last.Expanded := by
  have passed :
      (Traces.runIf State.next (fun _ _ => true)
        ([.call false 1 [10], .go false false, .go false false,
          .go false false, .drain 2 ⟨0, 0, 0, fun _ => 0⟩, .call true 2 [10],
          .go false false, .go false false] : List (Action Bool))
        (start ⟨0, 1022, 0, fun _ => 0⟩)).any
          (fun last =>
            decide (last.put 2 = [10] ∧ last.consumed 2 = [10] ∧
              last.pending 2 = false)) = true := by
    decide
  obtain ⟨last, run, written⟩ := Traces.exists_of_run passed
  obtain ⟨put, consumed, pending⟩ := of_decide_eq_true written
  refine ⟨_, last, _, start_initial _, start_newlines _, run, put, fun expanded => ?_⟩
  have expansion := expanded 2
  rw [put, consumed, pending] at expansion
  exact absurd expansion (by decide)

end TtyWrites

end HitOs
