import HitOs.PageWord
import HitOs.TaskTable
import HitOs.TerminalSteps

namespace HitOs

/-!
# The alarm of a read

`tty_read` uses the alarm of its caller as the timer between two characters.  The alarm
that the caller has had is stored back at the end, but not where the call returns at an
end-of-file character, and as it was at the start even if it has come due since.  The
signal of the timer is taken back at one place only, the head of the loop.  Without the
alarm the call is one of `TerminalSteps` (`State.On.go`).
-/

namespace ReadAlarms

open Tasks (Task bit sigAlrm)
open Terminals (Byte Termios Queue isChar)

/-- Where `tty_read` returns. -/
inductive Exit where
  /-- At its first line. -/
  | rejected
  /-- At an end-of-file character. -/
  | eof
  /-- Behind `current->alarm = oldalarm`. -/
  | restored
  deriving Repr, DecidableEq

/-- Where a call of `tty_read` is. -/
inductive Point where
  /-- At `while (nr>0)`. -/
  | looping
  /-- In the loop of `sleep_if_empty`. -/
  | sleeping
  /-- Before `GETCH`. -/
  | getting
  /-- In `put_fs_byte`, which can sleep as well. -/
  | putting (c : Byte)
  | done (exit : Exit) (result : Int)
  deriving Repr, DecidableEq

/-- The caller, its terminal and the variables of `tty_read`. -/
structure State where
  task : Task
  jiffies : Nat
  termios : Termios
  secondary : Queue
  nr : Nat
  /-- The bytes from `buf` to `b`. -/
  buf : List Byte
  minimum : Nat
  time : Nat
  flag : Bool
  oldalarm : Int
  point : Point
  /-- When `schedule` has looked at the alarm of the caller, the last time first. -/
  looks : List Nat

namespace State

/-- `time+jiffies` -/
def due (state : State) : Int :=
  ((state.time + state.jiffies : Nat) : Int)

/-- `!oldalarm || time+jiffies<oldalarm` -/
def sooner (state : State) : Bool :=
  decide (state.oldalarm = 0 ∨ state.due < state.oldalarm)

/-- `current->alarm = alarm` -/
def setAlarm (alarm : Int) (state : State) : State :=
  { state with task := { state.task with alarm := alarm } }

def setPoint (point : Point) (state : State) : State :=
  { state with point := point }

/-- SIGALRM is pending for the caller. -/
def alarmed (state : State) : Bool :=
  state.task.signal.getLsbD sigAlrm.val

/-- What is behind the loop. -/
def finish (state : State) : State :=
  (state.setAlarm state.oldalarm).setPoint
    (.done .restored
      (if state.task.signal ≠ 0 ∧ state.buf = [] then -4 else state.buf.length))

/-- `if (time && !L_CANON(tty))` -/
def rearm (state : State) : State :=
  if state.time ≠ 0 ∧ state.termios.icanon = false then
    { state.setAlarm (if state.sooner then state.due else state.oldalarm) with
      flag := state.sooner }
  else
    state

/-- What is behind the inner loop. -/
def gotten (state : State) : State :=
  let state := state.rearm
  if state.termios.icanon then
    if state.buf ≠ [] then state.finish else state.setPoint .looping
  else
    if state.minimum ≤ state.buf.length then state.finish
    else state.setPoint .looping

/-- What `tty_read` does next. -/
def go (state : State) : State :=
  match state.point with
  | .looping =>
    if state.nr = 0 then
      state.finish
    else if state.flag ∧ state.task.signal &&& bit sigAlrm ≠ 0 then
      finish
        { state with
          task :=
            { state.task with
              signal := state.task.signal &&& ~~~bit sigAlrm } }
    else if state.task.signal ≠ 0 then
      state.finish
    else if state.secondary.empty || (state.termios.icanon &&
        state.secondary.data == 0 && 20 < state.secondary.left) then
      state.setPoint .sleeping
    else
      state.setPoint .getting
  | .sleeping =>
    if state.task.signal = 0 ∧ state.secondary.empty then
      state
    else
      state.setPoint .looping
  | .getting =>
    let c := state.secondary.first
    let state :=
      { state with secondary := state.termios.consume state.secondary }
    if isChar c state.termios.veof && state.termios.icanon then
      state.setPoint (.done .eof state.buf.length)
    else
      state.setPoint (.putting c)
  | .putting c =>
    let state := { state with nr := state.nr - 1, buf := state.buf ++ [c] }
    if state.nr ≠ 0 ∧ state.secondary.empty = false then
      state.setPoint .getting
    else
      state.gotten
  | .done _ _ => state

/--
What `tty_read` does next leads past the head of its loop: to the end, or to the head with
`flag` not set, where any signal ends the loop.
-/
def leaves (state : State) : Bool :=
  match state.point with
  | .getting => isChar state.secondary.first state.termios.veof && state.termios.icanon
  | .putting _ =>
    (decide (state.nr ≤ 1) || state.secondary.empty) &&
      !(!state.termios.icanon &&
        decide (state.buf.length + 1 < state.minimum) && state.rearm.flag)
  | .looping | .sleeping | .done _ _ => false

/-- The call can give up the processor. -/
def canSleep (state : State) : Bool :=
  match state.point with
  | .sleeping | .putting _ => true
  | .looping | .getting | .done _ _ => false

/-- `schedule` looks at the caller. -/
def look (state : State) : State :=
  { state with
    task := state.task.checkSignals state.jiffies
    looks := state.jiffies :: state.looks }

end State

/-- `tty_read` up to its loop, on the terminal of a channel. -/
def ttyRead
    (channel : Nat)
    (nr : Int)
    (task : Task)
    (jiffies : Nat)
    (termios : Termios)
    (secondary : Queue) : State :=
  let state : State :=
    { task := task
      jiffies := jiffies
      termios := termios
      secondary := secondary
      nr := nr.toNat
      buf := []
      minimum := termios.minimum nr.toNat
      time := 10 * termios.vtime.toNat
      flag := false
      oldalarm := task.alarm
      point := .looping
      looks := [] }
  if 2 < channel ∨ nr < 0 then
    state.setPoint (.done .rejected (-1))
  else if state.time ≠ 0 ∧ termios.vmin = 0 then
    if state.sooner then
      { state.setAlarm state.due with flag := true }
    else
      state
  else
    state

/-- What happens next: in `tty_read`, or around it. -/
inductive Event where
  | go
  /-- A timer tick. -/
  | tick
  /-- `schedule` looks at the caller, which does not run. -/
  | look
  | raise (signr : Fin 32)
  /-- Interrupts and other tasks use the queue. -/
  | input (queue : Queue)

def Event.perform (event : Event) (state : State) : Option State :=
  match event with
  | .go => some state.go
  | .tick => some { state with jiffies := state.jiffies + 1 }
  | .look => if state.canSleep then some state.look else none
  | .raise signr =>
    some
      { state with
        task := { state.task with signal := state.task.signal ||| bit signr } }
  | .input queue => some { state with secondary := queue }

def Step (event : Event) (before after : State) : Prop :=
  event.perform before = some after

/-! ## The call on its terminal -/

/-- The call as the routines of one terminal have it. -/
def State.call (state : State) : Option Terminals.Call :=
  match state.point with
  | .looping => some (.reading state.nr state.buf.length state.minimum)
  | .sleeping => some (.emptySleeping state.nr state.buf.length state.minimum)
  | .getting => some (.getting state.nr state.buf.length state.minimum)
  | .putting c => some (.storing c state.nr state.buf.length state.minimum)
  | .done _ _ => none

/-- The call runs on a terminal. -/
structure State.On (state : State) (one : Terminals.State) : Prop where
  termios : one.tty.termios = state.termios
  secondary : one.tty.secondary = state.secondary
  call : one.call = state.call

section Terminal

variable {state : State} {one : Terminals.State} {call : Terminals.Call}

theorem on_setCall
    (termios : one.tty.termios = state.termios)
    (secondary : one.tty.secondary = state.secondary) :
    state.On (one.setCall state.call) :=
  ⟨termios, secondary, rfl⟩

/-- The alarm does not change what is behind the inner loop. -/
theorem on_gotten
    (termios : one.tty.termios = state.termios)
    (secondary : one.tty.secondary = state.secondary)
    (gets : state.buf ≠ []) :
    state.gotten.On (one.setCall
      (if state.termios.icanon ∨ state.minimum ≤ state.buf.length then none
        else some (.reading state.nr state.buf.length state.minimum))) := by
  have same :
      state.rearm.termios = state.termios ∧ state.rearm.secondary = state.secondary ∧
        state.rearm.nr = state.nr ∧ state.rearm.buf = state.buf ∧
          state.rearm.minimum = state.minimum := by
    unfold State.rearm
    split <;> exact ⟨rfl, rfl, rfl, rfl, rfl⟩
  obtain ⟨sameTermios, sameSecondary, nr, buf, minimum⟩ := same
  rw [← sameTermios] at termios
  rw [← sameSecondary] at secondary
  have ends : state.rearm.finish.On (one.setCall none) := on_setCall termios secondary
  have goesOn : (state.rearm.setPoint .looping).On (one.setCall
      (some (.reading state.rearm.nr state.rearm.buf.length state.rearm.minimum))) :=
    on_setCall termios secondary
  rw [nr, buf, minimum] at goesOn
  unfold State.gotten
  simp only [sameTermios, buf, minimum, if_pos gets]
  cases state.termios.icanon with
  | true => exact ends
  | false =>
    by_cases enough : state.minimum ≤ state.buf.length
    · simp only [enough, Bool.false_eq_true, or_true, if_true, if_false]
      exact ends
    · simp only [enough, Bool.false_eq_true, or_self, if_false]
      exact goesOn

/-- What the call does next is what it does on its terminal, unless it sleeps. -/
theorem State.On.go
    (on : state.On one)
    (calls : state.call = some call)
    (awake : state.point = .sleeping → state.go.point ≠ .sleeping)
    (asks : 0 < state.nr)
    (stray : Bool) :
    state.go.On (one.goCall (decide (state.task.signal ≠ 0)) stray call) := by
  unfold State.call at calls
  unfold State.go at awake ⊢
  cases point : state.point with
  | looping =>
    rw [point] at calls
    cases calls
    have more : state.nr ≠ 0 := Nat.ne_of_gt asks
    simp only [Terminals.State.goCall, on.termios, on.secondary, if_neg more]
    by_cases signal : state.task.signal = 0
    · have unmarked : ¬(state.flag = true ∧ state.task.signal &&& bit sigAlrm ≠ 0) := by
        simp [signal]
      have goes : ¬(state.nr = 0 ∨ decide (state.task.signal ≠ 0) = true) := by
        simp [more, signal]
      rw [if_neg unmarked, if_neg (not_not.mpr signal), if_neg goes]
      split <;> exact on_setCall on.termios on.secondary
    · have ends : state.nr = 0 ∨ decide (state.task.signal ≠ 0) = true :=
        Or.inr (decide_eq_true signal)
      rw [if_pos ends, if_pos signal]
      split <;> exact on_setCall on.termios on.secondary
  | sleeping =>
    rw [point] at calls awake
    cases calls
    have wakes : ¬(state.task.signal = 0 ∧ state.secondary.empty = true) := fun both =>
      awake rfl (by simp only [if_pos both, point])
    have stirs :
        ¬((!decide (state.task.signal ≠ 0) && one.tty.secondary.empty) = true) := by
      rw [on.secondary]
      simpa using wakes
    simp only [Terminals.State.goCall, if_neg wakes, if_neg stirs]
    exact on_setCall on.termios on.secondary
  | getting =>
    rw [point] at calls
    cases calls
    simp only [Terminals.State.goCall, Terminals.State.get, on.termios, on.secondary]
    split <;> exact ⟨on.termios, rfl, rfl⟩
  | putting c =>
    rw [point] at calls
    cases calls
    let stored : State := { state with nr := state.nr - 1, buf := state.buf ++ [c] }
    have last : state.nr - 1 ≠ 0 ↔ state.nr ≠ 1 := by omega
    have longer : state.buf.length + 1 = stored.buf.length := by simp [stored]
    have gets : stored.buf ≠ [] := by simp [stored]
    simp only [Terminals.State.goCall, Terminals.State.stored, on.termios,
      on.secondary, last, longer, ← point]
    split
    · exact @on_setCall (stored.setPoint .getting) one on.termios on.secondary
    · exact @on_gotten stored one on.termios on.secondary gets
  | done exit result =>
    rw [point] at calls
    cases calls

end Terminal

/-! ## Alarms that are left alone -/

/-- What one look of `schedule` makes of an alarm. -/
def expire (alarm : Int) (time : Nat) : Int :=
  if alarm ≠ 0 ∧ alarm < time then 0 else alarm

/-- What looks make of an alarm that nothing else writes, the last look first. -/
def undisturbed (alarm : Int) (looks : List Nat) : Int :=
  looks.foldr (fun time alarm => expire alarm time) alarm

theorem alarm_checkSignals
    (time : Nat)
    (task : Task) :
    (task.checkSignals time).alarm = expire task.alarm time := by
  unfold Task.checkSignals expire
  dsimp only
  by_cases due : task.alarm ≠ 0 ∧ task.alarm < time
  · rw [if_pos due, if_pos due]
    split <;> rfl
  · rw [if_neg due, if_neg due]
    split <;> rfl

variable {alarm old first : Int} {looks : List Nat}

/--
What holds throughout a call that began with one alarm and then borrowed it as another:
in canonical mode nothing else writes it before the end.
-/
structure Kept (old first : Int) (state : State) : Prop where
  oldalarm :
    state.oldalarm = old
  rejected :
    ∀ result, state.point = .done .rejected result →
      state.task.alarm = old ∧ state.looks = []
  restored :
    ∀ result, state.point = .done .restored result → state.task.alarm = old
  eof :
    ∀ result, state.point = .done .eof result → state.termios.icanon = true
  canonical :
    state.termios.icanon = true →
      (∀ result, state.point ≠ .done .restored result) →
        state.task.alarm = undisturbed first state.looks

variable {state after : State} {event : Event}

def State.Runs (state : State) : Prop :=
  ∀ exit result, state.point ≠ .done exit result

/-- A call that goes on without a write to the alarm. -/
theorem Kept.moves
    (kept : Kept old first state)
    (runs : state.Runs)
    (oldalarm : after.oldalarm = state.oldalarm)
    (termios : after.termios = state.termios)
    (alarm : after.task.alarm = state.task.alarm)
    (looks : after.looks = state.looks)
    (runs' : after.Runs) :
    Kept old first after where
  oldalarm := oldalarm.trans kept.oldalarm
  rejected result same := absurd same (runs' _ result)
  restored result same := absurd same (runs' _ result)
  eof result same := absurd same (runs' _ result)
  canonical icanon _ := by
    rw [alarm, looks]
    rw [termios] at icanon
    exact kept.canonical icanon fun result => runs _ result

/-- In the other mode nothing is said of the alarm before the end. -/
theorem kept_raw
    (oldalarm : state.oldalarm = old)
    (raw : state.termios.icanon = false)
    (runs : state.Runs) :
    Kept old first state where
  oldalarm := oldalarm
  rejected result same := absurd same (runs _ result)
  restored result same := absurd same (runs _ result)
  eof result same := absurd same (runs _ result)
  canonical icanon := nomatch raw.symm.trans icanon

theorem kept_finish
    (oldalarm : state.oldalarm = old) :
    Kept old first state.finish where
  oldalarm := oldalarm
  rejected _ same := nomatch same
  restored _ _ := oldalarm
  eof _ same := nomatch same
  canonical _ other := absurd rfl (other _)

theorem oldalarm_rearm : state.rearm.oldalarm = state.oldalarm := by
  unfold State.rearm
  split <;> rfl

theorem termios_rearm : state.rearm.termios = state.termios := by
  unfold State.rearm
  split <;> rfl

theorem rearm_of_canonical
    (icanon : state.termios.icanon = true) :
    state.rearm = state := by
  unfold State.rearm
  rw [icanon, if_neg fun both => nomatch both.2]

theorem Kept.gotten
    (kept : Kept old first state)
    (runs : state.Runs) :
    Kept old first state.gotten := by
  unfold State.gotten
  dsimp only
  rw [termios_rearm]
  cases icanon : state.termios.icanon with
  | true =>
    rw [rearm_of_canonical icanon, if_pos rfl]
    split
    · exact kept_finish kept.oldalarm
    · exact kept.moves runs rfl rfl rfl rfl nofun
  | false =>
    have oldalarm : state.rearm.oldalarm = old :=
      oldalarm_rearm.trans kept.oldalarm
    have raw : state.rearm.termios.icanon = false := by
      rw [termios_rearm, icanon]
    rw [if_neg Bool.false_ne_true]
    split
    · exact kept_finish oldalarm
    · exact kept_raw (by exact oldalarm) (by exact raw) nofun

theorem Kept.go
    (kept : Kept old first state) :
    Kept old first state.go := by
  unfold State.go
  split
  case h_1 looping =>
    have runs : state.Runs := by
      intro exit result same
      cases looping.symm.trans same
    split
    · exact kept_finish kept.oldalarm
    split
    · exact kept_finish kept.oldalarm
    split
    · exact kept_finish kept.oldalarm
    split
    · exact kept.moves runs rfl rfl rfl rfl nofun
    · exact kept.moves runs rfl rfl rfl rfl nofun
  case h_2 sleeping =>
    have runs : state.Runs := by
      intro exit result same
      cases sleeping.symm.trans same
    split
    · exact kept
    · exact kept.moves runs rfl rfl rfl rfl nofun
  case h_3 getting =>
    have runs : state.Runs := by
      intro exit result same
      cases getting.symm.trans same
    dsimp only
    split
    · rename_i found
      have icanon : state.termios.icanon = true :=
        (Bool.and_eq_true_iff.mp found).2
      exact
        { oldalarm := kept.oldalarm
          rejected := nofun
          restored := nofun
          eof := fun _ _ => icanon
          canonical := fun _ _ =>
            kept.canonical icanon fun result => runs _ result }
    · exact kept.moves runs rfl rfl rfl rfl nofun
  case h_4 c putting =>
    have runs : state.Runs := by
      intro exit result same
      cases putting.symm.trans same
    dsimp only
    split
    · exact kept.moves runs rfl rfl rfl rfl nofun
    · have put :
          Kept old first
            { state with nr := state.nr - 1, buf := state.buf ++ [c] } :=
        kept.moves runs rfl rfl rfl rfl runs
      exact put.gotten runs
  case h_5 =>
    exact kept

/-- The step lemma. -/
theorem Kept.step
    (kept : Kept old first state)
    (stepped : Step event state after) :
    Kept old first after := by
  unfold Step Event.perform at stepped
  cases event with
  | go =>
    cases stepped
    exact kept.go
  | tick =>
    cases stepped
    exact ⟨kept.oldalarm, kept.rejected, kept.restored, kept.eof, kept.canonical⟩
  | look =>
    dsimp only at stepped
    split at stepped
    · rename_i sleeps
      cases stepped
      have runs : state.Runs := by
        intro exit result same
        unfold State.canSleep at sleeps
        rw [same] at sleeps
        cases sleeps
      exact
        { oldalarm := kept.oldalarm
          rejected := fun result same => absurd same (runs _ result)
          restored := fun result same => absurd same (runs _ result)
          eof := fun result same => absurd same (runs _ result)
          canonical := fun icanon _ => by
            have before := kept.canonical icanon fun result => runs _ result
            change (state.task.checkSignals state.jiffies).alarm = _
            rw [alarm_checkSignals, before]
            rfl }
    · cases stepped
  | raise signr =>
    cases stepped
    exact ⟨kept.oldalarm, kept.rejected, kept.restored, kept.eof, kept.canonical⟩
  | input queue =>
    cases stepped
    exact ⟨kept.oldalarm, kept.rejected, kept.restored, kept.eof, kept.canonical⟩

/-! ## The signal of the timer -/

/-- A step that is no reason for a SIGALRM of the caller's own. -/
def Event.Unasked (old : Int) (event : Event) (state : State) : Prop :=
  event ≠ .raise sigAlrm ∧ (event = .look → old = 0 ∨ (state.jiffies : Int) ≤ old)

/-- The condition on a step: no SIGALRM gets past the head of the loop. -/
def Event.TakesBack (event : Event) (state : State) : Prop :=
  event = .go → state.leaves = true → state.alarmed = false

/-- Without a SIGALRM of the caller's own, one that is pending is the timer's. -/
structure Watched (old : Int) (state : State) : Prop where
  oldalarm :
    state.oldalarm = old
  wanted :
    state.Runs → state.minimum ≤ state.buf.length + state.nr
  more :
    state.Runs → state.point ≠ .looping → 0 < state.nr
  alarm :
    state.Runs → state.flag = false → state.task.alarm = 0 ∨ state.task.alarm = old
  timer :
    state.alarmed = true → state.Runs ∧ state.flag = true ∧ 0 < state.nr

theorem and_bit_ne_zero
    {signal : BitVec 32} {signr : Fin 32} :
    signal &&& bit signr ≠ 0 ↔ signal.getLsbD signr.val = true := by
  have own : (signal &&& bit signr).getLsbD signr.val =
      signal.getLsbD signr.val := by
    rw [BitVec.getLsbD_and, Tasks.getLsbD_bit, decide_eq_true rfl, Bool.and_true]
  constructor
  · intro pending
    by_contra missing
    refine pending (BitVec.eq_of_getLsbD_eq fun place inside => ?_)
    have other : (bit signr).getLsbD place = decide (place = signr.val) := by
      have found := @Tasks.getLsbD_bit signr ⟨place, inside⟩
      simpa [Fin.ext_iff] using found
    by_cases here : place = signr.val
    · rw [here, own, eq_false_of_ne_true missing]
      exact BitVec.getLsbD_zero.symm
    · rw [BitVec.getLsbD_and, other, decide_eq_false here, Bool.and_false]
      exact BitVec.getLsbD_zero.symm
  · intro pending zero
    rw [zero, pending] at own
    exact absurd own (by simp)

/-- Another signal is no SIGALRM. -/
theorem getLsbD_or_bit
    {signal : BitVec 32} {signr : Fin 32}
    (other : signr ≠ sigAlrm) :
    (signal ||| bit signr).getLsbD sigAlrm.val =
      signal.getLsbD sigAlrm.val := by
  rw [BitVec.getLsbD_or, Tasks.getLsbD_bit, decide_eq_false other.symm, Bool.or_false]

theorem getLsbD_and_not_bit
    (signal : BitVec 32) :
    (signal &&& ~~~bit sigAlrm).getLsbD sigAlrm.val = false := by
  have own : (bit sigAlrm).getLsbD sigAlrm.val = true := by
    decide
  rw [BitVec.getLsbD_and, BitVec.getLsbD_not, own]
  simp

/-- Only an alarm that comes due raises SIGALRM. -/
theorem alarmed_look
    (look : state.look.alarmed = true) :
    state.alarmed = true ∨
      state.task.alarm ≠ 0 ∧ state.task.alarm < state.jiffies := by
  unfold State.look State.alarmed Task.checkSignals at look
  dsimp only at look
  by_cases due : state.task.alarm ≠ 0 ∧ state.task.alarm < state.jiffies
  · exact .inr due
  · rw [if_neg due] at look
    refine .inl ?_
    split at look
    · exact look
    · exact look

/-! ### What the calls keep -/

theorem alarmed_rearm : state.rearm.alarmed = state.alarmed := by
  unfold State.rearm
  split <;> rfl

theorem nr_rearm : state.rearm.nr = state.nr := by
  unfold State.rearm
  split <;> rfl

theorem buf_rearm : state.rearm.buf = state.buf := by
  unfold State.rearm
  split <;> rfl

theorem minimum_rearm : state.rearm.minimum = state.minimum := by
  unfold State.rearm
  split <;> rfl

theorem go_putting
    {c : Byte}
    (putting : state.point = .putting c) :
    state.go =
      if state.nr - 1 ≠ 0 ∧ state.secondary.empty = false then
        State.setPoint .getting
          { state with nr := state.nr - 1, buf := state.buf ++ [c] }
      else
        State.gotten
          { state with nr := state.nr - 1, buf := state.buf ++ [c] } := by
  unfold State.go
  split
  case h_4 other same =>
    cases putting.symm.trans same
    rfl
  all_goals
    rename_i same
    cases putting.symm.trans same

/-- Behind the inner loop a call returns, or it is raw and has got too little. -/
theorem gotten_cases
    (some : state.buf ≠ []) :
    state.gotten = state.rearm.finish ∧
        ¬(state.termios.icanon = false ∧ state.buf.length < state.minimum) ∨
      state.gotten = state.rearm.setPoint .looping ∧
        state.termios.icanon = false ∧ state.buf.length < state.minimum := by
  unfold State.gotten
  dsimp only
  rw [termios_rearm, buf_rearm, minimum_rearm]
  cases state.termios.icanon with
  | true =>
    rw [if_pos rfl, if_pos some]
    exact .inl ⟨rfl, fun raw => nomatch raw.1⟩
  | false =>
    rw [if_neg Bool.false_ne_true]
    split
    · rename_i reached
      exact .inl ⟨rfl, fun short => absurd reached (Nat.not_le.mpr short.2)⟩
    · rename_i short
      exact .inr ⟨rfl, rfl, Nat.not_le.mp short⟩

theorem flag_rearm_counts
    (nr : Nat)
    (buf : List Byte) :
    ({ state with nr := nr, buf := buf } : State).rearm.flag =
      state.rearm.flag := by
  unfold State.rearm
  split <;> rfl

/-- Behind the inner loop `flag` alone leads back to the head where it is of use. -/
theorem leaves_putting
    {c : Byte}
    (putting : state.point = .putting c)
    (stops : ¬(state.nr - 1 ≠ 0 ∧ state.secondary.empty = false)) :
    state.leaves = true ↔
      ¬(state.termios.icanon = false ∧ state.buf.length + 1 < state.minimum ∧
        state.rearm.flag = true) := by
  have ended : (decide (state.nr ≤ 1) || state.secondary.empty) = true := by
    rw [Bool.or_eq_true, decide_eq_true_iff]
    by_cases last : state.nr ≤ 1
    · exact .inl last
    · refine .inr (Classical.byContradiction fun nonempty => stops ?_)
      exact ⟨by omega, eq_false_of_ne_true nonempty⟩
  unfold State.leaves
  rw [putting]
  dsimp only
  rw [ended, Bool.true_and, Bool.not_eq_true', ← Bool.not_eq_true]
  refine not_congr ?_
  rw [Bool.and_eq_true, Bool.and_eq_true, Bool.not_eq_true', decide_eq_true_iff,
    and_assoc]

/-- Where `flag` is not set, the alarm is the caller's own. -/
theorem alarm_rearm
    (oldalarm : state.oldalarm = old)
    (alarm : state.flag = false → state.task.alarm = 0 ∨ state.task.alarm = old)
    (unset : state.rearm.flag = false) :
    state.rearm.task.alarm = 0 ∨ state.rearm.task.alarm = old := by
  unfold State.rearm at unset ⊢
  split
  · rename_i sets
    rw [if_pos sets] at unset
    have later : state.sooner = false := unset
    rw [later]
    exact .inr oldalarm
  · rename_i stays
    rw [if_neg stays] at unset
    exact alarm unset

namespace Watched

/-- A call is over without a SIGALRM. -/
theorem finished
    {exit : Exit} {result : Int}
    (oldalarm : state.oldalarm = old)
    (quiet : state.alarmed = false)
    (done : state.point = .done exit result) :
    Watched old state where
  oldalarm := oldalarm
  wanted runs := absurd done (runs _ _)
  more runs := absurd done (runs _ _)
  alarm runs := absurd done (runs _ _)
  timer alarmed := nomatch quiet.symm.trans alarmed

/-- A call that goes on with the same bytes. -/
theorem moves
    (watched : Watched old state)
    (runs : state.Runs)
    (oldalarm : after.oldalarm = state.oldalarm)
    (task : after.task = state.task)
    (flag : after.flag = state.flag)
    (counts : after.minimum = state.minimum ∧ after.buf = state.buf ∧
      after.nr = state.nr)
    (runs' : after.Runs)
    (wants : after.point ≠ .looping → 0 < state.nr) :
    Watched old after where
  oldalarm := oldalarm.trans watched.oldalarm
  wanted _ := by
    rw [counts.1, counts.2.1, counts.2.2]
    exact watched.wanted runs
  more _ elsewhere := by
    rw [counts.2.2]
    exact wants elsewhere
  alarm _ := by
    rw [task, flag]
    exact watched.alarm runs
  timer alarmed := by
    unfold State.alarmed at alarmed
    rw [task] at alarmed
    rw [flag, counts.2.2]
    exact ⟨runs', (watched.timer alarmed).2⟩

/-- At the head of the loop the signal of the timer is taken back. -/
theorem looping
    (watched : Watched old state)
    (looping : state.point = .looping) :
    Watched old state.go := by
  have runs : state.Runs := by
    intro exit result same
    cases looping.symm.trans same
  have ends (quiet : state.alarmed = false) : Watched old state.finish :=
    finished watched.oldalarm quiet rfl
  unfold State.go
  rw [looping]
  dsimp only
  split
  · rename_i nothing
    refine ends (eq_false_of_ne_true fun alarmed => ?_)
    exact absurd nothing (Nat.ne_of_gt (watched.timer alarmed).2.2)
  rename_i more
  split
  · exact finished watched.oldalarm (getLsbD_and_not_bit _) rfl
  rename_i kept
  split
  · refine ends (eq_false_of_ne_true fun alarmed => kept ?_)
    exact ⟨(watched.timer alarmed).2.1, and_bit_ne_zero.mpr alarmed⟩
  split
  · exact watched.moves runs rfl rfl rfl ⟨rfl, rfl, rfl⟩ nofun fun _ =>
      Nat.pos_of_ne_zero more
  · exact watched.moves runs rfl rfl rfl ⟨rfl, rfl, rfl⟩ nofun fun _ =>
      Nat.pos_of_ne_zero more

/-- Behind a byte of `put_fs_byte`. -/
theorem putting
    {c : Byte}
    (watched : Watched old state)
    (putting : state.point = .putting c)
    (careful : state.leaves = true → state.alarmed = false) :
    Watched old state.go := by
  have runs : state.Runs := by
    intro exit result same
    cases putting.symm.trans same
  have wants : 0 < state.nr :=
    watched.more runs fun same => nomatch putting.symm.trans same
  have wanted := watched.wanted runs
  have counted :
      state.minimum ≤ (state.buf ++ [c]).length + (state.nr - 1) := by
    rw [List.length_append, List.length_singleton]
    omega
  rw [go_putting putting]
  split
  · rename_i goes
    exact
      { oldalarm := watched.oldalarm
        wanted := fun _ => counted
        more := fun _ _ => Nat.pos_of_ne_zero goes.1
        alarm := fun _ => watched.alarm runs
        timer := fun alarmed =>
          ⟨nofun, (watched.timer alarmed).2.1, Nat.pos_of_ne_zero goes.1⟩ }
  · rename_i stops
    have leaves := leaves_putting putting stops
    rw [← flag_rearm_counts (state.nr - 1) (state.buf ++ [c])] at leaves
    generalize put :
      ({ state with nr := state.nr - 1, buf := state.buf ++ [c] } : State) =
        next at leaves
    have oldalarm : next.rearm.oldalarm = old := by
      rw [oldalarm_rearm, ← put]
      exact watched.oldalarm
    have quiet (leaves : state.leaves = true) : next.rearm.alarmed = false := by
      rw [alarmed_rearm, ← put]
      exact careful leaves
    have length : next.buf.length = state.buf.length + 1 := by
      rw [← put, List.length_append, List.length_singleton]
    have some : next.buf ≠ [] := by
      rw [← List.length_pos_iff, length]
      exact Nat.succ_pos _
    have minimum : next.minimum = state.minimum := by
      rw [← put]
    have left : next.nr = state.nr - 1 := by
      rw [← put]
    have same : next.termios = state.termios := by
      rw [← put]
    rcases gotten_cases some with ⟨ends, through⟩ | ⟨again, raw, short⟩
    · rw [same, length, minimum] at through
      have gone := leaves.mpr fun all => through ⟨all.1, all.2.1⟩
      rw [ends]
      exact finished oldalarm (quiet gone) rfl
    · rw [length, minimum] at short
      rw [again]
      exact
        { oldalarm := oldalarm
          wanted := fun _ => by
            show next.rearm.minimum ≤ next.rearm.buf.length + next.rearm.nr
            rw [minimum_rearm, buf_rearm, nr_rearm, minimum, length, left]
            omega
          more := fun _ elsewhere => absurd rfl elsewhere
          alarm := fun _ => alarm_rearm (by rw [← put]; exact watched.oldalarm)
            (by rw [← put]; exact watched.alarm runs)
          timer := fun alarmed => by
            refine ⟨nofun, ?_, ?_⟩
            · refine Classical.byContradiction fun unset => ?_
              have gone := leaves.mpr fun all => unset all.2.2
              exact nomatch (quiet gone).symm.trans alarmed
            · show 0 < next.rearm.nr
              rw [nr_rearm, left]
              omega }

/-- The step lemma. -/
theorem step
    (watched : Watched old state)
    (unasked : event.Unasked old state)
    (stepped : Step event state after)
    (careful : event.TakesBack state) :
    Watched old after := by
  unfold Step Event.perform at stepped
  cases event with
  | go =>
    cases stepped
    cases point : state.point with
    | looping =>
      exact watched.looping point
    | putting c =>
      exact watched.putting point (careful rfl)
    | sleeping =>
      have runs : state.Runs := by
        intro exit result same
        cases point.symm.trans same
      unfold State.go
      rw [point]
      dsimp only
      split
      · exact watched
      · exact watched.moves runs rfl rfl rfl ⟨rfl, rfl, rfl⟩ nofun
          fun elsewhere => absurd rfl elsewhere
    | getting =>
      have runs : state.Runs := by
        intro exit result same
        cases point.symm.trans same
      have wants : 0 < state.nr :=
        watched.more runs fun same => nomatch point.symm.trans same
      unfold State.go
      rw [point]
      dsimp only
      split
      · rename_i found
        have leaves : state.leaves = true := by
          unfold State.leaves
          rw [point]
          exact found
        exact finished watched.oldalarm (careful rfl leaves) rfl
      · exact watched.moves runs rfl rfl rfl ⟨rfl, rfl, rfl⟩ nofun
          fun _ => wants
    | done exit result =>
      unfold State.go
      rw [point]
      exact watched
  | tick =>
    cases stepped
    exact ⟨watched.oldalarm, watched.wanted, watched.more, watched.alarm, watched.timer⟩
  | look =>
    dsimp only at stepped
    split at stepped
    · rename_i sleeps
      cases stepped
      have runs : state.Runs := by
        intro exit result same
        unfold State.canSleep at sleeps
        rw [same] at sleeps
        cases sleeps
      have wants : 0 < state.nr := by
        refine watched.more runs fun same => ?_
        unfold State.canSleep at sleeps
        rw [same] at sleeps
        cases sleeps
      refine
        { oldalarm := watched.oldalarm
          wanted := watched.wanted
          more := watched.more
          alarm := fun _ unset => ?_
          timer := fun alarmed => ⟨runs, ?_, wants⟩ }
      · change (state.task.checkSignals state.jiffies).alarm = 0 ∨
          (state.task.checkSignals state.jiffies).alarm = old
        rw [alarm_checkSignals]
        unfold expire
        split
        · exact .inl rfl
        · exact watched.alarm runs unset
      · rcases alarmed_look alarmed with before | ⟨nonzero, due⟩
        · exact (watched.timer before).2.1
        · refine Classical.byContradiction fun unset => ?_
          have own := (watched.alarm runs (eq_false_of_ne_true unset)).resolve_left
            nonzero
          rcases unasked.2 rfl with zero | late
          · exact nonzero (own.trans zero)
          · omega
    · cases stepped
  | raise signr =>
    cases stepped
    have other : signr ≠ sigAlrm := fun same => unasked.1 (same ▸ rfl)
    refine ⟨watched.oldalarm, watched.wanted, watched.more, watched.alarm,
      fun alarmed => watched.timer ?_⟩
    exact (getLsbD_or_bit other).symm.trans alarmed
  | input queue =>
    cases stepped
    exact ⟨watched.oldalarm, watched.wanted, watched.more, watched.alarm, watched.timer⟩

end Watched

section Call

variable {channel jiffies : Nat} {nr : Int} {task : Task} {termios : Termios}
variable {secondary : Queue}

end Call

end ReadAlarms

end HitOs
