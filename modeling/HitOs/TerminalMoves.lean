import HitOs.TerminalSteps
import HitOs.Traces
import Mathlib

namespace HitOs

/-!
# What a step of a terminal does

Every step is one of a few moves, each with what has been tested before it.  The
invariants of a terminal are proved move by move.
-/

namespace Terminals

/-- An interrupt that calls `copy_to_cooked`. -/
def Action.isInput : Action → Bool
  | .key _ | .readChar _ => true
  | _ => false

/-- The bytes that an echo has still to put into `write_q`. -/
def Frame.owed : Frame → Nat
  | .echoing cs => cs.length
  | _ => 0

namespace State

/-- The character that `copy_to_cooked` has to cook. -/
def copied (stray : Bool) (state : State) : Option Byte :=
  match state.stack with
  | .treating c :: _ => state.tty.termios.input stray c
  | _ => none

/-- What the step of a frame is going to echo. -/
def echoes (stray : Bool) (state : State) : Option (List Byte) :=
  match state.stack with
  | .treating c :: _ =>
    match state.tty.termios.input stray c with
    | some c =>
      match state.tty.termios.treat c with
      | .plain => some (state.tty.termios.echoOf c)
      | .erase =>
        if state.canErase then
          some (Termios.ruboutOf state.tty.secondary.last)
        else
          none
      | _ => none
    | none => none
  | .killing :: _ =>
    if state.canErase then
      some (Termios.ruboutOf state.tty.secondary.last)
    else
      none
  | _ => none

/-- The calls that have begun, also those that sleep. -/
def begun (state : State) : List Call :=
  state.call.toList ++ state.asleep.map Subtype.val

/-- The bytes that are going to be put into `write_q` without another test of it. -/
def owed (state : State) : Nat :=
  (state.stack.map Frame.owed).sum + state.begun.countP Call.isFetching

/-- `tty_write` fills `write_q`, or sleeps where it does. -/
def isFilling (state : State) : Bool :=
  state.begun.any Call.isFilling

/-- Where `tty_write` finds room, there is more than what is owed. -/
def FillFits (state : State) : Prop :=
  match state.stack, state.call with
  | [], some (.filling (_ :: _)) =>
    state.tty.writeQ.full = false → state.owed < state.tty.writeQ.left
  | _, _ => True

instance {state : State} : Decidable state.FillFits := by
  unfold FillFits
  split <;> infer_instance

section Calls

variable {state after : State}

theorem owed_push
    {frame : Frame}
    (other : frame.owed = 0) :
    (state.push frame).owed = state.owed := by
  show ((frame :: state.stack).map Frame.owed).sum + _ = _
  rw [List.map_cons, List.sum_cons, other, Nat.zero_add]
  rfl

theorem owed_echoing (cs : List Byte) :
    (state.push (.echoing cs)).owed = state.owed + cs.length := by
  show (cs.length + (state.stack.map Frame.owed).sum) + _ = _
  rw [Nat.add_comm cs.length, Nat.add_right_comm]
  rfl

theorem owed_pop
    {frame : Frame} {rest : List Frame}
    (top : state.stack = frame :: rest) :
    state.owed = (state.setStack rest).owed + frame.owed := by
  show (state.stack.map Frame.owed).sum + _ = (rest.map Frame.owed).sum + _ + _
  rw [top, List.map_cons, List.sum_cons]
  show _ + _ + state.begun.countP Call.isFetching = _
  rw [Nat.add_comm frame.owed, Nat.add_right_comm]
  rfl

theorem owed_count (c : Byte) : (state.count c).owed = state.owed := by
  unfold count
  split <;> rfl

theorem count_filling (c : Byte) (state : State) :
    (state.count c).isFilling = state.isFilling := by
  unfold count
  split <;> rfl

/-- Calls that change places owe the same. -/
theorem owed_perm
    (perm : after.begun.Perm state.begun)
    (stack : after.stack = state.stack) :
    after.owed = state.owed := by
  unfold owed
  rw [stack, perm.countP_eq]

theorem filling_perm
    (perm : after.begun.Perm state.begun) :
    after.isFilling = state.isFilling := by
  unfold isFilling
  rw [Bool.eq_iff_iff, List.any_eq_true, List.any_eq_true]
  exact exists_congr fun call => and_congr_left fun _ => perm.mem_iff

/-- Only the running call has changed. -/
theorem owed_of_calls
    (stack : after.stack = state.stack)
    (asleep : after.asleep = state.asleep) :
    after.owed + state.call.toList.countP Call.isFetching =
      state.owed + after.call.toList.countP Call.isFetching := by
  unfold owed begun
  rw [stack, asleep, List.countP_append, List.countP_append]
  omega

/-- No byte is owed by a call that begins or goes on elsewhere. -/
theorem owed_free
    (stack : after.stack = state.stack)
    (asleep : after.asleep = state.asleep)
    (owes : ∀ call, after.call = some call → call.isFetching = false) :
    after.owed ≤ state.owed := by
  have nothing : after.call.toList.countP Call.isFetching = 0 := by
    refine List.countP_eq_zero.mpr fun call member => ?_
    rw [owes call (Option.mem_toList.mp member)]
    exact Bool.false_ne_true
  have same := owed_of_calls stack asleep
  omega

/-- What fills `write_q` in its sleep goes on to do so. -/
theorem filling_of_asleep
    (asleep : after.asleep = state.asleep)
    (outside : ∀ call, state.call = some call → call.isFilling = false)
    (filling : state.isFilling = true) :
    after.isFilling = true := by
  obtain ⟨call, member, fills⟩ := List.any_eq_true.mp filling
  refine List.any_eq_true.mpr ⟨call, ?_, fills⟩
  unfold begun at member ⊢
  rw [asleep]
  refine List.mem_append_right _ ((List.mem_append.mp member).resolve_left ?_)
  intro runs
  rw [outside call (Option.mem_toList.mp runs)] at fills
  cases fills

theorem outside_only
    {call : Call}
    (calls : state.call = some call)
    (outside : call.isFilling = false) :
    ∀ other, state.call = some other → other.isFilling = false :=
  fun _ same => Option.some.inj (calls.symm.trans same) ▸ outside

theorem begun_of_none
    (same : state.call = none) :
    state.begun = state.asleep.map Subtype.val := by
  unfold begun
  rw [same]
  rfl

end Calls

end State

/-- No call comes next that takes a byte of `secondary`. -/
theorem no_call_gets :
    ∀ call, (none : Option Call) = some call → call.isGetting = false :=
  fun _ absent => nomatch absent

theorem call_gets_not
    {next : Call}
    (outside : next.isGetting = false) :
    ∀ call, some next = some call → call.isGetting = false :=
  fun _ same => Option.some.inj same ▸ outside

theorem Call.gets_not_of_sleeps
    {call : Call}
    (sleeps : call.sleeps = true) :
    call.isGetting = false := by
  cases call with
  | getting =>
    cases sleeps
  | _ =>
    rfl

/-- The moves of a terminal, with the state after them. -/
inductive Move (state : State) : Action → State → Prop where
  /-- An input interrupt. -/
  | received
      {action : Action}
      (input : action.isInput = true)
      (queue : Queue) :
      Move state action ((state.setReadQ queue).push .copying)
  /-- A transmit interrupt. -/
  | sent
      (serial : state.tty.write = .rsWrite)
      (nonempty : state.tty.writeQ.empty = false) :
      Move state .writeChar state.getWrite
  | unsent :
      Move state .writeChar state
  /-- A call begins. -/
  | began
      {action : Action}
      (idle : state.isIdle = true)
      (call : Call)
      (outside : call.isFilling = false)
      (elsewhere : call.isGetting = false) :
      Move state action (state.setCall (some call))
  /-- A call goes on after it has slept. -/
  | resumed
      {action : Action}
      (idle : state.isIdle = true)
      (sleeper : { call : Call // call.sleeps })
      (asleep : List { call : Call // call.sleeps })
      (perm : (sleeper :: asleep).Perm state.asleep) :
      Move state action
        { state with call := some sleeper.1, asleep := asleep }
  /-- A page fault puts a call to sleep. -/
  | faulted
      (alone : state.stack = [])
      (sleeper : { call : Call // call.sleeps })
      (calls : state.call = some sleeper.1) :
      Move state .fault (state.sleep sleeper)
  | termiosSet
      (idle : state.isIdle = true)
      (termios : Termios) :
      Move state (.setTermios termios)
        { state with tty := { state.tty with termios := termios } }
  | crFlagSet
      {action : Action}
      (idle : state.isIdle = true)
      (crFlag : Bool) :
      Move state action { state with crFlag := crFlag }
  /-- A routine returns. -/
  | ended
      {signal stray : Bool} {frame : Frame} {rest : List Frame}
      (top : state.stack = frame :: rest)
      (finished : frame = .copying ∨ frame = .killing ∨ frame = .conWriting 0) :
      Move state (.go signal stray) (state.setStack rest)
  /-- `copy_to_cooked` finds a character and room for it. -/
  | tested
      {signal stray : Bool} {rest : List Frame}
      (top : state.stack = .copying :: rest) :
      Move state (.go signal stray) (state.push .taking)
  | taken
      {signal stray : Bool} {rest : List Frame}
      (top : state.stack = .taking :: rest)
      (c : Byte)
      (queue : Queue) :
      Move state (.go signal stray)
        ((state.setStack (.treating c :: rest)).setReadQ queue)
  /-- `copy_to_cooked` drops a character. -/
  | dropped
      {signal stray : Bool} {rest : List Frame} {c : Byte}
      (top : state.stack = .treating c :: rest)
      (stopped : Bool) :
      Move state (.go signal stray)
        ((state.setStack rest).setStopped stopped)
  /-- `copy_to_cooked` begins to kill a line. -/
  | killed
      {signal stray : Bool} {rest : List Frame} {c : Byte}
      (top : state.stack = .treating c :: rest) :
      Move state (.go signal stray) ((state.setStack rest).push .killing)
  /-- A character is going to be taken back. -/
  | erased
      {signal stray : Bool} {rest : List Frame}
      (busy : state.stack ≠ [])
      (top : state.stack = rest ∨ ∃ c, state.stack = .treating c :: rest)
      (erasable : state.canErase = true)
      (echoes : state.echoes stray = some (Termios.ruboutOf state.tty.secondary.last)) :
      Move state (.go signal stray) (state.setStack rest).erase
  /-- A character is going to be put. -/
  | cooked
      {signal stray : Bool} {rest : List Frame} {d c : Byte}
      (top : state.stack = .treating d :: rest)
      (copied : state.copied stray = some c)
      (plain : state.tty.termios.treat c = .plain)
      (echoes : state.echoes stray = some (state.tty.termios.echoOf c)) :
      Move state (.go signal stray)
        ((((state.setStack rest).count c).push (.cooking c)).echo
          (state.tty.termios.echoOf c))
  /-- A byte of an echo. -/
  | echoed
      {signal stray : Bool} {rest : List Frame} {c : Byte} {cs : List Byte}
      (top : state.stack = .echoing (c :: cs) :: rest) :
      Move state (.go signal stray)
        ((state.setStack (.echoing cs :: rest)).putWrite c)
  /-- `copy_to_cooked` calls `tty->write`. -/
  | flushed
      {signal stray : Bool} {rest : List Frame}
      (top : state.stack = .echoing [] :: rest) :
      Move state (.go signal stray) (state.setStack rest).write
  | deleted
      {signal stray : Bool} {rest : List Frame}
      (top : state.stack = .deleting :: rest) :
      Move state (.go signal stray)
        ((state.setStack rest).setSecondary state.tty.secondary.dec)
  | put
      {signal stray : Bool} {rest : List Frame} {c : Byte}
      (top : state.stack = .cooking c :: rest) :
      Move state (.go signal stray) ((state.setStack rest).putSecondary c)
  /-- `con_write` takes a character. -/
  | counted
      {signal stray : Bool} {rest : List Frame} {nr : Nat}
      (top : state.stack = .conWriting (nr + 1) :: rest) :
      Move state (.go signal stray)
        (state.setStack
          (.showing state.tty.writeQ.first :: .conWriting nr :: rest)).getWrite
  | shown
      {signal stray : Bool} {rest : List Frame} {c : Byte}
      (top : state.stack = .showing c :: rest) :
      Move state (.go signal stray) ((state.setStack rest).conByte c)
  /-- A call goes on without the queues. -/
  | went
      {signal stray : Bool} {call : Call}
      (alone : state.stack = [])
      (calls : state.call = some call)
      (outside : call.isFilling = false)
      (next : Option Call)
      (owes : ∀ call, next = some call → call.isFetching = false)
      (elsewhere : ∀ call, next = some call → call.isGetting = false) :
      Move state (.go signal stray) (state.setCall next)
  | slept
      {signal stray : Bool} {call : Call}
      (alone : state.stack = [])
      (calls : state.call = some call)
      (outside : call.isFilling = false)
      (sleeper : { call : Call // call.sleeps })
      (owes : sleeper.1.isFetching = false) :
      Move state (.go signal stray) (state.sleep sleeper)
  /-- `tty_read` finds something to read. -/
  | readied
      {signal stray : Bool} {nr count minimum : Nat}
      (alone : state.stack = [])
      (calls : state.call = some (.reading nr count minimum))
      (nonempty : state.tty.secondary.empty = false)
      (line :
        state.tty.termios.icanon = true → 20 < state.tty.secondary.left →
          state.tty.secondary.data ≠ 0) :
      Move state (.go signal stray)
        (state.setCall (some (.getting nr count minimum)))
  /-- `tty_read` wants more and finds more. -/
  | continued
      {signal stray : Bool} {c : Byte} {nr count minimum : Nat}
      (alone : state.stack = [])
      (calls : state.call = some (.storing c nr count minimum))
      (wanted : nr ≠ 1)
      (nonempty : state.tty.secondary.empty = false) :
      Move state (.go signal stray)
        (state.setCall (some (.getting (nr - 1) (count + 1) minimum)))
  /-- `tty_write` finds room for a byte. -/
  | fetched
      {signal stray : Bool} {c : Byte} {rest : List Byte}
      (alone : state.stack = [])
      (calls : state.call = some (.filling (c :: rest)))
      (room : state.tty.writeQ.full = false) :
      Move state (.go signal stray)
        (state.setCall (some (.fetching c rest)))
  /-- `tty_write` puts a byte. -/
  | filled
      {signal stray : Bool} {d : Byte} {rest : List Byte}
      (alone : state.stack = [])
      (calls : state.call = some (.fetching d rest))
      (c : Byte)
      (rest' : List Byte)
      (crFlag : Bool) :
      Move state (.go signal stray)
        { (state.putWrite c).setCall (some (.filling rest')) with
          crFlag := crFlag }
  /-- `tty_write` calls `tty->write`. -/
  | wrote
      {signal stray : Bool} {rest : List Byte}
      (alone : state.stack = [])
      (calls : state.call = some (.filling rest)) :
      Move state (.go signal stray)
        (state.setCall (some (.written rest))).write
  /-- `tty_read` takes a byte. -/
  | got
      {signal stray : Bool} {nr count minimum : Nat}
      (alone : state.stack = [])
      (calls : state.call = some (.getting nr count minimum)) :
      Move state (.go signal stray) (state.get nr count minimum)

namespace State

variable {state after : State} {signal stray : Bool}

/-! ## Frames -/

theorem move_cook
    {rest : List Frame} {d c : Byte}
    (top : state.stack = .treating d :: rest)
    (input : state.tty.termios.input stray d = some c) :
    Move state (.go signal stray) ((state.setStack rest).cook c) := by
  have unchanged : Move state (.go signal stray) (state.setStack rest) :=
    .dropped top state.tty.stopped
  have copied : state.copied stray = some c := by
    unfold State.copied
    rw [top]
    exact input
  unfold State.cook
  split
  · exact .killed top
  case _ erase =>
    have treated : state.tty.termios.treat c = .erase := erase
    split
    case isTrue erasable =>
      have here : state.canErase = true := erasable
      refine .erased (fun none => nomatch top.symm.trans none)
        (.inr ⟨d, top⟩) here ?_
      unfold State.echoes
      rw [top]
      dsimp only
      rw [input]
      dsimp only
      rw [treated]
      dsimp only
      rw [if_pos here]
    case isFalse =>
      exact unchanged
  · exact .dropped top true
  · exact .dropped top false
  · exact unchanged
  · exact unchanged
  case _ plain =>
    have treated : state.tty.termios.treat c = .plain := plain
    refine .cooked top copied treated ?_
    unfold State.echoes
    rw [top]
    dsimp only
    rw [input]
    dsimp only
    rw [treated]

theorem move_frame
    {frame : Frame} {rest : List Frame}
    (top : state.stack = frame :: rest) :
    Move state (.go signal stray) (state.goFrame stray frame rest) := by
  cases frame with
  | copying =>
    unfold State.goFrame State.copy
    dsimp only
    split
    case isTrue =>
      exact .tested top
    case isFalse =>
      rw [top, List.tail_cons]
      exact .ended top (.inl rfl)
  | taking =>
    exact .taken top _ _
  | treating c =>
    unfold State.goFrame State.treat
    dsimp only
    split
    case _ c input =>
      exact move_cook top input
    case _ =>
      exact .dropped top state.tty.stopped
  | killing =>
    unfold State.goFrame
    dsimp only
    split
    case isTrue erasable =>
      have echoes : state.echoes stray =
          some (Termios.ruboutOf state.tty.secondary.last) := by
        unfold State.echoes
        rw [top]
        exact if_pos erasable
      have moved :
          Move state (.go signal stray) (state.setStack state.stack).erase :=
        .erased (fun none => nomatch top.symm.trans none) (.inl rfl) erasable
          echoes
      exact moved
    case isFalse =>
      exact .ended top (.inr (.inl rfl))
  | echoing cs =>
    cases cs with
    | nil =>
      exact .flushed top
    | cons c cs =>
      exact .echoed top
  | deleting =>
    exact .deleted top
  | cooking c =>
    exact .put top
  | conWriting nr =>
    cases nr with
    | zero =>
      exact .ended top (.inr (.inr rfl))
    | succ nr =>
      exact .counted top
  | showing c =>
    exact .shown top

/-! ## Calls -/

theorem free_of_outside
    {call : Call}
    (outside : call.isFilling = false) :
    call.isFetching = false := by
  cases call with
  | fetching =>
    cases outside
  | _ =>
    rfl

theorem none_owes :
    ∀ call, (none : Option Call) = some call → call.isFetching = false :=
  fun _ absent => nomatch absent

theorem owes_not
    {next : Call}
    (free : next.isFetching = false) :
    ∀ call, some next = some call → call.isFetching = false :=
  fun _ same => Option.some.inj same ▸ free

theorem move_fill
    {c : Byte} {rest : List Byte}
    (alone : state.stack = [])
    (calls : state.call = some (.fetching c rest)) :
    Move state (.go signal stray) (state.fill c rest stray) := by
  unfold State.fill
  dsimp only
  split
  · exact .filled alone calls 13 (c :: rest) true
  · exact .filled alone calls _ rest false

theorem move_call
    {call : Call}
    (alone : state.stack = [])
    (calls : state.call = some call) :
    Move state (.go signal stray) (state.goCall signal stray call) := by
  cases call with
  | writing rest =>
    cases rest with
    | nil =>
      exact .went alone calls rfl none none_owes no_call_gets
    | cons c rest =>
      unfold State.goCall
      dsimp only
      split_ifs
      · exact .went alone calls rfl _ (owes_not rfl) (call_gets_not rfl)
      · exact .went alone calls rfl none none_owes no_call_gets
      · exact .went alone calls rfl _ (owes_not rfl) (call_gets_not rfl)
  | fullSleeping rest =>
    unfold State.goCall
    dsimp only
    split_ifs
    · exact .slept alone calls rfl _ rfl
    · exact .went alone calls rfl none none_owes no_call_gets
    · exact .went alone calls rfl _ (owes_not rfl) (call_gets_not rfl)
  | filling rest =>
    cases rest with
    | nil =>
      exact .wrote alone calls
    | cons c rest =>
      unfold State.goCall
      dsimp only
      split
      case isTrue =>
        exact .wrote alone calls
      case isFalse room =>
        exact .fetched alone calls (eq_false_of_ne_true room)
  | fetching c rest =>
    exact move_fill alone calls
  | written rest =>
    cases rest with
    | nil =>
      exact .went alone calls rfl none none_owes no_call_gets
    | cons c rest =>
      exact .slept alone calls rfl _ rfl
  | reading nr count minimum =>
    unfold State.goCall
    dsimp only
    split
    case isTrue =>
      exact .went alone calls rfl none none_owes no_call_gets
    case isFalse goes =>
      split
      case isTrue =>
        exact .went alone calls rfl _ (owes_not rfl) (call_gets_not rfl)
      case isFalse ready =>
        rw [Bool.or_eq_true, not_or, Bool.not_eq_true] at ready
        refine .readied alone calls ready.1 ?_
        intro canonical room zero
        refine ready.2 ?_
        rw [canonical, zero]
        simpa using room
  | emptySleeping nr count minimum =>
    unfold State.goCall
    dsimp only
    split_ifs
    · exact .slept alone calls rfl _ rfl
    · exact .went alone calls rfl _ (owes_not rfl) (call_gets_not rfl)
  | getting nr count minimum =>
    exact .got alone calls
  | storing c nr count minimum =>
    unfold State.goCall State.stored
    dsimp only
    split_ifs with goes
    · exact .continued alone calls goes.1 goes.2
    · exact .went alone calls rfl none none_owes no_call_gets
    · exact .went alone calls rfl _ (owes_not rfl) (call_gets_not rfl)

/-! ## Steps -/

/-- Every step is a move. -/
theorem Step.move
    {action : Action}
    (stepped : State.Step action state after) :
    Move state action after := by
  unfold State.Step State.next at stepped
  split at stepped
  · split at stepped
    · cases stepped
      exact .received rfl _
    · cases stepped
  · split at stepped
    · cases stepped
      exact .received rfl _
    · cases stepped
  · split at stepped
    case isTrue serial =>
      cases stepped
      unfold State.writeChar
      split
      case isTrue =>
        exact .unsent
      case isFalse nonempty =>
        exact .sent serial (eq_false_of_ne_true nonempty)
    case isFalse =>
      cases stepped
  · split at stepped
    case isTrue idle =>
      cases stepped
      exact .began idle _ rfl rfl
    case isFalse =>
      cases stepped
  · split at stepped
    case isTrue idle =>
      cases stepped
      exact .began idle _ rfl rfl
    case isFalse =>
      cases stepped
  · split at stepped
    case isTrue idle =>
      obtain ⟨sleeper, found, rfl⟩ := Option.map_eq_some_iff.mp stepped
      obtain ⟨inside, same⟩ := List.getElem?_eq_some_iff.mp found
      refine .resumed idle sleeper _ ?_
      rw [← same]
      exact List.getElem_cons_eraseIdx_perm inside
    case isFalse =>
      cases stepped
  · split at stepped
    case _ call alone calls =>
      split at stepped
      · cases stepped
        exact .faulted alone _ calls
      · cases stepped
    case _ =>
      cases stepped
  · split at stepped
    case isTrue idle =>
      cases stepped
      exact .termiosSet idle _
    case isFalse =>
      cases stepped
  · split at stepped
    case isTrue idle =>
      cases stepped
      exact .crFlagSet idle _
    case isFalse =>
      cases stepped
  · split at stepped
    case _ top =>
      cases stepped
      exact move_frame top
    case _ alone calls =>
      cases stepped
      exact move_call alone calls
    case _ =>
      cases stepped

end State

end Terminals

end HitOs
