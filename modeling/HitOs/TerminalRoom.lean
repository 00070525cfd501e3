import HitOs.TerminalMoves

namespace HitOs

/-!
# Room in the queues of a terminal

The interrupts look before they put.  The echo and the answer of the console do not;
`copy_to_cooked` looks before its echo, while it puts after it; and between the look of
`tty_write` and its `PUTCH` an interrupt or, where `get_fs_byte` sleeps, another task can
put as well.  If they find room beside what others have still to put, no queue ever
overflows.
-/

namespace Terminals

def Frame.isCooking : Frame → Bool
  | .cooking _ => true
  | _ => false

namespace State

/-- Characters that are on their way to `secondary`. -/
def cookings (state : State) : Nat :=
  state.stack.countP Frame.isCooking

/-- An echo finds room in `write_q` beside what is owed. -/
def EchoFits (stray : Bool) (state : State) : Prop :=
  match state.echoes stray with
  | some cs =>
    state.tty.termios.echo = true → cs.length + state.owed ≤ state.tty.writeQ.left
  | none => True

/-- There is room for a character behind all that are on their way. -/
def CookFits (stray : Bool) (state : State) : Prop :=
  match state.copied stray with
  | some c =>
    state.tty.termios.treat c = .plain → state.cookings < state.tty.secondary.left
  | none => True

/-- What a routine puts or takes back without a look is possible. -/
def FrameFits (stray : Bool) (state : State) : Prop :=
  match state.stack with
  | .treating _ :: _ => state.CookFits stray
  | .deleting :: _ => state.tty.secondary.empty = false
  | .conWriting (_ + 1) :: _ => 0 < state.owed → state.tty.writeQ.empty = false
  | .showing c :: _ =>
    asks state.console c = true → response.length ≤ state.tty.readQ.left
  | _ => True

end State

/-- The condition on a step: what is put without a look has room. -/
def Action.Roomy (action : Action) (state : State) : Prop :=
  match action with
  | .go _ stray => state.EchoFits stray ∧ state.FrameFits stray ∧ state.FillFits
  | _ => True

instance {stray : Bool} {state : State} :
    Decidable (state.EchoFits stray) := by
  unfold State.EchoFits
  split <;> infer_instance

instance {stray : Bool} {state : State} :
    Decidable (state.CookFits stray) := by
  unfold State.CookFits
  split <;> infer_instance

instance {stray : Bool} {state : State} :
    Decidable (state.FrameFits stray) := by
  unfold State.FrameFits
  rcases state.stack with
    _ | ⟨_ | _ | _ | _ | _ | _ | _ | (_ | _) | _, _⟩ <;>
    infer_instance

instance {action : Action} {state : State} :
    Decidable (action.Roomy state) := by
  unfold Action.Roomy
  rcases action with _ | _ | _ | _ | _ | _ | _ | _ | _ | _ <;>
    infer_instance

/-- No queue has overflowed, and there is room for what is on its way. -/
structure Roomy (state : State) : Prop where
  fits : state.history.overflow = false
  room : state.cookings ≤ state.tty.secondary.left
  owes : state.owed ≤ state.tty.writeQ.left

namespace Roomy

variable {state after : State} {frame : Frame} {rest : List Frame}

/-! ## Parts of a move -/

/-- Nothing is put, and nothing sets out. -/
theorem congr
    (roomy : Roomy state)
    (overflow : after.history.overflow = state.history.overflow)
    (cookings : after.cookings ≤ state.cookings)
    (secondary : state.tty.secondary.left ≤ after.tty.secondary.left)
    (owed : after.owed ≤ state.owed)
    (writeQ : after.tty.writeQ = state.tty.writeQ) :
    Roomy after where
  fits := overflow.trans roomy.fits
  room := (cookings.trans roomy.room).trans secondary
  owes := by
    rw [writeQ]
    exact owed.trans roomy.owes

/-- Frames that bring nothing to `secondary` and owe nothing. -/
theorem push
    (roomy : Roomy state)
    (other : frame.isCooking = false)
    (free : frame.owed = 0) :
    Roomy (state.push frame) := by
  have same : (state.push frame).cookings = state.cookings :=
    List.countP_cons_of_neg (by rw [other]; exact Bool.false_ne_true)
  exact roomy.congr rfl (Nat.le_of_eq same) (Nat.le_refl _)
    (Nat.le_of_eq (State.owed_push free)) rfl

theorem pop
    (roomy : Roomy state)
    (top : state.stack = frame :: rest) :
    Roomy (state.setStack rest) := by
  refine roomy.congr rfl ?_ (Nat.le_refl _) ?_ rfl
  · show rest.countP _ ≤ state.stack.countP _
    rw [top]
    exact (List.sublist_cons_self frame rest).countP_le
  · rw [State.owed_pop top]
    exact Nat.le_add_right _ _

/-- A character sets out for `secondary`. -/
theorem pushCooking
    {c : Byte}
    (roomy : Roomy state)
    (room : state.cookings < state.tty.secondary.left) :
    Roomy (state.push (.cooking c)) := by
  have more : (state.push (.cooking c)).cookings = state.cookings + 1 :=
    List.countP_cons_of_pos rfl
  refine ⟨roomy.fits, ?_, ?_⟩
  · rw [more]
    exact room
  · rw [State.owed_push rfl]
    exact roomy.owes

/-- An echo sets out for `write_q`. -/
theorem echo
    {cs : List Byte}
    (roomy : Roomy state)
    (room :
      state.tty.termios.echo = true → cs.length + state.owed ≤ state.tty.writeQ.left) :
    Roomy (state.echo cs) := by
  unfold State.echo
  split
  case isTrue echoing =>
    have same : (state.push (.echoing cs)).cookings = state.cookings :=
      List.countP_cons_of_neg Bool.false_ne_true
    have more : (state.push (.echoing cs)).owed = state.owed + cs.length :=
      State.owed_echoing cs
    refine ⟨roomy.fits, ?_, ?_⟩
    · rw [same]
      exact roomy.room
    · have fits := room echoing
      rw [more]
      show state.owed + cs.length ≤ state.tty.writeQ.left
      omega
  case isFalse =>
    exact roomy

theorem write (roomy : Roomy state) : Roomy state.write := by
  unfold State.write
  split
  · exact roomy.push rfl rfl
  · exact roomy

theorem count
    (roomy : Roomy state)
    (c : Byte) :
    Roomy (state.count c) := by
  unfold State.count
  split
  · exact ⟨roomy.fits, roomy.room, roomy.owes⟩
  · exact roomy

/-- A byte arrives that has been owed. -/
theorem putWrite
    {c : Byte}
    (roomy : Roomy state)
    (stack : after.cookings ≤ state.cookings)
    (tty : after.tty = { state.tty with writeQ := state.tty.writeQ.putch c })
    (overflow :
      after.history.overflow = (state.history.overflow || state.tty.writeQ.full))
    (owed : after.owed + 1 = state.owed) :
    Roomy after := by
  have owes := roomy.owes
  have here : state.tty.writeQ.full = false :=
    Queue.not_full_iff.mpr (by omega)
  have less := Queue.left_putch (c := c) here
  refine ⟨?_, ?_, ?_⟩
  · rw [overflow, roomy.fits, here]
    rfl
  · rw [tty]
    exact stack.trans roomy.room
  · rw [tty]
    show after.owed ≤ (state.tty.writeQ.putch c).left
    omega

/-- A byte is taken out of `write_q`. -/
theorem getWrite
    (roomy : Roomy state)
    (nonempty : 0 < state.owed → state.tty.writeQ.empty = false) :
    Roomy state.getWrite := by
  refine ⟨roomy.fits, roomy.room, ?_⟩
  show state.owed ≤ state.tty.writeQ.getch.left
  by_cases nothing : state.owed = 0
  · rw [nothing]
    exact Nat.zero_le _
  · have fewer := Queue.chars_getch (nonempty (Nat.pos_of_ne_zero nothing))
    have before := state.tty.writeQ.chars_add_left
    have after := state.tty.writeQ.getch.chars_add_left
    have owes := roomy.owes
    omega

theorem putRead
    {cs : List Byte}
    (roomy : Roomy state)
    (room : cs.length ≤ state.tty.readQ.left) :
    Roomy (state.putRead cs) := by
  refine ⟨?_, roomy.room, roomy.owes⟩
  show (state.history.overflow || state.tty.readQ.overrun cs) = false
  rw [roomy.fits, Queue.not_overrun room]
  rfl

/-- The answer of the console finds room. -/
theorem conByte
    {c : Byte}
    (roomy : Roomy state)
    (answers :
      asks state.console c = true → response.length ≤ state.tty.readQ.left) :
    Roomy (state.conByte c) := by
  unfold State.conByte
  generalize state.console.writeByte state.tty.termios.verase c = console
  have shown : Roomy { state with console := console } :=
    ⟨roomy.fits, roomy.room, roomy.owes⟩
  dsimp only
  split
  case isTrue asked =>
    exact (shown.putRead (answers asked)).push rfl rfl
  case isFalse =>
    exact shown

end Roomy

/-! ## Moves -/

/-- A move that finds room keeps room. -/
theorem Roomy.move
    {action : Action} {state after : State}
    (roomy : Roomy state)
    (careful : action.Roomy state)
    (move : Move state action after) :
    Roomy after := by
  have calls {later : State}
      (stack : later.stack = state.stack)
      (tty : later.tty = state.tty)
      (history : later.history = state.history)
      (owed : later.owed ≤ state.owed) :
      Roomy later := by
    refine roomy.congr (by rw [history]) ?_ (by rw [tty]) owed (by rw [tty])
    unfold State.cookings
    rw [stack]
  cases move with
  | received input queue =>
    have queued : Roomy (state.setReadQ queue) :=
      ⟨roomy.fits, roomy.room, roomy.owes⟩
    exact queued.push rfl rfl
  | sent serial nonempty =>
    exact roomy.getWrite fun _ => nonempty
  | unsent =>
    exact roomy
  | began idle call outside elsewhere =>
    exact calls rfl rfl rfl (State.owed_free rfl rfl
      (State.owes_not (State.free_of_outside outside)))
  | resumed idle sleeper asleep perm =>
    refine calls rfl rfl rfl (Nat.le_of_eq (State.owed_perm ?_ rfl))
    rw [State.begun_of_none (State.call_of_isIdle idle)]
    exact perm.map Subtype.val
  | faulted alone sleeper calling =>
    refine calls rfl rfl rfl (Nat.le_of_eq (State.owed_perm ?_ rfl))
    unfold State.begun
    rw [calling]
    exact List.Perm.refl _
  | termiosSet idle termios =>
    exact ⟨roomy.fits, roomy.room, roomy.owes⟩
  | crFlagSet idle crFlag =>
    exact ⟨roomy.fits, roomy.room, roomy.owes⟩
  | ended top finished =>
    exact roomy.pop top
  | tested top =>
    exact roomy.push rfl rfl
  | @taken signal stray rest top c queue =>
    have treating : Roomy ((state.setStack rest).push (.treating c)) :=
      (roomy.pop top).push rfl rfl
    exact ⟨treating.fits, treating.room, treating.owes⟩
  | dropped top stopped =>
    have popped := roomy.pop top
    exact ⟨popped.fits, popped.room, popped.owes⟩
  | killed top =>
    exact (roomy.pop top).push rfl rfl
  | @erased signal stray rest busy top erasable echoes =>
    have room := careful.1
    unfold State.EchoFits at room
    rw [echoes] at room
    have popped : Roomy (state.setStack rest) ∧
        (state.setStack rest).owed ≤ state.owed := by
      rcases top with rfl | ⟨c, top⟩
      · exact ⟨roomy, Nat.le_refl _⟩
      · exact ⟨roomy.pop top, Nat.le_of_eq (State.owed_pop top).symm⟩
    have deleting : Roomy ((state.setStack rest).push .deleting) :=
      popped.1.push rfl rfl
    refine deleting.echo fun echoing => ?_
    have fits := room echoing
    have less := popped.2
    rw [State.owed_push rfl]
    show (Termios.ruboutOf state.tty.secondary.last).length + _ ≤ state.tty.writeQ.left
    omega
  | @cooked signal stray rest d c top copied plain echoes =>
    have room := careful.1
    have cooks := careful.2.1
    unfold State.EchoFits at room
    rw [echoes] at room
    unfold State.FrameFits State.CookFits at cooks
    rw [top] at cooks
    dsimp only at cooks
    rw [copied] at cooks
    have popped := roomy.pop top
    have cooking :
        Roomy (((state.setStack rest).count c).push (.cooking c)) := by
      refine (popped.count c).pushCooking ?_
      rw [State.count_left]
      have fewer := cooks plain
      unfold State.cookings at fewer ⊢
      rw [State.count_stack]
      rw [top, List.countP_cons_of_neg Bool.false_ne_true] at fewer
      exact fewer
    refine cooking.echo fun echoing => ?_
    have same := State.owed_pop top
    have echoes' : ((state.setStack rest).count c).tty.termios.echo = true :=
      echoing
    rw [State.count_termios] at echoes'
    have fits := room echoes'
    rw [State.owed_push rfl, State.owed_count]
    show _ ≤ ((state.setStack rest).count c).tty.writeQ.left
    rw [State.count_writeQ]
    show _ ≤ state.tty.writeQ.left
    omega
  | @echoed signal stray rest c cs top =>
    have before := State.owed_pop top
    have later : ((state.setStack rest).push (.echoing cs)).owed =
        (state.setStack rest).owed + cs.length :=
      State.owed_echoing cs
    refine roomy.putWrite ?_ rfl rfl ?_
    · show (Frame.echoing cs :: rest).countP _ ≤ state.stack.countP _
      rw [top]
      exact Nat.le_refl _
    · show ((state.setStack rest).push (.echoing cs)).owed + 1 = state.owed
      rw [later, before]
      rfl
  | flushed top =>
    exact (roomy.pop top).write
  | @deleted signal stray rest top =>
    have nonempty := careful.2.1
    unfold State.FrameFits at nonempty
    rw [top] at nonempty
    have more := Queue.left_dec nonempty
    have popped := roomy.pop top
    refine popped.congr rfl (Nat.le_refl _) ?_ (Nat.le_refl _) rfl
    show state.tty.secondary.left ≤ state.tty.secondary.dec.left
    omega
  | @put signal stray rest c top =>
    have room := roomy.room
    unfold State.cookings at room
    rw [top, List.countP_cons_of_pos rfl] at room
    have here : state.tty.secondary.full = false :=
      Queue.not_full_iff.mpr (by omega)
    have less := Queue.left_putch (c := c) here
    refine ⟨?_, ?_, (roomy.pop top).owes⟩
    · show (state.history.overflow || state.tty.secondary.full) = false
      rw [roomy.fits, here]
      rfl
    · show rest.countP _ ≤ (state.tty.secondary.putch c).left
      omega
  | @counted signal stray rest nr top =>
    have nonempty := careful.2.1
    unfold State.FrameFits at nonempty
    rw [top] at nonempty
    have popped := roomy.pop top
    have same := State.owed_pop top
    have counted :
        Roomy (((state.setStack rest).push (.conWriting nr)).push
          (.showing state.tty.writeQ.first)) :=
      (popped.push rfl rfl).push rfl rfl
    refine counted.getWrite fun owing => nonempty ?_
    rw [State.owed_push rfl, State.owed_push rfl] at owing
    omega
  | @shown signal stray rest c top =>
    have answers := careful.2.1
    unfold State.FrameFits at answers
    rw [top] at answers
    exact (roomy.pop top).conByte answers
  | went alone calling outside next owes elsewhere =>
    exact calls rfl rfl rfl (State.owed_free rfl rfl owes)
  | @slept signal stray call alone calling outside sleeper owes =>
    have goes : (state.setCall (some sleeper.1)).owed ≤ state.owed :=
      State.owed_free rfl rfl (State.owes_not owes)
    exact calls rfl rfl rfl goes
  | readied alone calling nonempty line =>
    exact calls rfl rfl rfl (State.owed_free rfl rfl (State.owes_not rfl))
  | continued alone calling wanted nonempty =>
    exact calls rfl rfl rfl (State.owed_free rfl rfl (State.owes_not rfl))
  | @fetched signal stray c rest alone calling room =>
    have fills := careful.2.2
    unfold State.FillFits at fills
    rw [alone, calling] at fills
    have more : (state.setCall (some (.fetching c rest))).owed +
        state.call.toList.countP Call.isFetching = state.owed + 1 :=
      State.owed_of_calls rfl rfl
    have less := fills room
    refine ⟨roomy.fits, roomy.room, ?_⟩
    show (state.setCall (some (.fetching c rest))).owed ≤ state.tty.writeQ.left
    omega
  | @filled signal stray d rest alone calling c rest' crFlag =>
    refine roomy.putWrite (Nat.le_refl _) rfl rfl ?_
    have fewer :
        ({ (state.putWrite c).setCall (some (.filling rest')) with
            crFlag := crFlag } : State).owed +
          state.call.toList.countP Call.isFetching =
        state.owed + 0 :=
      State.owed_of_calls rfl rfl
    rw [calling] at fewer
    exact fewer
  | @wrote signal stray rest alone calling =>
    have called : Roomy (state.setCall (some (.written rest))) :=
      calls rfl rfl rfl (State.owed_free rfl rfl (State.owes_not rfl))
    exact called.write
  | @got signal stray nr count minimum alone calling =>
    have stack := State.get_stack nr count minimum state
    have asleep := State.get_asleep nr count minimum state
    refine ⟨?_, ?_, ?_⟩
    · unfold State.get
      dsimp only
      split_ifs <;> exact roomy.fits
    · unfold State.cookings
      rw [stack, alone]
      exact Nat.zero_le _
    · rw [State.get_tty]
      refine (State.owed_free stack asleep fun call calls => ?_).trans roomy.owes
      obtain ⟨c, rfl⟩ := State.get_call calls
      rfl

theorem State.Initial.roomy
    {state : State}
    (initial : state.Initial) :
    Roomy state := by
  refine ⟨?_, ?_, ?_⟩
  · rw [initial.history]
  · unfold State.cookings
    rw [State.stack_of_isIdle initial.idle]
    exact Nat.zero_le _
  · unfold State.owed
    rw [State.begun_of_none (State.call_of_isIdle initial.idle), initial.asleep,
      State.stack_of_isIdle initial.idle]
    exact Nat.zero_le _

/--
No `PUTCH` meets a full queue in a run whose echoes, answers and characters for
`secondary` find room.
-/
theorem queues_never_overflow
    {actions : List Action} {state last : State}
    (initial : state.Initial)
    (run :
      Traces
        (fun action before after =>
          State.Step action before after ∧ action.Roomy before)
        actions state last) :
    last.history.overflow = false := by
  have kept : Roomy last :=
    run.invariant
      (fun _ _ _ roomy stepped => roomy.move stepped.2 stepped.1.move)
      initial.roomy
  exact kept.fits

/-- A key is pressed when a task has found room to write to the console. -/
theorem queues_never_overflow_key :
    ∃ (actions : List Action) (last : State),
      Traces
          (fun action before after =>
            State.Step action before after ∧ action.Roomy before)
          actions (State.boot .conWrite initTermios) last ∧
        last.tty.secondary.chars = 1 ∧ last.history.overflow = false := by
  have passed :
      (Traces.runIf State.next
        (fun action state => decide (action.Roomy state))
        (.ttyWrite [0x61] :: .go false false :: .go false false ::
          .key [0x62] :: List.replicate 10 (.go false false) : List Action)
        (State.boot .conWrite initTermios)).any
          (fun last => decide (last.tty.secondary.chars = 1)) = true := by
    decide +kernel
  obtain ⟨last, run, cooked⟩ := Traces.exists_of_decide passed
  exact ⟨_, last, run, cooked, queues_never_overflow (State.boot_initial _ _) run⟩

/-- A serial line that echoes into a queue that `tty_write` has filled. -/
theorem queue_overflows :
    ∃ (actions : List Action) (last : State),
      Traces State.Step actions (State.boot .rsWrite initTermios) last ∧
        last.history.overflow = true ∧
        last.tty.writeQ.empty = true ∧ last.history.taken = [] := by
  have passed :
      (Traces.runIf State.next (fun _ _ => true)
        (.ttyWrite (List.replicate 1023 0x61) ::
          (List.replicate 2048 (.go false false) ++
            .readChar 0x62 :: List.replicate 4 (.go false false)) : List Action)
        (State.boot .rsWrite initTermios)).any
          (fun last =>
            decide (last.history.overflow = true ∧
              last.tty.writeQ.empty = true ∧ last.history.taken = [])) =
        true := by
    decide +kernel
  obtain ⟨last, run, lost⟩ := Traces.exists_of_run passed
  exact ⟨_, last, run, of_decide_eq_true lost⟩

end Terminals

end HitOs
