import HitOs.TerminalMoves

namespace HitOs

/-!
# The line counter of a terminal

`data` of `secondary` counts the ends of lines in the queue and those on their way to it.
`copy_to_cooked` raises it before the echo and puts the character after it, and `DEC`
comes after an echo too.  An echo can show an answer of the console, whose characters are
cooked in between.
-/

namespace Terminals

/-- Whether a frame brings an end of a line to `secondary`. -/
def Frame.isEnding (eof : Byte) : Frame → Bool
  | .cooking c => endsLine eof c
  | _ => false

/-- The ends of lines in a queue, as the code finds them. -/
def Queue.lines (eof : Byte) (queue : Queue) : Nat :=
  queue.contents.countP (endsLine eof)

/-- The bytes in a queue that are a line feed or the end-of-file character. -/
def Queue.ends (eof : Byte) (queue : Queue) : Nat :=
  queue.contents.countP fun c => c == 10 || c == eof

/-- Input comes between calls. -/
def Action.Sequential (action : Action) (state : State) : Prop :=
  action.isInput = true → state.isIdle = true

/--
The condition on a step.  The end-of-file character stays.  A character that is taken
back is still there and does not end a line; one that is put has room, and is not an
end-of-file character that the code takes for a negative number.
-/
def Action.Honest (action : Action) (state : State) : Prop :=
  let queue := state.tty.secondary
  let eof := state.tty.termios.veof
  match action, state.stack with
  | .go _ _, .deleting :: _ => queue.empty = false ∧ endsLine eof queue.last = false
  | .go _ _, .cooking c :: _ => queue.full = false ∧ (c = eof → endsLine eof c = true)
  | .setTermios termios, _ => termios.veof = eof
  | _, _ => True

instance {action : Action} {state : State} :
    Decidable (action.Sequential state) := by
  unfold Action.Sequential
  infer_instance

instance {action : Action} {state : State} :
    Decidable (action.Honest state) := by
  unfold Action.Honest
  dsimp only
  rcases action with _ | _ | _ | _ | _ | _ | _ | _ | _ | _ <;>
    rcases state.stack with _ | ⟨_ | _ | _ | _ | _ | _ | _ | _ | _, _⟩ <;>
    infer_instance

namespace State

/-- The ends of lines on their way to `secondary`. -/
def endings (eof : Byte) (state : State) : Nat :=
  state.stack.countP (Frame.isEnding eof)

/-- The ends of lines in `secondary` and on their way. -/
def expected (eof : Byte) (state : State) : Nat :=
  state.tty.secondary.lines eof + state.endings eof

section Expected

variable {eof : Byte} {state : State} {frame : Frame} {rest : List Frame}

/-- Frames that bring no end of a line. -/
theorem expected_push
    (other : frame.isEnding eof = false) :
    (state.push frame).expected eof = state.expected eof := by
  have same : (state.push frame).endings eof = state.endings eof :=
    List.countP_cons_of_neg (by rw [other]; exact Bool.false_ne_true)
  unfold expected
  rw [same]
  rfl

theorem expected_pop
    (top : state.stack = frame :: rest)
    (other : frame.isEnding eof = false) :
    (state.setStack rest).expected eof = state.expected eof := by
  have same : (state.setStack rest).endings eof = state.endings eof := by
    unfold endings
    rw [top]
    exact (List.countP_cons_of_neg
      (by rw [other]; exact Bool.false_ne_true)).symm
  unfold expected
  rw [same]
  rfl

theorem expected_write : state.write.expected eof = state.expected eof := by
  unfold State.write
  split
  · exact expected_push rfl
  · rfl

theorem expected_echo (cs : List Byte) :
    (state.echo cs).expected eof = state.expected eof := by
  unfold State.echo
  split
  · exact expected_push rfl
  · rfl

theorem expected_putRead (cs : List Byte) :
    (state.putRead cs).expected eof = state.expected eof :=
  rfl

theorem expected_conByte (c : Byte) :
    (state.conByte c).expected eof = state.expected eof := by
  unfold State.conByte
  dsimp only
  split
  · exact (expected_push rfl).trans (expected_putRead response)
  · rfl

/-- A character sets out. -/
theorem expected_cook (c : Byte) :
    ((state.count c).push (.cooking c)).expected eof =
      state.expected eof + if endsLine eof c then 1 else 0 := by
  have more : ((state.count c).push (.cooking c)).endings eof =
      state.endings eof + if endsLine eof c then 1 else 0 := by
    unfold endings State.push
    dsimp only
    rw [count_stack, List.countP_cons]
    rfl
  have same : ((state.count c).push (.cooking c)).tty.secondary.contents =
      state.tty.secondary.contents := by
    show (state.count c).tty.secondary.contents = _
    unfold State.count
    split <;> rfl
  unfold expected Queue.lines
  rw [more, same]
  omega

/-- It arrives. -/
theorem expected_put
    {c : Byte}
    (top : state.stack = .cooking c :: rest)
    (room : state.tty.secondary.full = false) :
    ((state.setStack rest).putSecondary c).expected eof =
      state.expected eof := by
  have contents := Queue.contents_putch (c := c) room
  have total : (state.tty.secondary.putch c).lines eof +
      rest.countP (Frame.isEnding eof) =
        state.tty.secondary.lines eof + state.endings eof := by
    unfold Queue.lines endings
    rw [contents, top, List.countP_append, List.countP_cons,
      List.countP_cons, List.countP_nil]
    unfold Frame.isEnding
    dsimp only
    omega
  exact total

/-- A character that ends no line is taken back. -/
theorem expected_delete
    (top : state.stack = .deleting :: rest)
    (nonempty : state.tty.secondary.empty = false)
    (other : endsLine eof state.tty.secondary.last = false) :
    ((state.setStack rest).setSecondary state.tty.secondary.dec).expected
        eof =
      state.expected eof := by
  have contents := Queue.contents_dec nonempty
  have same : state.tty.secondary.dec.lines eof =
      state.tty.secondary.lines eof := by
    unfold Queue.lines
    rw [contents, List.countP_append, List.countP_singleton, other]
    rfl
  have popped : (state.setStack rest).expected eof = state.expected eof :=
    expected_pop top rfl
  unfold expected at popped ⊢
  rw [← popped]
  exact congrArg (· + _) same

/-- What `tty_read` leaves in `secondary`. -/
theorem contents_consume (termios : Termios) (queue : Queue) :
    (termios.consume queue).contents = queue.getch.contents := by
  unfold Termios.consume
  split <;> rfl

/-- A byte is taken by `tty_read`, with nothing on its way. -/
theorem expected_get
    (alone : state.stack = [])
    (nonempty : state.tty.secondary.empty = false)
    (nr count minimum : Nat) :
    state.expected eof =
      (state.get nr count minimum).expected eof +
        if endsLine eof state.tty.secondary.first then 1 else 0 := by
  have contents := Queue.contents_getch nonempty
  unfold expected endings Queue.lines
  rw [get_tty, get_stack, alone, contents_consume, contents, List.countP_cons]
  rfl

end Expected

end State

/-- What `data` counts. -/
structure Counted (eof : Byte) (state : State) : Prop where
  sameEof : state.tty.termios.veof = eof
  data : state.tty.secondary.data = BitVec.ofNat 32 (state.expected eof)

namespace Counted

variable {eof : Byte} {state after : State}

/-- Nothing that is counted has changed. -/
theorem congr
    (counted : Counted eof state)
    (sameEof : after.tty.termios.veof = state.tty.termios.veof)
    (data : after.tty.secondary.data = state.tty.secondary.data)
    (expected : after.expected eof = state.expected eof) :
    Counted eof after :=
  ⟨sameEof.trans counted.sameEof, by rw [data, expected, counted.data]⟩

theorem write (counted : Counted eof state) : Counted eof state.write := by
  refine counted.congr ?_ ?_ State.expected_write
  · unfold State.write
    split <;> rfl
  · unfold State.write
    split <;> rfl

theorem push
    {frame : Frame}
    (counted : Counted eof state)
    (other : frame.isEnding eof = false) :
    Counted eof (state.push frame) :=
  counted.congr rfl rfl (State.expected_push other)

theorem pop
    {frame : Frame} {rest : List Frame}
    (counted : Counted eof state)
    (top : state.stack = frame :: rest)
    (other : frame.isEnding eof = false) :
    Counted eof (state.setStack rest) :=
  counted.congr rfl rfl (State.expected_pop top other)

theorem echo
    (counted : Counted eof state)
    (cs : List Byte) :
    Counted eof (state.echo cs) := by
  unfold State.echo
  split
  · exact counted.push rfl
  · exact counted

theorem putRead
    (counted : Counted eof state)
    (cs : List Byte) :
    Counted eof (state.putRead cs) :=
  counted.congr rfl rfl (State.expected_putRead cs)

theorem conByte
    (counted : Counted eof state)
    (c : Byte) :
    Counted eof (state.conByte c) := by
  unfold State.conByte
  generalize state.console.writeByte state.tty.termios.verase c = console
  have shown : Counted eof { state with console := console } :=
    counted.congr rfl rfl rfl
  dsimp only
  split
  · exact (shown.putRead response).push rfl
  · exact shown

/-- A character is counted as it sets out. -/
theorem cook
    (counted : Counted eof state)
    (c : Byte) :
    Counted eof ((state.count c).push (.cooking c)) := by
  obtain ⟨same, data⟩ := counted
  subst same
  have expected :
      ((state.count c).push (.cooking c)).expected state.tty.termios.veof =
        state.expected state.tty.termios.veof +
          if endsLine state.tty.termios.veof c then 1 else 0 :=
    State.expected_cook c
  refine ⟨congrArg Termios.veof (State.count_termios c state), ?_⟩
  rw [expected]
  show (state.count c).tty.secondary.data = _
  unfold State.count Termios.isEnd
  split
  · show state.tty.secondary.data + 1 = _
    rw [BitVec.ofNat_add, ← data]
    rfl
  · exact data

theorem get
    (counted : Counted eof state)
    (alone : state.stack = [])
    (nonempty : state.tty.secondary.empty = false)
    (nr count minimum : Nat) :
    Counted eof (state.get nr count minimum) := by
  obtain ⟨same, data⟩ := counted
  subst same
  have expected :
      state.expected state.tty.termios.veof =
        (state.get nr count minimum).expected state.tty.termios.veof +
          if endsLine state.tty.termios.veof state.tty.secondary.first then 1
          else 0 :=
    State.expected_get alone nonempty nr count minimum
  refine ⟨by rw [State.get_tty], ?_⟩
  rw [State.get_tty]
  rw [expected] at data
  dsimp only
  unfold Termios.consume Termios.isEnd
  split
  case isTrue ending =>
    rw [if_pos ending, BitVec.ofNat_add] at data
    show state.tty.secondary.data - 1 = _
    rw [data]
    exact BitVec.add_sub_cancel _ _
  case isFalse other =>
    rw [if_neg other] at data
    exact data

end Counted

/-! ## Moves -/

namespace Action

/-- The end-of-file character stays as it is. -/
def KeepsEof (action : Action) (eof : Byte) : Prop :=
  ∀ termios, action = .setTermios termios → termios.veof = eof

/-- A character that a step takes back is still there, and does not end a line. -/
def ErasesCharacter (action : Action) (eof : Byte) (state : State) : Prop :=
  ∀ signal stray rest,
    action = .go signal stray → state.stack = .deleting :: rest →
      state.tty.secondary.empty = false ∧ endsLine eof state.tty.secondary.last = false

/-- A character that arrives with a step finds room. -/
def HasRoom (action : Action) (state : State) : Prop :=
  ∀ signal stray c rest,
    action = .go signal stray → state.stack = .cooking c :: rest →
      state.tty.secondary.full = false

end Action

namespace State

/-- The call of `tty_read` that runs is going to take a byte. -/
def Gets (state : State) : Prop :=
  ∃ nr count minimum, state.stack = [] ∧ state.call = some (.getting nr count minimum)

/-- A step of `tty_read` takes a byte. -/
def Takes (action : Action) (before after : State) : Prop :=
  ∃ signal stray nr count minimum,
    action = .go signal stray ∧ before.stack = [] ∧
      before.call = some (.getting nr count minimum) ∧
      after = before.get nr count minimum

end State

/-- The counter stays right, and only `tty_read` lowers it. -/
theorem Counted.move
    {eof : Byte} {action : Action} {state after : State}
    (counted : Counted eof state)
    (keepsEof : action.KeepsEof eof)
    (erases : action.ErasesCharacter eof state)
    (room : action.HasRoom state)
    (found : state.Gets → state.tty.secondary.empty = false)
    (move : Move state action after) :
    Counted eof after ∧
      (state.expected eof ≤ after.expected eof ∨
        State.Takes action state after) := by
  cases move with
  | received input queue =>
    have queued : Counted eof (state.setReadQ queue) :=
      counted.congr rfl rfl rfl
    exact ⟨queued.push rfl, .inl (Nat.le_of_eq (State.expected_push rfl).symm)⟩
  | termiosSet idle termios =>
    exact ⟨⟨keepsEof termios rfl, counted.data⟩, .inl (Nat.le_refl _)⟩
  | @ended signal stray frame rest top finished =>
    have other : frame.isEnding eof = false := by
      rcases finished with rfl | rfl | rfl <;> rfl
    exact ⟨counted.pop top other,
      .inl (Nat.le_of_eq (State.expected_pop top other).symm)⟩
  | tested top =>
    exact ⟨counted.push rfl, .inl (Nat.le_of_eq (State.expected_push rfl).symm)⟩
  | @taken signal stray rest top c queue =>
    have popped : (state.setStack rest).expected eof = state.expected eof :=
      State.expected_pop top rfl
    have same :
        ((state.setStack (.treating c :: rest)).setReadQ queue).expected
            eof =
          state.expected eof :=
      popped
    exact ⟨counted.congr rfl rfl same, .inl (Nat.le_of_eq same.symm)⟩
  | dropped top stopped =>
    have popped := counted.pop top rfl
    exact ⟨popped.congr rfl rfl rfl,
      .inl (Nat.le_of_eq (State.expected_pop top rfl).symm)⟩
  | @killed signal stray rest c top =>
    have same : ((state.setStack rest).push .killing).expected eof =
        state.expected eof :=
      (State.expected_push rfl).trans (State.expected_pop top rfl)
    exact ⟨(counted.pop top rfl).push rfl, .inl (Nat.le_of_eq same.symm)⟩
  | @erased signal stray rest busy top erasable echoes =>
    have popped : Counted eof (state.setStack rest) ∧
        (state.setStack rest).expected eof = state.expected eof := by
      rcases top with rfl | ⟨c, top⟩
      · exact ⟨counted, rfl⟩
      · exact ⟨counted.pop top rfl, State.expected_pop top rfl⟩
    have same : (state.setStack rest).erase.expected eof =
        state.expected eof :=
      ((State.expected_echo _).trans (State.expected_push rfl)).trans popped.2
    have deleting : Counted eof ((state.setStack rest).push .deleting) :=
      popped.1.push rfl
    exact ⟨deleting.echo _, .inl (Nat.le_of_eq same.symm)⟩
  | @cooked signal stray rest d c top copied plain echoes =>
    refine ⟨((counted.pop top rfl).cook c).echo _, .inl ?_⟩
    rw [State.expected_echo, State.expected_cook, State.expected_pop top rfl]
    exact Nat.le_add_right _ _
  | @echoed signal stray rest c cs top =>
    have popped : (state.setStack rest).expected eof = state.expected eof :=
      State.expected_pop top rfl
    have same : ((state.setStack (.echoing cs :: rest)).putWrite c).expected
          eof =
        state.expected eof :=
      popped
    exact ⟨counted.congr rfl rfl same, .inl (Nat.le_of_eq same.symm)⟩
  | @flushed signal stray rest top =>
    have same : (state.setStack rest).write.expected eof =
        state.expected eof :=
      State.expected_write.trans (State.expected_pop top rfl)
    exact ⟨(counted.pop top rfl).write, .inl (Nat.le_of_eq same.symm)⟩
  | @deleted signal stray rest top =>
    obtain ⟨nonempty, other⟩ := erases signal stray rest rfl top
    have same := State.expected_delete top nonempty other
    exact ⟨counted.congr rfl rfl same, .inl (Nat.le_of_eq same.symm)⟩
  | @put signal stray rest c top =>
    have same : ((state.setStack rest).putSecondary c).expected eof =
        state.expected eof :=
      State.expected_put top (room signal stray c rest rfl top)
    exact ⟨counted.congr rfl rfl same, .inl (Nat.le_of_eq same.symm)⟩
  | @counted signal stray rest nr top =>
    have popped : (state.setStack rest).expected eof = state.expected eof :=
      State.expected_pop top rfl
    have same :
        (state.setStack (.showing state.tty.writeQ.first ::
            .conWriting nr :: rest)).getWrite.expected eof =
          state.expected eof :=
      popped
    exact ⟨counted.congr rfl rfl same, .inl (Nat.le_of_eq same.symm)⟩
  | @shown signal stray rest c top =>
    have same : ((state.setStack rest).conByte c).expected eof =
        state.expected eof :=
      (State.expected_conByte c).trans (State.expected_pop top rfl)
    exact ⟨(counted.pop top rfl).conByte c, .inl (Nat.le_of_eq same.symm)⟩
  | @wrote signal stray rest alone calls =>
    have called : Counted eof (state.setCall (some (.written rest))) :=
      counted.congr rfl rfl rfl
    have same : (state.setCall (some (.written rest))).write.expected eof =
        state.expected eof :=
      State.expected_write
    exact ⟨called.write, .inl (Nat.le_of_eq same.symm)⟩
  | @got signal stray nr count minimum alone calls =>
    have gets : state.Gets := ⟨nr, count, minimum, alone, calls⟩
    exact ⟨counted.get alone (found gets) nr count minimum,
      .inr ⟨signal, stray, nr, count, minimum, rfl, alone, calls, rfl⟩⟩
  | _ =>
    -- Neither `secondary` nor what comes to it has changed.
    exact ⟨counted.congr rfl rfl rfl, .inl (Nat.le_refl _)⟩

/-! ## Between calls -/

/-- Every byte of `secondary` that is an end of a line is one for the code. -/
def State.Known (eof : Byte) (state : State) : Prop :=
  ∀ c ∈ state.tty.secondary.contents, endsLine eof c = (c == 10 || c == eof)

/-- `tty_read` takes a byte where it has found one. -/
def State.Finds (state : State) : Prop :=
  ∀ call, state.call = some call → call.isGetting = true →
    state.stack = [] ∧ state.tty.secondary.empty = false

namespace State

variable {state after : State} {eof : Byte}

/-- Taking bytes away leaves known ones. -/
theorem Known.of_subset
    (known : state.Known eof)
    (subset :
      after.tty.secondary.contents ⊆ state.tty.secondary.contents) :
    after.Known eof :=
  fun c member => known c (subset member)

theorem Known.put
    {c : Byte} {rest : List Frame}
    (known : state.Known eof)
    (room : state.tty.secondary.full = false)
    (honest : c = eof → endsLine eof c = true) :
    ((state.setStack rest).putSecondary c).Known eof := by
  have contents := Queue.contents_putch (c := c) room
  show ∀ other ∈ (state.tty.secondary.putch c).contents, _
  rw [contents]
  intro other member
  rcases List.mem_append.mp member with earlier | last
  · exact known other earlier
  · rw [List.mem_singleton.mp last, Bool.eq_iff_iff, Bool.or_eq_true,
      beq_iff_eq, beq_iff_eq]
    refine ⟨end_of_endsLine, ?_⟩
    rintro (feed | isEof)
    · unfold endsLine
      rw [beq_iff_eq.mpr feed, Bool.true_or]
    · exact honest isEof

theorem echo_secondary (cs : List Byte) (state : State) :
    (state.echo cs).tty.secondary = state.tty.secondary := by
  unfold State.echo
  split <;> rfl

theorem write_secondary (state : State) :
    state.write.tty.secondary = state.tty.secondary := by
  unfold State.write
  split <;> rfl

theorem conByte_secondary (c : Byte) (state : State) :
    (state.conByte c).tty.secondary = state.tty.secondary := by
  unfold State.conByte
  dsimp only
  split <;> rfl

theorem contents_count (c : Byte) (state : State) :
    (state.count c).tty.secondary.contents =
      state.tty.secondary.contents := by
  unfold State.count
  split <;> rfl

end State

/-- A step puts no byte that is an end of a line and that the code does not know. -/
theorem State.Known.move
    {eof : Byte} {action : Action} {state after : State}
    (known : state.Known eof)
    (erases : action.ErasesCharacter eof state)
    (room : action.HasRoom state)
    (honest :
      ∀ signal stray c rest,
        action = .go signal stray → state.stack = .cooking c :: rest →
          c = eof → endsLine eof c = true)
    (found : state.Gets → state.tty.secondary.empty = false)
    (move : Move state action after) :
    after.Known eof := by
  have unchanged {later : State}
      (same : later.tty.secondary = state.tty.secondary) :
      later.Known eof := by
    refine known.of_subset ?_
    rw [same]
    exact List.Subset.refl _
  cases move with
  | erased busy top erasable echoes =>
    exact unchanged (State.echo_secondary _ _)
  | @cooked signal stray rest d c top copied plain echoes =>
    refine known.of_subset ?_
    rw [State.echo_secondary]
    show (State.count c _).tty.secondary.contents ⊆ _
    rw [State.contents_count]
    exact List.Subset.refl _
  | flushed top =>
    exact unchanged (State.write_secondary _)
  | @deleted signal stray rest top =>
    refine known.of_subset ?_
    rw [Queue.contents_dec (erases signal stray rest rfl top).1]
    exact List.subset_append_left _ _
  | @put signal stray rest c top =>
    exact known.put (room signal stray c rest rfl top)
      (honest signal stray c rest rfl top)
  | shown top =>
    exact unchanged (State.conByte_secondary _ _)
  | wrote alone calls =>
    exact unchanged (State.write_secondary _)
  | @got signal stray nr count minimum alone calls =>
    refine known.of_subset ?_
    rw [State.get_tty, State.contents_consume,
      Queue.contents_getch (found ⟨nr, count, minimum, alone, calls⟩)]
    exact List.subset_cons_self _ _
  | _ =>
    exact unchanged rfl

namespace State.Finds

variable {state after : State}

/-- While anything runs above a call, it does not take bytes. -/
theorem busy
    (finds : state.Finds)
    (busy : state.stack ≠ [])
    (same : after.call = state.call) :
    after.Finds := by
  intro call calls getting
  rw [same] at calls
  exact absurd (finds call calls getting).1 busy

/-- A call that does not take bytes. -/
theorem outside
    {next : Option Call}
    (same : after.call = next)
    (elsewhere : ∀ call, next = some call → call.isGetting = false) :
    after.Finds := by
  intro call calls getting
  rw [same] at calls
  rw [elsewhere call calls] at getting
  cases getting

/-- `tty_read` looks before it takes a byte, and input comes between calls. -/
theorem move
    {action : Action}
    (finds : state.Finds)
    (sequential : action.Sequential state)
    (move : Move state action after) :
    after.Finds := by
  cases move with
  | received input queue =>
    have free := State.call_of_isIdle (sequential input)
    exact State.Finds.outside free no_call_gets
  | began idle call outside elsewhere =>
    exact State.Finds.outside rfl (call_gets_not elsewhere)
  | resumed idle sleeper asleep perm =>
    exact State.Finds.outside rfl
      (call_gets_not (Call.gets_not_of_sleeps sleeper.2))
  | faulted alone sleeper calls =>
    exact State.Finds.outside rfl no_call_gets
  | termiosSet idle termios =>
    exact finds
  | crFlagSet idle crFlag =>
    exact finds
  | sent serial nonempty =>
    exact finds
  | unsent =>
    exact finds
  | erased busy top erasable echoes =>
    exact finds.busy busy (State.echo_call _ _)
  | cooked top copied plain echoes =>
    exact finds.busy (top ▸ List.cons_ne_nil _ _)
      ((State.echo_call _ _).trans (State.count_call _ _))
  | flushed top =>
    exact finds.busy (top ▸ List.cons_ne_nil _ _) (State.write_call _)
  | shown top =>
    exact finds.busy (top ▸ List.cons_ne_nil _ _) (State.conByte_call _ _)
  | went alone calls outside next owes elsewhere =>
    exact State.Finds.outside rfl elsewhere
  | slept alone calls outside sleeper owes =>
    exact State.Finds.outside rfl no_call_gets
  | readied alone calls nonempty line =>
    exact fun _ _ _ => ⟨alone, nonempty⟩
  | continued alone calls wanted nonempty =>
    exact fun _ _ _ => ⟨alone, nonempty⟩
  | fetched alone calls room =>
    exact State.Finds.outside rfl (call_gets_not rfl)
  | filled alone calls c rest' crFlag =>
    exact State.Finds.outside rfl (call_gets_not rfl)
  | @wrote signal stray rest alone calls =>
    exact State.Finds.outside (State.write_call _)
      (call_gets_not rfl)
  | @got signal stray nr count minimum alone calls =>
    refine State.Finds.outside rfl fun call calls' => ?_
    obtain ⟨c, rfl⟩ := State.get_call calls'
    rfl
  | ended top | tested top | taken top | dropped top | killed top | echoed top
  | deleted top | put top | counted top =>
    exact finds.busy (top ▸ List.cons_ne_nil _ _) rfl

end State.Finds

/-- The counter is right, and `tty_read` finds what it takes. -/
structure Exact (eof : Byte) (state : State) : Prop where
  counted : Counted eof state
  known : state.Known eof
  finds : state.Finds

theorem Exact.move
    {eof : Byte} {action : Action} {state after : State}
    (exactly : Exact eof state)
    (sequential : action.Sequential state)
    (honest : action.Honest state)
    (stepped : State.Step action state after) :
    Exact eof after := by
  obtain ⟨counted, known, finds⟩ := exactly
  have move := stepped.move
  have found : state.Gets → state.tty.secondary.empty = false := by
    rintro ⟨nr, count, minimum, _, calls⟩
    exact (finds _ calls rfl).2
  have same := counted.sameEof
  unfold Action.Honest at honest
  dsimp only at honest
  rw [same] at honest
  have keepsEof : action.KeepsEof eof := by
    intro termios isSet
    subst isSet
    exact honest
  have erases : action.ErasesCharacter eof state := by
    intro signal stray rest isGo top
    subst isGo
    rw [top] at honest
    exact honest
  have room : action.HasRoom state := by
    intro signal stray c rest isGo top
    subst isGo
    rw [top] at honest
    exact honest.1
  refine ⟨(counted.move keepsEof erases room found move).1,
    known.move erases room ?_ found move, finds.move sequential move⟩
  intro signal stray c rest isGo top
  subst isGo
  rw [top] at honest
  exact honest.2

/-! ## Runs -/

theorem State.Initial.exact
    {state : State}
    (initial : state.Initial) :
    Exact state.tty.termios.veof state := by
  have nothing : state.tty.secondary.contents = [] :=
    Queue.contents_eq_nil.mpr initial.secondary
  refine ⟨⟨rfl, ?_⟩, ?_, ?_⟩
  · unfold State.expected Queue.lines State.endings
    rw [nothing, State.stack_of_isIdle initial.idle, initial.data]
    rfl
  · unfold State.Known
    rw [nothing]
    exact fun _ member => absurd member List.not_mem_nil
  · intro call calls
    rw [State.call_of_isIdle initial.idle] at calls
    cases calls

/--
In a run of calls one after the other, `data` is the number of ends of lines in
`secondary` between calls, if every step meets the condition.
-/
theorem data_counts_ends
    {actions : List Action} {state last : State}
    (initial : state.Initial)
    (run :
      Traces
        (fun action before after =>
          State.Step action before after ∧
            action.Sequential before ∧ action.Honest before)
        actions state last)
    (idle : last.isIdle = true) :
    last.tty.secondary.data.toNat =
      last.tty.secondary.ends state.tty.termios.veof := by
  have kept : Exact state.tty.termios.veof last :=
    run.invariant
      (fun _ _ _ exactly stepped =>
        exactly.move stepped.2.1 stepped.2.2 stepped.1)
      initial.exact
  obtain ⟨⟨_, data⟩, known, _⟩ := kept
  have same : last.tty.secondary.lines state.tty.termios.veof =
      last.tty.secondary.ends state.tty.termios.veof :=
    List.countP_congr fun c member => by rw [known c member]
  have few : last.tty.secondary.ends state.tty.termios.veof < 2 ^ 32 := by
    have bound : last.tty.secondary.ends state.tty.termios.veof ≤
        last.tty.secondary.chars := by
      rw [← Queue.length_contents]
      exact List.countP_le_length
    have total := last.tty.secondary.chars_add_left
    omega
  have nothing : last.endings state.tty.termios.veof = 0 := by
    unfold State.endings
    rw [State.stack_of_isIdle idle]
    rfl
  unfold State.expected at data
  rw [data, nothing, same, Nat.add_zero, BitVec.toNat_ofNat, Nat.mod_eq_of_lt few]

/-- A line of one character is typed, and the character is read. -/
theorem data_counts_ends_line :
    ∃ (actions : List Action) (last : State),
      Traces
          (fun action before after =>
            State.Step action before after ∧
              action.Sequential before ∧ action.Honest before)
          actions (State.boot .conWrite initTermios) last ∧
        last.isIdle = true ∧ last.tty.secondary.data.toNat = 1 ∧
        last.tty.secondary.ends 0x04 = 1 := by
  have passed :
      (Traces.runIf State.next
        (fun action state =>
          decide (action.Sequential state ∧ action.Honest state))
        (.key [0x61, 0x0a] ::
          (List.replicate 22 (.go false false) ++
            .ttyRead 1 :: List.replicate 3 (.go false false)) : List Action)
        (State.boot .conWrite initTermios)).any
          (fun last =>
            decide (last.isIdle = true ∧
              last.tty.secondary.data.toNat = 1)) = true := by
    decide +kernel
  obtain ⟨last, run, idle, one⟩ := Traces.exists_of_decide passed
  have ends := data_counts_ends (State.boot_initial _ _) run idle
  exact ⟨_, last, run, idle, one, ends.symm.trans one⟩

/-- An end-of-file character with the highest bit set is not counted. -/
theorem data_misses_end :
    ∃ last,
      Traces
          (fun action before after =>
            State.Step action before after ∧ action.Sequential before)
          (.readChar 0xff :: List.replicate 8 (.go false false))
          (State.boot .rsWrite { initTermios with veof := 0xff }) last ∧
        last.isIdle = true ∧ last.tty.secondary.data.toNat = 0 ∧
        last.tty.secondary.ends 0xff = 1 := by
  have passed :
      (Traces.runIf State.next
        (fun action state => decide (action.Sequential state))
        (.readChar 0xff :: List.replicate 8 (.go false false) : List Action)
        (State.boot .rsWrite { initTermios with veof := 0xff })).any
          (fun last =>
            decide (last.isIdle = true ∧
              last.tty.secondary.data.toNat = 0 ∧
              last.tty.secondary.ends 0xff = 1)) = true := by
    decide +kernel
  exact Traces.exists_of_decide passed

end Terminals

end HitOs
