import HitOs.TerminalLines

namespace HitOs

/-!
# Finished lines

In canonical mode `tty_read` waits until `data` says that there is a finished line.  Its
inner loop does not look at `data` again: where a line is read up to its end and the call
wants more, it goes on into the next line.
-/

namespace Terminals

/-- What is taken for granted of a terminal. -/
structure State.Canonical (state : State) : Prop where
  icanon : state.tty.termios.icanon = true
  vtime : state.tty.termios.vtime = 0
  left : 20 < state.tty.secondary.left

instance {state : State} : Decidable state.Canonical :=
  decidable_of_iff
    (state.tty.termios.icanon = true ∧ state.tty.termios.vtime = 0 ∧
      20 < state.tty.secondary.left)
    ⟨fun ⟨icanon, vtime, left⟩ => ⟨icanon, vtime, left⟩,
      fun ⟨icanon, vtime, left⟩ => ⟨icanon, vtime, left⟩⟩

/--
The condition on a step.  The end-of-file character stays, a character that is taken
back is still there and does not end a line, and where `tty_read` goes on behind a byte,
`data` counts another line at that moment.
-/
def Action.Patient (action : Action) (state : State) : Prop :=
  let queue := state.tty.secondary
  let termios := state.tty.termios
  match action, state.stack, state.call with
  | .go _ _, .deleting :: _, _ =>
    queue.empty = false ∧ endsLine termios.veof queue.last = false
  | .go _ _, [], some (.storing _ nr _ _) =>
    nr ≠ 1 → queue.empty = false → queue.data ≠ 0
  | .setTermios termios', _, _ => termios'.veof = termios.veof
  | _, _, _ => True

instance {action : Action} {state : State} :
    Decidable (action.Patient state) := by
  unfold Action.Patient
  dsimp only
  rcases action with _ | _ | _ | _ | _ | _ | _ | _ | _ | _ <;>
    rcases state.stack with _ | ⟨_ | _ | _ | _ | _ | _ | _ | _ | _, _⟩ <;>
    rcases state.call with _ | ⟨_ | _ | _ | _ | _ | _ | _ | _ | _⟩ <;>
    infer_instance

namespace State

/-- `tty_read` takes a byte only while an end of a line is there or on its way. -/
def Promised (eof : Byte) (state : State) : Prop :=
  ∀ call, state.call = some call → call.isGetting = true → 0 < state.expected eof

end State

/-- The invariant of canonical mode. -/
structure Patient (eof : Byte) (state : State) : Prop where
  counted : Counted eof state
  promised : state.Promised eof
  late : state.history.early = false

/-! ## Bytes that are read too early -/

namespace State

variable {state after : State}

theorem write_history (state : State) :
    state.write.history = state.history := by
  unfold State.write
  split <;> rfl

theorem echo_history (cs : List Byte) (state : State) :
    (state.echo cs).history = state.history := by
  unfold State.echo
  split <;> rfl

theorem count_history (c : Byte) (state : State) :
    (state.count c).history = state.history := by
  unfold State.count
  split <;> rfl

theorem conByte_early (c : Byte) (state : State) :
    (state.conByte c).history.early = state.history.early := by
  unfold State.conByte
  dsimp only
  split <;> rfl

theorem get_early (nr count minimum : Nat) (state : State) :
    (state.get nr count minimum).history.early =
      (state.history.early || (state.tty.termios.icanon &&
        !state.tty.secondary.contents.any fun c =>
          c == 10 || c == state.tty.termios.veof)) := by
  unfold State.get
  dsimp only
  split_ifs <;> rfl

/-- Where the code finds an end of a line, there is one. -/
theorem any_of_lines
    {eof : Byte} {queue : Queue}
    (nonzero : 0 < queue.lines eof) :
    (queue.contents.any fun c => c == 10 || c == eof) = true := by
  obtain ⟨c, member, ends⟩ := List.countP_pos_iff.mp nonzero
  refine List.any_eq_true.mpr ⟨c, member, ?_⟩
  rw [Bool.or_eq_true, beq_iff_eq, beq_iff_eq]
  exact end_of_endsLine ends

/-- Only `tty_read` reads. -/
theorem early_move
    {action : Action}
    (move : Move state action after) :
    after.history.early = state.history.early ∨
      State.Takes action state after := by
  cases move with
  | erased busy top erasable echoes =>
    exact .inl (congrArg History.early (echo_history _ _))
  | cooked top copied plain echoes =>
    refine .inl (congrArg History.early ?_)
    exact (echo_history _ _).trans (count_history _ _)
  | flushed top =>
    exact .inl (congrArg History.early (write_history _))
  | shown top =>
    exact .inl (conByte_early _ _)
  | wrote alone calls =>
    exact .inl (congrArg History.early (write_history _))
  | @got signal stray nr count minimum alone calls =>
    exact .inr
      ⟨signal, stray, nr, count, minimum, rfl, alone, calls, rfl⟩
  | _ =>
    exact .inl rfl

/-- Who is going to take a byte has been so before, or has found `data` not zero. -/
theorem gets_move
    {action : Action} {call : Call}
    (careful : action.Patient state)
    (canonical : state.Canonical)
    (move : Move state action after)
    (calls : after.call = some call)
    (getting : call.isGetting = true) :
    state.call = some call ∨ state.tty.secondary.data ≠ 0 := by
  have elsewhere {next : Option Call} {result : Prop}
      (same : after.call = next)
      (outside : ∀ call, next = some call → call.isGetting = false) :
      result := by
    have free := outside call (same.symm.trans calls)
    exact nomatch free.symm.trans getting
  have stays
      (same : after.call = state.call) :
      state.call = some call ∨ state.tty.secondary.data ≠ 0 :=
    .inl (same.symm.trans calls)
  cases move with
  | began idle call outside gets =>
    exact elsewhere rfl (call_gets_not gets)
  | resumed idle sleeper asleep perm =>
    exact elsewhere rfl
      (call_gets_not (Call.gets_not_of_sleeps sleeper.2))
  | faulted alone sleeper calling =>
    exact elsewhere rfl no_call_gets
  | erased busy top erasable echoes =>
    exact stays (State.echo_call _ _)
  | cooked top copied plain echoes =>
    exact stays ((State.echo_call _ _).trans (State.count_call _ _))
  | flushed top =>
    exact stays (State.write_call _)
  | shown top =>
    exact stays (State.conByte_call _ _)
  | went alone calling outside next owes gets =>
    exact elsewhere rfl gets
  | slept alone calling outside sleeper owes =>
    exact elsewhere rfl no_call_gets
  | readied alone calling nonempty line =>
    exact .inr (line canonical.icanon canonical.left)
  | continued alone calling wanted nonempty =>
    unfold Action.Patient at careful
    dsimp only at careful
    rw [alone, calling] at careful
    exact .inr (careful wanted nonempty)
  | fetched alone calling room =>
    exact elsewhere rfl (call_gets_not rfl)
  | filled alone calling c rest' crFlag =>
    exact elsewhere rfl (call_gets_not rfl)
  | wrote alone calling =>
    exact elsewhere (State.write_call _) (call_gets_not rfl)
  | got alone calling =>
    obtain ⟨c, rfl⟩ := State.get_call calls
    cases getting
  | _ =>
    exact .inl calls

end State

/-- Where `data` is not zero, an end of a line is counted. -/
theorem Counted.expected_pos
    {eof : Byte} {state : State}
    (counted : Counted eof state)
    (data : state.tty.secondary.data ≠ 0) :
    0 < state.expected eof := by
  refine Nat.pos_of_ne_zero fun none => data ?_
  rw [counted.data, none]
  rfl

/-- A byte of a finished line is taken. -/
theorem Patient.get
    {eof : Byte} {state : State} {nr count minimum : Nat}
    (patient : Patient eof state)
    (alone : state.stack = [])
    (calls : state.call = some (.getting nr count minimum))
    (counted : Counted eof (state.get nr count minimum)) :
    Patient eof (state.get nr count minimum) := by
  have same := patient.counted.sameEof
  have expected := patient.promised _ calls rfl
  have lines : 0 < state.tty.secondary.lines eof := by
    unfold State.expected State.endings at expected
    rw [alone] at expected
    exact expected
  refine ⟨counted, ?_, ?_⟩
  · intro call calls' getting
    obtain ⟨c, rfl⟩ := State.get_call calls'
    cases getting
  · rw [State.get_early, patient.late, same, State.any_of_lines lines]
    rw [Bool.not_true, Bool.and_false, Bool.or_false]

theorem Patient.move
    {eof : Byte} {action : Action} {state after : State}
    (patient : Patient eof state)
    (canonical : state.Canonical)
    (careful : action.Patient state)
    (stepped : State.Step action state after) :
    Patient eof after := by
  obtain ⟨counted, promised, late⟩ := patient
  have move := stepped.move
  have same := counted.sameEof
  have found : state.Gets → state.tty.secondary.empty = false := by
    rintro ⟨nr, count, minimum, alone, calls⟩
    have expected := promised _ calls rfl
    unfold State.expected State.endings Queue.lines at expected
    rw [alone] at expected
    refine Queue.not_empty_iff.mpr ?_
    rw [← Queue.length_contents]
    exact Nat.lt_of_lt_of_le expected List.countP_le_length
  have keepsEof : action.KeepsEof eof := by
    intro termios isSet
    subst isSet
    unfold Action.Patient at careful
    exact careful.trans same
  have erases : action.ErasesCharacter eof state := by
    intro signal stray rest isGo top
    subst isGo
    unfold Action.Patient at careful
    dsimp only at careful
    rw [top, same] at careful
    exact careful
  have room : action.HasRoom state := by
    intro signal stray c rest isGo top
    refine Queue.not_full_iff.mpr ?_
    have left := canonical.left
    omega
  obtain ⟨counted', grows⟩ := counted.move keepsEof erases room found move
  by_cases takes : State.Takes action state after
  case pos =>
    obtain ⟨signal, stray, nr, count, minimum, rfl, alone, calls, rfl⟩ :=
      takes
    have patient : Patient eof state := ⟨counted, promised, late⟩
    exact patient.get alone calls counted'
  case neg =>
    refine ⟨counted', ?_, ?_⟩
    · intro call calls getting
      have before : 0 < state.expected eof := by
        rcases State.gets_move careful canonical move calls getting with
          same | line
        · exact promised call same getting
        · exact counted.expected_pos line
      exact Nat.lt_of_lt_of_le before (grows.resolve_right takes)
    · exact ((State.early_move move).resolve_right takes).trans late

/-! ## Runs -/

theorem State.Initial.patient
    {state : State}
    (initial : state.Initial) :
    Patient state.tty.termios.veof state := by
  refine ⟨initial.exact.counted, ?_, ?_⟩
  · intro call calls
    rw [State.call_of_isIdle initial.idle] at calls
    cases calls
  · rw [initial.history]

/--
In a run in canonical mode `tty_read` gets no byte of a line whose end has not been
received, if every step meets the condition.
-/
theorem reads_finished_lines
    {actions : List Action} {state last : State}
    (initial : state.Initial)
    (run :
      Traces
        (fun action before after =>
          State.Step action before after ∧ before.Canonical ∧ action.Patient before)
        actions state last) :
    last.history.early = false := by
  have kept : Patient state.tty.termios.veof last :=
    run.invariant
      (fun _ _ _ patient stepped =>
        patient.move stepped.2.1 stepped.2.2 stepped.1)
      initial.patient
  exact kept.late

/-- A line of one character is read up to its end, with another line begun. -/
theorem reads_finished_lines_two :
    ∃ (actions : List Action) (last : State),
      Traces
          (fun action before after =>
            State.Step action before after ∧ before.Canonical ∧ action.Patient before)
          actions (State.boot .conWrite initTermios) last ∧
        last.tty.secondary.contents = [0x62] ∧
        last.history.early = false := by
  have passed :
      (Traces.runIf State.next
        (fun action state =>
          decide (state.Canonical ∧ action.Patient state))
        (.key [0x61, 0x0a, 0x62] ::
          (List.replicate 31 (.go false false) ++
            .ttyRead 2 :: List.replicate 5 (.go false false)) : List Action)
        (State.boot .conWrite initTermios)).any
          (fun last =>
            decide (last.tty.secondary.contents = [0x62])) = true := by
    decide +kernel
  obtain ⟨last, run, contents⟩ :=
    Traces.exists_of_decide passed
  exact ⟨_, last, run, contents, reads_finished_lines (State.boot_initial _ _) run⟩

/-- A longer call goes on into the line that has just begun. -/
theorem reads_unfinished_line :
    ∃ last,
      Traces
          (fun action before after =>
            State.Step action before after ∧ before.Canonical)
          (.key [0x61, 0x0a, 0x62] ::
            (List.replicate 31 (.go false false) ++
              .ttyRead 3 :: List.replicate 7 (.go false false)))
          (State.boot .conWrite initTermios) last ∧
        last.isIdle = true ∧ last.history.early = true := by
  have passed :
      (Traces.runIf State.next
        (fun _ state => decide state.Canonical)
        (.key [0x61, 0x0a, 0x62] ::
          (List.replicate 31 (.go false false) ++
            .ttyRead 3 :: List.replicate 7 (.go false false)) : List Action)
        (State.boot .conWrite initTermios)).any
          (fun last =>
            decide (last.isIdle = true ∧ last.history.early = true)) =
              true := by
    decide +kernel
  exact Traces.exists_of_decide passed

end Terminals

end HitOs
