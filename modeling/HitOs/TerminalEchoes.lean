import HitOs.TerminalMoves

namespace HitOs

/-!
# Echoes in the output of a terminal

`con_write` counts the bytes of `write_q` once and then takes as many.  An echo that
comes in between calls `con_write` too, and that one takes all there are.  What is left
of the first count must then be nothing.  While bytes are still to be put, the `con_write`
that shall take them has not counted yet.
-/

namespace Terminals

/-- What a routine does with `write_q`: it puts, or it takes what it has counted. -/
inductive Output where
  | puts
  | takes (nr : Nat)
deriving DecidableEq

def Frame.output : Frame → Option Output
  | .echoing _ => some .puts
  | .conWriting nr => some (.takes nr)
  | _ => none

/-- No `con_write` has counted more than it has taken. -/
def Through (outputs : List Output) : Prop :=
  ∀ output ∈ outputs, output = .puts ∨ output = .takes 0

instance {outputs : List Output} : Decidable (Through outputs) := by
  unfold Through
  infer_instance

theorem Through.tail
    {output : Output} {outputs : List Output}
    (through : Through (output :: outputs)) :
    Through outputs :=
  fun other member => through other (List.mem_cons_of_mem _ member)

theorem Through.head
    {nr : Nat} {outputs : List Output}
    (through : Through (.takes nr :: outputs)) :
    nr = 0 := by
  rcases through _ List.mem_cons_self with puts | takes
  · cases puts
  · cases takes
    rfl

namespace State

/-- What the routines do with `write_q`, the last one first. -/
def outputs (state : State) : List Output :=
  state.stack.filterMap Frame.output

/--
An echo comes when every `con_write` is through.  Where bytes are being put, it finds room
beside what is owed.
-/
def Unhurried (cs : List Byte) (state : State) : Prop :=
  state.tty.termios.echo = true →
    Through state.outputs ∧
      (state.isFilling = true ∨ .puts ∈ state.outputs →
        cs.length + state.owed ≤ state.tty.writeQ.left)

end State

/-- The condition on a step. -/
def Action.Unhurried (action : Action) (state : State) : Prop :=
  match action with
  | .go _ stray =>
    (match state.echoes stray with
      | some cs => state.Unhurried cs
      | none => True) ∧
      state.FillFits
  | _ => True

instance {cs : List Byte} {state : State} :
    Decidable (state.Unhurried cs) := by
  unfold State.Unhurried
  infer_instance

instance {action : Action} {state : State} :
    Decidable (action.Unhurried state) := by
  unfold Action.Unhurried
  split
  · refine @instDecidableAnd _ _ ?_ _
    split <;> infer_instance
  · infer_instance

/-- The bytes of `write_q` are those that the last `con_write` counts. -/
def State.Due (state : State) : Prop :=
  match state.outputs with
  | [] => state.isFilling = true ∨ state.tty.writeQ.chars = 0
  | .puts :: others => Through others
  | .takes nr :: others => state.tty.writeQ.chars = nr ∧ Through others

/-- The invariant of the output of a console. -/
structure Orderly (state : State) : Prop where
  console : state.tty.write = .conWrite
  found : state.history.underflow = false
  order :
    state.history.taken ++ state.tty.writeQ.contents = state.history.put
  due : state.Due
  owes : state.owed ≤ state.tty.writeQ.left

theorem Termios.length_ruboutOf (c : Byte) :
    (Termios.ruboutOf c).length ≤ 2 := by
  unfold Termios.ruboutOf
  split <;> simp

theorem Termios.length_echoOf (termios : Termios) (c : Byte) :
    (termios.echoOf c).length ≤ 2 := by
  unfold Termios.echoOf
  split_ifs <;> simp

namespace State

variable {state after : State} {frame : Frame} {rest : List Frame}

theorem outputs_push (other : frame.output = none) :
    (state.push frame).outputs = state.outputs :=
  List.filterMap_cons_none other

theorem outputs_pop
    (top : state.stack = frame :: rest)
    (other : frame.output = none) :
    (state.setStack rest).outputs = state.outputs := by
  unfold outputs
  rw [top, List.filterMap_cons_none other]
  rfl

theorem outputs_of_top
    {output : Output}
    (top : state.stack = frame :: rest)
    (here : frame.output = some output) :
    state.outputs = output :: rest.filterMap Frame.output := by
  unfold outputs
  rw [top, List.filterMap_cons_some here]

theorem count_outputs (c : Byte) (state : State) :
    (state.count c).outputs = state.outputs :=
  congrArg (List.filterMap Frame.output) (state.count_stack c)

theorem outputs_alone (alone : state.stack = []) : state.outputs = [] :=
  congrArg (List.filterMap Frame.output) alone

/-- What makes an echo unhurried has not changed. -/
theorem Unhurried.congr
    {cs : List Byte}
    (unhurried : state.Unhurried cs)
    (echo : after.tty.termios.echo = state.tty.termios.echo)
    (filling : after.isFilling = state.isFilling)
    (writeQ : after.tty.writeQ = state.tty.writeQ)
    (outputs : after.outputs = state.outputs)
    (owed : after.owed ≤ state.owed) :
    after.Unhurried cs := by
  unfold Unhurried at unhurried ⊢
  rw [echo, filling, writeQ, outputs]
  intro echoing
  obtain ⟨through, fits⟩ := unhurried echoing
  exact ⟨through, fun busy => (Nat.add_le_add_left owed _).trans (fits busy)⟩

/-- Who puts nothing and does not fill owes nothing. -/
theorem not_owing
    (outside : state.isFilling = false)
    (quiet : .puts ∉ state.outputs) :
    state.owed = 0 := by
  have stack (frames : List Frame)
      (quiet : .puts ∉ frames.filterMap Frame.output) :
      (frames.map Frame.owed).sum = 0 := by
    induction frames with
    | nil =>
      rfl
    | cons frame frames inductionHypothesis =>
      rw [List.map_cons, List.sum_cons, inductionHypothesis, Nat.add_zero]
      · cases frame with
        | echoing cs =>
          exact absurd List.mem_cons_self quiet
        | _ =>
          rfl
      · intro later
        obtain ⟨frame, inside, same⟩ := List.mem_filterMap.mp later
        exact quiet (List.mem_filterMap.mpr
          ⟨frame, List.mem_cons_of_mem _ inside, same⟩)
  have calls : state.begun.countP Call.isFetching = 0 := by
    refine List.countP_eq_zero.mpr fun call member fetching => ?_
    have fills : state.isFilling = true := by
      refine List.any_eq_true.mpr ⟨call, member, ?_⟩
      cases call with
      | fetching =>
        rfl
      | _ =>
        cases fetching
    exact nomatch outside.symm.trans fills
  unfold owed
  rw [stack state.stack quiet, calls]

end State

namespace Orderly

variable {state after : State} {frame : Frame} {rest : List Frame}

/-- Nothing of the output has changed. -/
theorem congr
    (orderly : Orderly state)
    (write : after.tty.write = state.tty.write)
    (writeQ : after.tty.writeQ = state.tty.writeQ)
    (put : after.history.put = state.history.put)
    (taken : after.history.taken = state.history.taken)
    (underflow : after.history.underflow = state.history.underflow)
    (filling : state.isFilling = true → after.isFilling = true)
    (outputs : after.outputs = state.outputs)
    (owed : after.owed ≤ state.owed) :
    Orderly after := by
  obtain ⟨console, found, order, due, owes⟩ := orderly
  refine ⟨write.trans console, underflow.trans found, ?_, ?_, ?_⟩
  · rw [taken, writeQ, put]
    exact order
  · unfold State.Due at due ⊢
    rw [outputs, writeQ]
    split at due
    · exact due.imp_left filling
    · exact due
    · exact due
  · rw [writeQ]
    exact owed.trans owes

/-- Frames that have nothing to do with `write_q`. -/
theorem push
    (orderly : Orderly state)
    (other : frame.output = none)
    (free : frame.owed = 0) :
    Orderly (state.push frame) :=
  orderly.congr rfl rfl rfl rfl rfl id (State.outputs_push other)
    (Nat.le_of_eq (State.owed_push free))

theorem pop
    (orderly : Orderly state)
    (top : state.stack = frame :: rest)
    (other : frame.output = none) :
    Orderly (state.setStack rest) := by
  refine orderly.congr rfl rfl rfl rfl rfl id (State.outputs_pop top other) ?_
  rw [State.owed_pop top]
  exact Nat.le_add_right _ _

theorem count
    (orderly : Orderly state)
    (c : Byte) :
    Orderly (state.count c) := by
  unfold State.count
  split
  · exact orderly.congr rfl rfl rfl rfl rfl id rfl (Nat.le_refl _)
  · exact orderly

/-- What a `con_write` begins with. -/
theorem write
    (console : state.tty.write = .conWrite)
    (found : state.history.underflow = false)
    (order :
      state.history.taken ++ state.tty.writeQ.contents = state.history.put)
    (through : Through state.outputs)
    (owes : state.owed ≤ state.tty.writeQ.left) :
    Orderly state.write := by
  unfold State.write
  rw [console]
  refine ⟨console, found, order, ⟨rfl, through⟩, ?_⟩
  rw [State.owed_push rfl]
  exact owes

/-- When every `con_write` is through and none puts, there is nothing in `write_q`. -/
theorem drained
    (orderly : Orderly state)
    (through : Through state.outputs)
    (outside : state.isFilling = false)
    (quiet : .puts ∉ state.outputs) :
    state.tty.writeQ.chars = 0 := by
  have due := orderly.due
  unfold State.Due at due
  split at due
  case _ =>
    rw [outside] at due
    exact due.resolve_left Bool.false_ne_true
  case _ others outputs =>
    rw [outputs] at quiet
    exact absurd List.mem_cons_self quiet
  case _ nr others outputs =>
    rw [outputs] at through
    exact due.1.trans through.head

/-- An echo sets out behind the output. -/
theorem echo
    {cs : List Byte}
    (orderly : Orderly state)
    (short : cs.length ≤ 2)
    (unhurried : state.Unhurried cs) :
    Orderly (state.echo cs) := by
  unfold State.echo
  split
  case isTrue echo =>
    obtain ⟨through, fits⟩ := unhurried echo
    refine ⟨orderly.console, orderly.found, orderly.order, through, ?_⟩
    rw [State.owed_echoing]
    show state.owed + cs.length ≤ state.tty.writeQ.left
    by_cases busy : state.isFilling = true ∨ .puts ∈ state.outputs
    · have room := fits busy
      omega
    · obtain ⟨outside, quiet⟩ := not_or.mp busy
      have free := eq_false_of_ne_true outside
      have nothing := orderly.drained through free quiet
      have none := State.not_owing free quiet
      have total := state.tty.writeQ.chars_add_left
      omega
  case isFalse =>
    exact orderly

/-- A byte is put that has been owed. -/
theorem putWrite
    {c : Byte}
    (orderly : Orderly state)
    (tty : after.tty = { state.tty with writeQ := state.tty.writeQ.putch c })
    (put : after.history.put = state.history.put ++ [c])
    (taken : after.history.taken = state.history.taken)
    (underflow : after.history.underflow = state.history.underflow)
    (owed : after.owed + 1 = state.owed)
    (due : after.Due) :
    Orderly after := by
  have owes := orderly.owes
  have room : state.tty.writeQ.full = false :=
    Queue.not_full_iff.mpr (by omega)
  have less := Queue.left_putch (c := c) room
  refine ⟨?_, underflow.trans orderly.found, ?_, due, ?_⟩
  · rw [tty]
    exact orderly.console
  · rw [tty, put, taken, ← orderly.order]
    show _ ++ (state.tty.writeQ.putch c).contents = _
    rw [Queue.contents_putch room, List.append_assoc]
  · rw [tty]
    show after.owed ≤ (state.tty.writeQ.putch c).left
    omega

/-- A `con_write` takes a byte it has counted. -/
theorem counted
    {nr : Nat}
    (orderly : Orderly state)
    (top : state.stack = .conWriting (nr + 1) :: rest)
    (c : Byte) :
    Orderly
      (state.setStack (.showing c :: .conWriting nr :: rest)).getWrite := by
  have outputs := State.outputs_of_top top rfl
  obtain ⟨console, found, order, due, owes⟩ := orderly
  unfold State.Due at due
  rw [outputs] at due
  obtain ⟨counted, through⟩ := due
  have nonempty : state.tty.writeQ.empty = false :=
    Queue.not_empty_iff.mpr (by omega)
  have fewer := Queue.chars_getch nonempty
  refine ⟨console, ?_, ?_, ⟨?_, through⟩, ?_⟩
  · show (state.history.underflow || state.tty.writeQ.empty) = false
    rw [found, nonempty]
    rfl
  · show (state.history.taken ++ [state.tty.writeQ.first]) ++
      state.tty.writeQ.getch.contents = state.history.put
    rw [← order, Queue.contents_getch nonempty, List.append_assoc]
    rfl
  · show state.tty.writeQ.getch.chars = nr
    omega
  · have pushed : (((state.setStack rest).push (.conWriting nr)).push
          (.showing c)).owed = ((state.setStack rest).push (.conWriting nr)).owed :=
      State.owed_push rfl
    have same : ((state.setStack rest).push (.conWriting nr)).owed =
        (state.setStack rest).owed :=
      State.owed_push rfl
    have before := State.owed_pop top
    have total := state.tty.writeQ.chars_add_left
    have total' := state.tty.writeQ.getch.chars_add_left
    show (((state.setStack rest).push (.conWriting nr)).push
      (.showing c)).owed ≤ state.tty.writeQ.getch.left
    omega

theorem putRead
    (orderly : Orderly state)
    (cs : List Byte) :
    Orderly (state.putRead cs) :=
  orderly.congr rfl rfl rfl rfl rfl id rfl (Nat.le_refl _)

/-- The answer of the console does not touch its output. -/
theorem conByte
    (orderly : Orderly state)
    (c : Byte) :
    Orderly (state.conByte c) := by
  unfold State.conByte
  generalize state.console.writeByte state.tty.termios.verase c = console
  have shown : Orderly { state with console := console } :=
    orderly.congr rfl rfl rfl rfl rfl id rfl (Nat.le_refl _)
  dsimp only
  split
  · exact (shown.putRead response).push rfl rfl
  · exact shown

/-- Any call can be next, if none forgets what it has put. -/
theorem calls
    (orderly : Orderly state)
    (alone : state.stack = [])
    (stack : after.stack = state.stack)
    (tty : after.tty = state.tty)
    (history : after.history = state.history)
    (owed : after.owed ≤ state.tty.writeQ.left)
    (filling : state.isFilling = true → after.isFilling = true) :
    Orderly after := by
  have nobody : after.outputs = [] := State.outputs_alone (stack.trans alone)
  refine ⟨by rw [tty]; exact orderly.console, by rw [history]; exact orderly.found,
    by rw [tty, history]; exact orderly.order, ?_, by rw [tty]; exact owed⟩
  have due := orderly.due
  unfold State.Due at due ⊢
  rw [State.outputs_alone alone] at due
  rw [nobody, tty]
  exact due.imp_left filling

/-- A call that does not fill goes on with one that owes nothing. -/
theorem setCall
    {next : Option Call}
    (orderly : Orderly state)
    (alone : state.stack = [])
    (outside : ∀ call, state.call = some call → call.isFilling = false)
    (owes : ∀ call, next = some call → call.isFetching = false) :
    Orderly (state.setCall next) := by
  have owed : (state.setCall next).owed ≤ state.owed :=
    State.owed_free rfl rfl owes
  exact orderly.calls alone rfl rfl rfl (owed.trans orderly.owes)
    (State.filling_of_asleep rfl outside)

/-- A count that is at its end goes away. -/
theorem ended
    (orderly : Orderly state)
    (top : state.stack = frame :: rest)
    (finished : frame = .copying ∨ frame = .killing ∨ frame = .conWriting 0) :
    Orderly (state.setStack rest) := by
  rcases finished with rfl | rfl | rfl
  · exact orderly.pop top rfl
  · exact orderly.pop top rfl
  · have outputs := State.outputs_of_top top rfl
    have same := State.owed_pop top
    obtain ⟨console, found, order, due, owes⟩ := orderly
    unfold State.Due at due
    rw [outputs] at due
    obtain ⟨counted, through⟩ := due
    refine ⟨console, found, order, ?_, ?_⟩
    · unfold State.Due
      show match rest.filterMap Frame.output with
        | [] => _
        | .puts :: others => Through others
        | .takes nr :: others => _
      split
      case _ =>
        exact .inr counted
      case _ others remain =>
        rw [remain] at through
        exact through.tail
      case _ nr others remain =>
        rw [remain] at through
        exact ⟨counted.trans through.head.symm, through.tail⟩
    · show (state.setStack rest).owed ≤ state.tty.writeQ.left
      omega

end Orderly

theorem State.Initial.orderly
    {state : State}
    (initial : state.Initial)
    (console : state.tty.write = .conWrite) :
    Orderly state := by
  have alone := State.stack_of_isIdle initial.idle
  refine ⟨console, ?_, ?_, ?_, ?_⟩
  · rw [initial.history]
  · rw [initial.history, Queue.contents_eq_nil.mpr initial.writeQ]
    rfl
  · unfold State.Due
    rw [State.outputs_alone alone]
    exact .inr (Queue.empty_iff.mp initial.writeQ)
  · unfold State.owed
    rw [State.begun_of_none (State.call_of_isIdle initial.idle), initial.asleep, alone]
    exact Nat.zero_le _

/-- A step takes only what is there, in order. -/
theorem Orderly.move
    {action : Action} {state after : State}
    (orderly : Orderly state)
    (unhurried : action.Unhurried state)
    (move : Move state action after) :
    Orderly after := by
  cases move with
  | received input queue =>
    have queued : Orderly (state.setReadQ queue) :=
      orderly.congr rfl rfl rfl rfl rfl id rfl (Nat.le_refl _)
    exact queued.push rfl rfl
  | sent serial nonempty =>
    exact absurd (serial.symm.trans orderly.console) (by decide)
  | unsent =>
    exact orderly
  | began idle call outside elsewhere =>
    refine orderly.setCall (State.stack_of_isIdle idle) ?_
      (State.owes_not (State.free_of_outside outside))
    rw [State.call_of_isIdle idle]
    exact fun _ absent => nomatch absent
  | resumed idle sleeper asleep perm =>
    have same : ({ state with
          call := some sleeper.1
          asleep := asleep } : State).begun.Perm state.begun := by
      rw [State.begun_of_none (State.call_of_isIdle idle)]
      exact perm.map Subtype.val
    have owed := State.owed_perm same rfl
    have filling := State.filling_perm same
    exact orderly.calls (State.stack_of_isIdle idle) rfl rfl rfl
      (owed.trans_le orderly.owes) (filling.trans ·)
  | faulted alone sleeper calling =>
    have same : (state.sleep sleeper).begun.Perm state.begun := by
      unfold State.begun
      rw [calling]
      exact List.Perm.refl _
    have owed := State.owed_perm same rfl
    have filling := State.filling_perm same
    exact orderly.calls alone rfl rfl rfl
      (owed.trans_le orderly.owes) (filling.trans ·)
  | termiosSet idle termios =>
    exact orderly.congr rfl rfl rfl rfl rfl id rfl (Nat.le_refl _)
  | crFlagSet idle crFlag =>
    exact orderly.congr rfl rfl rfl rfl rfl id rfl (Nat.le_refl _)
  | ended top finished =>
    exact orderly.ended top finished
  | tested top =>
    exact orderly.push rfl rfl
  | @taken signal stray rest top c queue =>
    have treating : Orderly ((state.setStack rest).push (.treating c)) :=
      (orderly.pop top rfl).push rfl rfl
    exact treating.congr rfl rfl rfl rfl rfl id rfl (Nat.le_refl _)
  | dropped top stopped =>
    exact (orderly.pop top rfl).congr rfl rfl rfl rfl rfl id rfl
      (Nat.le_refl _)
  | killed top =>
    exact (orderly.pop top rfl).push rfl rfl
  | @erased signal stray rest busy top erasable echoes =>
    have hurry := unhurried.1
    rw [echoes] at hurry
    have popped : Orderly (state.setStack rest) ∧
        (state.setStack rest).outputs = state.outputs ∧
        (state.setStack rest).owed ≤ state.owed := by
      rcases top with rfl | ⟨c, top⟩
      · exact ⟨orderly, rfl, Nat.le_refl _⟩
      · exact ⟨orderly.pop top rfl, State.outputs_pop top rfl,
          Nat.le_of_eq (State.owed_pop top).symm⟩
    obtain ⟨kept, outputs, owed⟩ := popped
    have deleting : Orderly ((state.setStack rest).push .deleting) :=
      kept.push rfl rfl
    exact deleting.echo (Termios.length_ruboutOf _)
      (hurry.congr rfl rfl rfl
        ((State.outputs_push rfl).trans outputs)
        ((Nat.le_of_eq (State.owed_push rfl)).trans owed))
  | @cooked signal stray rest d c top copied plain echoes =>
    have hurry := unhurried.1
    rw [echoes] at hurry
    have cooking :
        Orderly (((state.setStack rest).count c).push (.cooking c)) :=
      ((orderly.pop top rfl).count c).push rfl rfl
    have outputs := State.outputs_pop top rfl
    refine cooking.echo (Termios.length_echoOf _ _)
      (hurry.congr ?_ ?_ ?_ ?_ ?_)
    · exact congrArg Termios.echo (State.count_termios c _)
    · exact State.count_filling c _
    · exact State.count_writeQ c _
    · exact ((State.outputs_push rfl).trans (State.count_outputs c _)).trans
        outputs
    · rw [State.owed_push rfl, State.owed_count, State.owed_pop top]
      exact Nat.le_add_right _ _
  | @echoed signal stray rest c cs top =>
    have before := State.owed_pop top
    have later : ((state.setStack rest).push (.echoing cs)).owed =
        (state.setStack rest).owed + cs.length :=
      State.owed_echoing cs
    have outputs := State.outputs_of_top top rfl
    have due := orderly.due
    unfold State.Due at due
    rw [outputs] at due
    refine orderly.putWrite rfl rfl rfl rfl ?_ due
    show ((state.setStack rest).push (.echoing cs)).owed + 1 = state.owed
    rw [later, before]
    rfl
  | @flushed signal stray rest top =>
    have outputs := State.outputs_of_top top rfl
    have due := orderly.due
    unfold State.Due at due
    rw [outputs] at due
    refine Orderly.write orderly.console orderly.found orderly.order due ?_
    refine Nat.le_trans ?_ orderly.owes
    rw [State.owed_pop top]
    exact Nat.le_add_right _ _
  | deleted top =>
    exact (orderly.pop top rfl).congr rfl rfl rfl rfl rfl id rfl
      (Nat.le_refl _)
  | put top =>
    exact (orderly.pop top rfl).congr rfl rfl rfl rfl rfl id rfl
      (Nat.le_refl _)
  | counted top =>
    exact orderly.counted top _
  | shown top =>
    exact (orderly.pop top rfl).conByte _
  | went alone calling outside next owes elsewhere =>
    exact orderly.setCall alone (State.outside_only calling outside) owes
  | @slept signal stray call alone calling outside sleeper owes =>
    have goes : (state.setCall (some sleeper.1)).owed ≤ state.owed :=
      State.owed_free rfl rfl (State.owes_not owes)
    have fills : state.isFilling = true →
        (state.setCall (some sleeper.1)).isFilling = true :=
      State.filling_of_asleep rfl (State.outside_only calling outside)
    exact orderly.calls alone rfl rfl rfl (goes.trans orderly.owes) fills
  | readied alone calling nonempty line =>
    exact orderly.setCall alone (State.outside_only calling rfl)
      (State.owes_not rfl)
  | continued alone calling wanted nonempty =>
    exact orderly.setCall alone (State.outside_only calling rfl)
      (State.owes_not rfl)
  | @fetched signal stray c rest alone calling room =>
    have fills := unhurried.2
    unfold State.FillFits at fills
    rw [alone, calling] at fills
    have more : (state.setCall (some (.fetching c rest))).owed +
        state.call.toList.countP Call.isFetching = state.owed + 1 :=
      State.owed_of_calls rfl rfl
    have less := fills room
    refine orderly.calls alone rfl rfl rfl (by omega) fun _ => ?_
    exact List.any_eq_true.mpr ⟨_, List.mem_cons_self, rfl⟩
  | @filled signal stray d rest alone calling c rest' crFlag =>
    have fewer :
        ({ (state.putWrite c).setCall (some (.filling rest')) with
            crFlag := crFlag } : State).owed +
          state.call.toList.countP Call.isFetching =
        state.owed + 0 :=
      State.owed_of_calls rfl rfl
    rw [calling] at fewer
    refine orderly.putWrite rfl rfl rfl rfl fewer ?_
    unfold State.Due
    rw [State.outputs_alone (by exact alone)]
    exact .inl (List.any_eq_true.mpr ⟨_, List.mem_cons_self, rfl⟩)
  | @wrote signal stray rest alone calling =>
    have owed : (state.setCall (some (.written rest))).owed ≤ state.owed :=
      State.owed_free rfl rfl (State.owes_not rfl)
    refine Orderly.write orderly.console orderly.found orderly.order ?_
      (owed.trans orderly.owes)
    rw [State.outputs_alone (by exact alone)]
    exact fun _ member => nomatch member
  | @got signal stray nr count minimum alone calling =>
    have stack := State.get_stack nr count minimum state
    have asleep := State.get_asleep nr count minimum state
    have owed : (state.get nr count minimum).owed ≤ state.owed := by
      refine State.owed_free stack asleep fun call calls => ?_
      obtain ⟨c, rfl⟩ := State.get_call calls
      rfl
    refine orderly.congr (by rw [State.get_tty]) (by rw [State.get_tty])
      ?_ ?_ ?_ (State.filling_of_asleep asleep (State.outside_only calling rfl))
      (congrArg (List.filterMap Frame.output) stack) owed
    all_goals
      unfold State.get
      dsimp only
      split_ifs <;> rfl

/-! ## Runs -/

/--
On a console every byte that is put into `write_q` is taken out once and in order, and
none is taken where there is none, in a run whose echoes meet the condition.
-/
theorem output_survives_echo
    {actions : List Action} {state last : State}
    (initial : state.Initial)
    (console : state.tty.write = .conWrite)
    (run :
      Traces
        (fun action before after =>
          State.Step action before after ∧ action.Unhurried before)
        actions state last) :
    last.history.underflow = false ∧
      last.history.taken ++ last.tty.writeQ.contents =
        last.history.put := by
  have kept : Orderly last :=
    run.invariant
      (fun _ _ _ orderly stepped => orderly.move stepped.2 stepped.1.move)
      (initial.orderly console)
  exact ⟨kept.found, kept.order⟩

/-- A key is pressed when `con_write` has shown all it has counted. -/
theorem output_survives_echo_key :
    ∃ (actions : List Action) (last : State),
      Traces
          (fun action before after =>
            State.Step action before after ∧ action.Unhurried before)
          actions (State.boot .conWrite initTermios) last ∧
        last.history.taken = [0x61, 0x62, 0x78] ∧
        last.history.underflow = false := by
  have passed :
      (Traces.runIf State.next
        (fun action state => decide (action.Unhurried state))
        (.ttyWrite [0x61, 0x62] ::
          (List.replicate 10 (.go false false) ++
            .key [0x78] :: List.replicate 6 (.go false false)) : List Action)
        (State.boot .conWrite initTermios)).any
          (fun last =>
            decide (last.history.taken = [0x61, 0x62, 0x78])) = true := by
    decide +kernel
  obtain ⟨last, run, taken⟩ :=
    Traces.exists_of_decide passed
  exact ⟨_, last, run, taken, (output_survives_echo (State.boot_initial _ _) rfl run).1⟩

/-- A key is pressed when `con_write` has shown the first of two bytes. -/
theorem echo_steals_output :
    ∃ (actions : List Action) (last : State),
      Traces State.Step actions (State.boot .conWrite initTermios) last ∧
        last.history.underflow = true ∧ last.history.put = [0x61, 0x62, 0x78] ∧
        last.history.taken.length = 4 := by
  have passed :
      (Traces.runIf State.next (fun _ _ => true)
        (.ttyWrite [0x61, 0x62] ::
          (List.replicate 8 (.go false false) ++
            .key [0x78] :: List.replicate 13 (.go false false)) : List Action)
        (State.boot .conWrite initTermios)).any
          (fun last =>
            decide (last.history.underflow = true ∧
              last.history.put = [0x61, 0x62, 0x78] ∧
              last.history.taken.length = 4)) = true := by
    decide +kernel
  obtain ⟨last, run, stolen⟩ := Traces.exists_of_run passed
  exact ⟨_, last, run, of_decide_eq_true stolen⟩

end Terminals

end HitOs
