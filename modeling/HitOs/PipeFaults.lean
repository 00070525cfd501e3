import HitOs.PipeBytes
import HitOs.PipeSleepers

namespace HitOs

/-!
# Page faults in the copy loops of a pipe

`read_pipe` and `write_pipe` move `PIPE_TAIL` and `PIPE_HEAD` before they copy.  A page
fault in the copy loop gives the other tasks a pipe with bytes that are not stored, or
with room for bytes where a reader has yet to copy.  Otherwise the bytes of the stream
lie in the pipe by their numbers.
-/

namespace Pipes

variable {ι : Type} [DecidableEq ι]

namespace State

/-- Every place between `PIPE_TAIL` and `PIPE_HEAD` holds the byte that has been
written for it. -/
def Published (state : State ι) : Prop :=
  ∀ i, i < state.pipe.size →
    state.history.serial ((state.pipe.tail + i) % pageSize) =
      some (state.history.released + i)

/-- A place can be stored to before the task goes on. -/
def CanOverwrite
    (initTask reader : ι)
    (place : Nat)
    (state : State ι) : Prop :=
  ∃ actions after,
    Traces
      (fun action before after =>
        (pipeMachine initTask).Step before action after ∧
          ∀ fault, action ≠ .resume reader fault)
      actions state after ∧
    after.history.serial place ≠ state.history.serial place

/-- What a reader that waits for a page has yet to copy stays as it is. -/
def Protected (initTask : ι) (state : State ι) : Prop :=
  ∀ reader val chars size count done buf,
    state.point reader = .putting val chars size count done buf →
    ∀ i, i < chars → ¬ state.CanOverwrite initTask reader (size + i)

end State

/-- No page is missing at a byte that a turn of `write_pipe` copies. -/
def WritesCarefully
    (fault : Option Nat)
    (count : Nat)
    (state : State ι) : Prop :=
  ∀ present, fault = some present → min count state.pipe.room ≤ present

/--
If a page is missing at a byte that a turn of `read_pipe` copies, then there are no
writers, or it is the last byte of its pass.
-/
def ReadsCarefully
    (fault : Option Nat)
    (count : Nat)
    (state : State ι) : Prop :=
  ∀ present, fault = some present → state.writeEnd = true →
    chunkEnd state.pipe.tail (min count state.pipe.size) present ≤ present + 1

/-- The condition on the turn of a task that goes on. -/
def Point.Careful
    (fault : Option Nat)
    (state : State ι) : Point → Prop
  | .reading count _ _ => ReadsCarefully fault count state
  | .putting _ chars _ count _ _ =>
    ReadsCarefully (fault.map fun bytes => bytes - chars) count state
  | .writing _ count _ => WritesCarefully fault count state
  | .user _ | .getting _ _ _ _ _ _ => True

/-- The condition on the buffers. -/
def Action.Careful (action : Action ι) (state : State ι) : Prop :=
  match action with
  | .read _ count fault => ReadsCarefully fault count.toNat state
  | .write _ _ count fault => WritesCarefully fault count.toNat state
  | .resume current fault => (state.point current).Careful fault state
  | .closeRead | .closeWrite => True

instance
    {fault : Option Nat} {count : Nat} {state : State ι} :
    Decidable (WritesCarefully fault count state) :=
  match fault with
  | none => isTrue nofun
  | some present =>
    decidable_of_iff (min count state.pipe.room ≤ present)
      ⟨fun upTo _ known => Option.some.inj known ▸ upTo,
        fun careful => careful present rfl⟩

instance
    {fault : Option Nat} {count : Nat} {state : State ι} :
    Decidable (ReadsCarefully fault count state) :=
  match fault with
  | none => isTrue nofun
  | some present =>
    decidable_of_iff
      (state.writeEnd = true →
        chunkEnd state.pipe.tail (min count state.pipe.size) present ≤ present + 1)
      ⟨fun upTo _ known => Option.some.inj known ▸ upTo,
        fun careful => careful present rfl⟩

instance
    {fault : Option Nat} {state : State ι} {point : Point} :
    Decidable (point.Careful fault state) :=
  match point with
  | .reading count _ _ => inferInstanceAs (Decidable (ReadsCarefully fault count state))
  | .putting _ chars _ count _ _ =>
    inferInstanceAs (Decidable (ReadsCarefully
      (fault.map fun bytes => bytes - chars) count state))
  | .writing _ count _ =>
    inferInstanceAs (Decidable (WritesCarefully fault count state))
  | .user _ | .getting _ _ _ _ _ _ => isTrue trivial

instance
    {action : Action ι} {state : State ι} :
    Decidable (action.Careful state) :=
  match action with
  | .read _ count fault =>
    inferInstanceAs (Decidable (ReadsCarefully fault count.toNat state))
  | .write _ _ count fault =>
    inferInstanceAs (Decidable (WritesCarefully fault count.toNat state))
  | .resume current fault =>
    inferInstanceAs (Decidable ((state.point current).Careful fault state))
  | .closeRead | .closeWrite => isTrue trivial

/-! ## The numbers of the bytes -/

/-- The bytes in the pipe are those that have been claimed and not released. -/
structure Numbered (state : State ι) : Prop where
  inRange : state.pipe.InRange
  claimed :
    state.history.claimed = state.history.released + state.pipe.size
  serial :
    Ring.window pageSize state.history.serial state.pipe.tail
        state.pipe.size =
      (List.range' state.history.released state.pipe.size).map some

namespace Numbered

variable {state after : State ι}

/-- The numbers do not depend on where the tasks are. -/
theorem congr
    (numbered : Numbered state)
    (pipe : after.pipe.head = state.pipe.head ∧ after.pipe.tail = state.pipe.tail)
    (history : after.history.claimed = state.history.claimed ∧
      after.history.released = state.history.released ∧
      after.history.serial = state.history.serial) :
    Numbered after := by
  obtain ⟨head, tail⟩ := pipe
  obtain ⟨claimed, released, serial⟩ := history
  have size : after.pipe.size = state.pipe.size := by
    unfold Pipe.size
    rw [head, tail]
  obtain ⟨⟨headIn, tailIn⟩, numbers, window⟩ := numbered
  exact
    ⟨⟨by rwa [head], by rwa [tail]⟩, by rwa [claimed, released, size],
      by rwa [serial, tail, size, released]⟩

/-- Bytes at the front are released. -/
theorem release
    {chars : Nat}
    (numbered : Numbered state)
    (stored : chars ≤ state.pipe.size) :
    Numbered (state.release chars) := by
  have inRange : (state.release chars).pipe.InRange :=
    State.inRange_took numbered.inRange chars
  have size : (state.release chars).pipe.size = state.pipe.size - chars :=
    State.size_took numbered.inRange stored
  refine ⟨inRange, ?_, ?_⟩
  · rw [size]
    change state.history.claimed = state.history.released + chars + _
    rw [numbered.claimed, Nat.add_assoc, Nat.add_sub_cancel' stored]
  · rw [size]
    change Ring.window pageSize state.history.serial
        ((state.pipe.tail + chars) % pageSize) _ =
      (List.range' (state.history.released + chars) _).map some
    have whole := numbered.serial
    rw [← Nat.add_sub_cancel' stored, Ring.window_add,
      ← List.range'_append_1, List.map_append] at whole
    rw [Ring.window_mod]
    refine List.append_inj_right whole ?_
    rw [Ring.length_window, List.length_map, List.length_range']

/-- Bytes are stored behind the last one. -/
theorem gave
    {bytes : List Byte}
    (numbered : Numbered state)
    (fits : bytes.length ≤ state.pipe.room) :
    Numbered (state.gave bytes) := by
  have small := state.pipe.size_lt
  have within : state.pipe.size + bytes.length < pageSize := by
    unfold Pipe.room at fits
    omega
  have size :
      (state.gave bytes).pipe.size = state.pipe.size + bytes.length :=
    State.size_gave numbered.inRange within
  refine ⟨State.inRange_gave numbered.inRange bytes, ?_, ?_⟩
  · rw [size]
    change state.history.claimed + bytes.length = state.history.released + _
    rw [numbered.claimed, Nat.add_assoc]
  · have length :
        ((List.range' state.history.claimed bytes.length).map some).length =
          bytes.length := by
      rw [List.length_map, List.length_range']
    rw [size]
    change Ring.window pageSize
      (Ring.store pageSize
        ((List.range' state.history.claimed bytes.length).map some)
        state.pipe.head state.history.serial) state.pipe.tail _ =
      (List.range' state.history.released _).map some
    rw [head_eq numbered.inRange, Ring.store_mod]
    have appended :
        Ring.window pageSize
            (Ring.store pageSize
              ((List.range' state.history.claimed bytes.length).map some)
              (state.pipe.tail + state.pipe.size) state.history.serial)
            state.pipe.tail (state.pipe.size + bytes.length) =
          Ring.window pageSize state.history.serial state.pipe.tail
              state.pipe.size ++
            (List.range' state.history.claimed bytes.length).map some := by
      generalize (List.range' state.history.claimed bytes.length).map some =
        numbers at length
      rw [← length, Ring.window_store (by rw [length]; omega)]
    rw [appended, numbered.serial, numbered.claimed, ← List.map_append,
      List.range'_append_1]

theorem published
    (numbered : Numbered state) :
    state.Published := by
  intro i inside
  have place := congrArg (fun window => window[i]?) numbered.serial
  unfold Ring.window at place
  simp only [List.getElem?_map, List.getElem?_range inside,
    List.getElem?_range' inside, Option.map_some, Nat.one_mul] at place
  exact Option.some.inj place

end Numbered

/-! ## Turns -/

/-- A reader that waits for a page has copied its pass, or there are no writers; no
writer waits for one. -/
def Point.Copied (writeEnd : Bool) : Point → Prop
  | .putting _ chars _ _ _ _ => chars = 0 ∨ writeEnd = false
  | .getting _ _ _ _ _ _ => False
  | _ => True

section Turns

variable {current : ι} {state after : State ι} {fault : Option Nat}
variable {count done written : Nat}

theorem chunkEnd_le
    {index total present : Nat} :
    chunkEnd index total present ≤ total := by
  unfold chunkEnd chunk
  split
  · exact Nat.min_le_right _ _
  · exact Nat.le_refl _

theorem ReadTurn.numbered
    {buf : List Byte}
    (numbered : Numbered state)
    (turn : ReadTurn current fault count done buf state after) :
    Numbered after := by
  cases turn with
  | ran _ ends =>
    have taken := numbered.release (Nat.min_le_right count state.pipe.size)
    cases ends with
    | returned _ =>
      exact taken.congr ⟨rfl, rfl⟩ ⟨rfl, rfl, rfl⟩
    | slept _ _ =>
      exact taken.congr ⟨rfl, rfl⟩ ⟨rfl, rfl, rfl⟩
  | @stopped present _ _ =>
    have isSome :
        chunkEnd state.pipe.tail (min count state.pipe.size) present ≤
          state.pipe.size :=
      Nat.le_trans chunkEnd_le (Nat.min_le_right _ _)
    exact (numbered.release isSome).congr ⟨rfl, rfl⟩ ⟨rfl, rfl, rfl⟩

theorem ReadTurn.copied
    {buf : List Byte}
    (careful : ReadsCarefully fault count state)
    (turn : ReadTurn current fault count done buf state after) :
    (after.point current).Copied state.writeEnd := by
  cases turn with
  | ran _ ends =>
    cases ends with
    | returned _ =>
      rw [readReturns_point_self]
      exact trivial
    | slept _ _ =>
      rw [goto_point_self]
      exact trivial
  | stopped known _ =>
    unfold State.putStopped
    rw [goto_point_self]
    cases isOpen : state.writeEnd with
    | false => exact Or.inr rfl
    | true =>
      have upTo := careful _ known isOpen
      exact Or.inl (by omega)

theorem WriteTurn.numbered
    {buf : Nat → Byte}
    (numbered : Numbered state)
    (careful : WritesCarefully fault count state)
    (turn : WriteTurn current fault buf count written state after) :
    Numbered after ∧ (after.point current).Copied state.writeEnd := by
  cases turn with
  | ran _ ends =>
    have fits :
        (Ring.load buf written (min count state.pipe.room)).length ≤
          state.pipe.room := by
      rw [Ring.length_load]
      exact Nat.min_le_right _ _
    have given := numbered.gave fits
    cases ends with
    | returned _ =>
      refine ⟨given.congr ⟨rfl, rfl⟩ ⟨rfl, rfl, rfl⟩, ?_⟩
      rw [writeReturns_point_self]
      exact trivial
    | broken _ _ =>
      refine ⟨given.congr ⟨rfl, rfl⟩ ⟨rfl, rfl, rfl⟩, ?_⟩
      rw [writeReturns_point_self]
      exact trivial
    | slept _ _ =>
      refine ⟨given.congr ⟨rfl, rfl⟩ ⟨rfl, rfl, rfl⟩, ?_⟩
      rw [goto_point_self]
      exact trivial
  | stopped known missing =>
    exact absurd missing (Nat.not_lt.mpr (careful _ known))

end Turns

/-- The invariant of careful runs. -/
structure Orderly (state : State ι) : Prop where
  numbered : Numbered state
  counted : state.Counted
  copied : ∀ task, (state.point task).Copied state.writeEnd

namespace Orderly

variable {current : ι} {state after : State ι}

/-- What a turn does to the points. -/
theorem copied_of_frame
    (orderly : Orderly state)
    (frame : Frame current state after)
    (mine : (after.point current).Copied state.writeEnd)
    (task : ι) :
    (after.point task).Copied after.writeEnd := by
  rw [frame.writeEnd]
  by_cases same : task = current
  · rw [same]
    exact mine
  · rw [frame.points task same]
    exact orderly.copied task

/-- The step lemma. -/
theorem moves
    {action : Action ι}
    (orderly : Orderly state)
    (careful : action.Careful state)
    (moved : Moves state action after) :
    Orderly after := by
  have counted := orderly.counted.moves moved
  unfold Action.Careful at careful
  cases moved with
  | @read current _ _ _ _ _ turn =>
    exact ⟨turn.numbered orderly.numbered, counted,
      orderly.copied_of_frame turn.frame.1 (turn.copied careful)⟩
  | @write current _ _ _ _ _ _ turn =>
    obtain ⟨numbered, copied⟩ := turn.numbered orderly.numbered careful
    exact ⟨numbered, counted, orderly.copied_of_frame turn.frame.1 copied⟩
  | @resumeRead current _ _ _ _ _ asleep _ turn =>
    simp only [asleep, Point.Careful] at careful
    have start : Orderly (state.resumed current) :=
      ⟨orderly.numbered.congr ⟨rfl, rfl⟩ ⟨rfl, rfl, rfl⟩,
        orderly.counted.congr rfl rfl rfl rfl, orderly.copied⟩
    exact ⟨turn.numbered start.numbered, counted,
      start.copied_of_frame turn.frame.1 (turn.copied careful)⟩
  | @resumeWrite current _ _ _ _ _ asleep _ turn =>
    simp only [asleep, Point.Careful] at careful
    have start : Orderly (state.resumed current) :=
      ⟨orderly.numbered.congr ⟨rfl, rfl⟩ ⟨rfl, rfl, rfl⟩,
        orderly.counted.congr rfl rfl rfl rfl, orderly.copied⟩
    obtain ⟨numbered, copied⟩ := turn.numbered start.numbered careful
    exact ⟨numbered, counted, start.copied_of_frame turn.frame.1 copied⟩
  | @putMore current _ _ _ _ _ _ _ bytes _ asleep turn =>
    simp only [asleep, Point.Careful] at careful
    have start : Orderly (state.fetch bytes) :=
      ⟨orderly.numbered.congr ⟨rfl, rfl⟩ ⟨rfl, rfl, rfl⟩,
        orderly.counted.congr rfl rfl rfl rfl, orderly.copied⟩
    exact ⟨turn.numbered start.numbered, counted,
      start.copied_of_frame turn.frame.1 (turn.copied careful)⟩
  | @putSome current _ chars _ _ _ present _ _ _ asleep missing =>
    refine ⟨orderly.numbered.congr ⟨rfl, rfl⟩ ⟨rfl, rfl, rfl⟩, counted,
      orderly.copied_of_frame
        ⟨rfl, rfl, rfl, fun task other => goto_point_of_ne other⟩ ?_⟩
    rw [goto_point_self]
    have mine := orderly.copied current
    rw [asleep] at mine
    exact mine.imp (fun nothing => by omega) id
  | @getMore current _ _ _ _ _ _ _ _ asleep _ =>
    have mine := orderly.copied current
    rw [asleep] at mine
    exact mine.elim
  | @getSome current _ _ _ _ _ _ _ asleep _ =>
    have mine := orderly.copied current
    rw [asleep] at mine
    exact mine.elim
  | closeRead _ _ =>
    exact ⟨orderly.numbered.congr ⟨rfl, rfl⟩ ⟨rfl, rfl, rfl⟩, counted, orderly.copied⟩
  | closeWrite _ _ =>
    refine ⟨orderly.numbered.congr ⟨rfl, rfl⟩ ⟨rfl, rfl, rfl⟩, counted, fun task => ?_⟩
    have mine := orderly.copied task
    change (state.point task).Copied false
    cases point : state.point task with
    | putting val chars size count done buf => exact Or.inr rfl
    | getting buf chars size count written number =>
      rw [point] at mine
      exact mine
    | _ => exact trivial

theorem of_initial
    {initTask : ι}
    (initial : (pipeMachine initTask).initial state) :
    Orderly state := by
  have counted := (attended_of_reachable (.start initial)).2
  obtain ⟨⟨head, tail, _⟩, _, users, _, history⟩ := initial
  have size : state.pipe.size = 0 := by
    unfold Pipe.size
    rw [head, tail]
    rfl
  refine ⟨⟨⟨by rw [head]; decide, by rw [tail]; decide⟩, ?_, ?_⟩, counted,
    fun task => ?_⟩
  · rw [size, history]
  · rw [size]
    rfl
  · have user := users task
    cases point : state.point task with
    | user eax => exact trivial
    | _ =>
      rw [point] at user
      cases user

end Orderly

/-! ## Runs without writers -/

theorem ReadTurn.serial
    {current : ι} {state after : State ι} {fault : Option Nat}
    {count done : Nat} {buf : List Byte}
    (turn : ReadTurn current fault count done buf state after) :
    after.history.serial = state.history.serial := by
  cases turn with
  | ran _ ends =>
    cases ends with
    | returned _ => rfl
    | slept _ _ => rfl
  | stopped _ _ => rfl

/-- Nothing is stored in a pipe that has no writers. -/
theorem Moves.closed
    {state after : State ι} {action : Action ι}
    (counted : state.Counted)
    (closed : state.writeEnd = false)
    (moved : Moves state action after) :
    after.writeEnd = false ∧
      after.history.serial = state.history.serial := by
  have noWriter {task : ι} (writer : (state.point task).isWriter = true) :
      False := by
    have isOpen := counted.writers task writer
    rw [closed] at isOpen
    cases isOpen
  cases moved with
  | read _ _ turn =>
    exact ⟨turn.frame.1.writeEnd.trans closed, turn.serial⟩
  | write isOpen _ _ =>
    rw [closed] at isOpen
    cases isOpen
  | resumeRead _ _ turn =>
    exact ⟨turn.frame.1.writeEnd.trans closed, turn.serial⟩
  | resumeWrite asleep _ _ =>
    exact (noWriter (by rw [asleep]; rfl)).elim
  | putMore _ turn =>
    exact ⟨turn.frame.1.writeEnd.trans closed, turn.serial⟩
  | putSome _ _ =>
    exact ⟨closed, rfl⟩
  | getMore asleep _ =>
    exact (noWriter (by rw [asleep]; rfl)).elim
  | getSome asleep _ =>
    exact (noWriter (by rw [asleep]; rfl)).elim
  | closeRead _ _ =>
    exact ⟨closed, rfl⟩
  | closeWrite _ _ =>
    exact ⟨rfl, rfl⟩

theorem not_canOverwrite
    {initTask reader : ι} {state : State ι} {place : Nat}
    (reached : (pipeMachine initTask).Reachable state)
    (closed : state.writeEnd = false) :
    ¬ state.CanOverwrite initTask reader place := by
  rintro ⟨actions, after, run, changed⟩
  have kept (action : Action ι) (before middle : State ι)
      (holding :
        (pipeMachine initTask).Reachable before ∧ before.writeEnd = false ∧
          before.history.serial = state.history.serial)
      (stepped :
        (pipeMachine initTask).Step before action middle ∧
          ∀ fault, action ≠ .resume reader fault) :
      (pipeMachine initTask).Reachable middle ∧ middle.writeEnd = false ∧
        middle.history.serial = state.history.serial := by
    obtain ⟨reached, closed, same⟩ := holding
    obtain ⟨attended, counted⟩ := attended_of_reachable reached
    obtain ⟨closed', same'⟩ :=
      (moves_of_step attended.inRange stepped.1).closed counted closed
    exact ⟨.step reached stepped.1, closed', same'.trans same⟩
  have last := run.invariant kept ⟨reached, closed, rfl⟩
  exact changed (congrFun last.2.2 place)

/--
Bytes are published after they are stored and released after they are copied, in runs
in which the buffers are there: no page is missing at a byte that a writer copies, and
none at a byte that a reader copies while there are writers, but for the last byte of
a pass.
-/
theorem published_and_protected
    {initTask : ι} {actions : List (Action ι)} {start state : State ι}
    (initial : (pipeMachine initTask).initial start)
    (run :
      Traces
        (fun action before after =>
          (pipeMachine initTask).Step before action after ∧ action.Careful before)
        actions start state) :
    state.Published ∧ state.Protected initTask := by
  have reached : (pipeMachine initTask).Reachable state :=
    Machine.Reachable.traces (.start initial)
      (run.mono fun _ _ _ stepped => stepped.1)
  have kept (action : Action ι) (before after : State ι)
      (orderly : Orderly before)
      (stepped :
        (pipeMachine initTask).Step before action after ∧ action.Careful before) :
      Orderly after :=
    orderly.moves stepped.2
      (moves_of_step orderly.numbered.inRange stepped.1)
  have orderly := run.invariant kept (.of_initial initial)
  refine ⟨orderly.numbered.published, ?_⟩
  intro reader val chars size count done buf stopped i left
  have copied := orderly.copied reader
  rw [stopped] at copied
  rcases copied with nothing | closed
  · rw [nothing] at left
    cases left
  · exact not_canOverwrite reached closed

/-- A page is missing at the last byte that a reader copies. -/
def lastByte : List (Action Nat) :=
  [.write 1 (fun i => BitVec.ofNat 8 (i + 7)) 3 none, .read 2 2 (some 1)]

theorem lastByte_published :
    ∃ state : State Nat,
      (state.point 2).isStopped = true ∧ state.pipe.size = 1 ∧
        state.history.serial (2 % pageSize) = some 2 := by
  have passed :
      ((pipeMachine 0).follow
        (fun action state => action.check state && action.Careful state)
        lastByte (newPipe fun _ => 0#8)).any
          (fun state =>
            (state.point 2).isStopped && state.pipe.size == 1 &&
              state.pipe.tail == 2 && state.history.released == 2) =
        true := by
    decide +kernel
  obtain ⟨state, followed, test⟩ := (Option.any_eq_true _ _).mp passed
  simp only [Bool.and_eq_true, beq_iff_eq] at test
  obtain ⟨⟨⟨stopped, size⟩, tail⟩, released⟩ := test
  have sound (action : Action Nat) (state : State Nat)
      (checked : (action.check state && action.Careful state) = true) :
      (pipeMachine 0).enabled action state ∧ action.Careful state := by
    rw [Bool.and_eq_true, decide_eq_true_iff] at checked
    exact ⟨Action.enabled_of_check checked.1, checked.2⟩
  have published :=
    (published_and_protected (newPipe_initial _)
      (Machine.traces_of_follow sound followed)).1 0 (by rw [size]; decide)
  rw [tail, released] at published
  exact ⟨state, stopped, size, published⟩

/-- A page is missing at the first byte that a writer copies: the pipe has three bytes
that no one has written. -/
def unwritten : List (Action Nat) :=
  [.write 1 (fun i => BitVec.ofNat 8 (i + 7)) 3 (some 0)]

theorem unwritten_published :
    ∃ state : State Nat,
      Traces
        (fun action before after =>
          (pipeMachine 0).Step before action after)
        unwritten (newPipe fun _ => 0#8) state ∧
      (state.point 1).isStopped = true ∧ ¬ state.Published := by
  have passed :
      ((pipeMachine 0).follow Action.check unwritten
        (newPipe fun _ => 0#8)).any
          (fun state =>
            (state.point 1).isStopped && state.pipe.size == 3 &&
              state.pipe.tail == 0 && state.history.serial 0 == none) =
        true := by
    decide +kernel
  obtain ⟨state, followed, test⟩ := (Option.any_eq_true _ _).mp passed
  simp only [Bool.and_eq_true, beq_iff_eq] at test
  obtain ⟨⟨⟨stopped, size⟩, tail⟩, nothing⟩ := test
  refine ⟨state, traces_of_follow followed, stopped, fun published => ?_⟩
  have first := published 0 (by rw [size]; decide)
  rw [tail] at first
  cases nothing.symm.trans first

end Pipes

end HitOs
