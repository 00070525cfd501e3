import HitOs.Scheduling

namespace HitOs

/-!
# Signals

The mask of blocked signals, the calls that set handlers, and the delivery of a
signal on the way back to user mode.  `schedule` wakes a task with one test of its
signals and `ret_from_sys_call` delivers with another; they agree for a task that
blocks neither SIGKILL nor SIGSTOP.
-/

namespace Tasks

open WaitQueue (TaskState)

/-- `SA_NOMASK` -/
def saNomask : BitVec 32 := 0x40000000#32

/-- `SA_ONESHOT` -/
def saOneshot : BitVec 32 := 0x80000000#32

/-! ## The calls -/

/-- The old mask, and the task with the new one. -/
def sysSsetmask (newmask : BitVec 32) (task : Task) : BitVec 32 × Task :=
  (task.blocked, { task with blocked := newmask &&& ~~~(bit sigKill) })

/-- The signals that `sys_signal` and `sys_sigaction` accept. -/
def settable (signum : Int) : Option (Fin 32) :=
  if inRange : 1 ≤ signum ∧ signum ≤ 32 ∧ signum ≠ 9 then
    some ⟨(signum - 1).toNat, by omega⟩
  else
    none

def Task.setAction (signr : Fin 32) (action : Sigaction) (task : Task) : Task :=
  { task with sigaction := Function.update task.sigaction signr action }

def sysSignal
    (signum : Int)
    (handler restorer : BitVec 32)
    (task : Task) : BitVec 32 × Task :=
  match settable signum with
  | none => (-1#32, task)
  | some signr =>
    ((task.sigaction signr).handler,
      task.setAction signr
        { handler := handler
          mask := 0#32
          flags := saOneshot ||| saNomask
          restorer := restorer })

/-- The result, what is stored at `oldaction` if that is not NULL, and the task. -/
def sysSigaction
    (signum : Int)
    (action : Sigaction)
    (oldaction : Bool)
    (task : Task) : BitVec 32 × Option Sigaction × Task :=
  match settable signum with
  | none => (-1#32, none, task)
  | some signr =>
    let mask :=
      if action.flags &&& saNomask ≠ 0#32 then
        0#32
      else
        action.mask ||| bit signr
    (0#32, if oldaction then some (task.sigaction signr) else none,
      task.setAction signr { action with mask := mask })

/-! ## Delivery -/

/-- The registers on the kernel stack that the return to user mode restores. -/
structure Registers where
  eax : BitVec 32
  ecx : BitVec 32
  edx : BitVec 32
  eip : BitVec 32
  cs : BitVec 16
  eflags : BitVec 32
  esp : BitVec 32
  ss : BitVec 16

/-- What `do_signal` does: for a handler, the words it pushes, `eip` and `esp`. -/
inductive Delivery where
  | ignored
  | exited (code : BitVec 32)
  | handled (pushed : List (BitVec 32)) (eip esp : BitVec 32)

def doSignal
    (signr : Fin 32)
    (registers : Registers)
    (task : Task) : Delivery × Task :=
  let sa := task.sigaction signr
  if sa.handler = 1#32 then
    (.ignored, task)
  else if sa.handler = 0#32 then
    if signr = sigChld then
      (.ignored, task)
    else
      (.exited (bit signr), task)
  else
    let once :=
      if sa.flags &&& saOneshot ≠ 0#32 then
        task.setAction signr { sa with handler := 0#32 }
      else
        task
    let pushed :=
      [sa.restorer, BitVec.ofNat 32 (signr.val + 1)] ++
        (if sa.flags &&& saNomask ≠ 0#32 then [] else [task.blocked]) ++
        [registers.eax, registers.ecx, registers.edx, registers.eflags, registers.eip]
    let longs := if sa.flags &&& saNomask ≠ 0#32 then 7#32 else 8#32
    (.handled pushed sa.handler (registers.esp - longs * 4#32),
      { once with blocked := task.blocked ||| sa.mask })

/-- The signals that may be delivered: `signal & ~blocked`. -/
def Task.deliverable (task : Task) : BitVec 32 :=
  task.signal &&& ~~~task.blocked

/-- `bsfl` -/
def lowest (signals : BitVec 32) : Option (Fin 32) :=
  (List.finRange 32).find? fun signr => signals.getLsbD signr.val

/-- The signal that is delivered on the way back to user mode. -/
def Task.delivers (registers : Registers) (task : Task) : Option (Fin 32) :=
  if registers.cs ≠ 0x0f#16 ∨ registers.ss ≠ 0x17#16 then
    none
  else
    lowest task.deliverable

/-- `ret_from_sys_call`, for a task that is not task 0. -/
def retFromSysCall
    (registers : Registers)
    (task : Task) : Option Delivery × Task :=
  match task.delivers registers with
  | none => (none, task)
  | some signr =>
    let delivered :=
      doSignal signr registers
        { task with signal := task.signal &&& ~~~(bit signr) }
    (some delivered.1, delivered.2)

/-! ## Runs -/

/-- What a task calls; `ret` is the end of a system call or of a timer interrupt. -/
inductive Call where
  | ssetmask (newmask : BitVec 32)
  | signal (signum : Int) (handler restorer : BitVec 32)
  | sigaction (signum : Int) (action : Sigaction) (oldaction : Bool)
  | ret (registers : Registers)

namespace Call

/-- What the call makes of the task that makes it. -/
def perform (call : Call) (task : Task) : Task :=
  match call with
  | .ssetmask newmask => (sysSsetmask newmask task).2
  | .signal signum handler restorer => (sysSignal signum handler restorer task).2
  | .sigaction signum action oldaction =>
    (sysSigaction signum action oldaction task).2.2
  | .ret registers =>
    match retFromSysCall registers task with
    | (some (.exited code), after) =>
      { after with state := .zombie, exitCode := code.toInt }
    | (_, after) => after

end Call

/-- What happens to the tasks, as far as signals are concerned. -/
inductive SignalAction where
  | call (slot : Slot) (call : Call)
  | fork (slot child : Slot) (pid : Int)
  | post (slot : Slot) (signr : Fin 32)
  | sleep (slot : Slot) (alarm : Int)
  | schedule (jiffies : Int)

namespace SignalAction

/-- A call by a task that runs; task 0 does not get signals. -/
def step (action : SignalAction) (table : Table) : Option Table :=
  match action with
  | .call slot made =>
    match table slot with
    | some task =>
      if slot ≠ 0 ∧ task.state = .running then
        some (Function.update table slot (some (made.perform task)))
      else
        none
    | none => none
  | .fork slot child pid =>
    match table slot, table child with
    | some parent, none =>
      some (Function.update table child (some (parent.child pid)))
    | _, _ => none
  | .post slot signr =>
    some (Function.update table slot
      ((table slot).map fun task =>
        { task with signal := task.signal ||| bit signr }))
  | .sleep slot alarm =>
    some (Function.update table slot
      ((table slot).map fun task =>
        { task with state := .interruptible, alarm := alarm }))
  | .schedule jiffies => some (checkSignals jiffies table)

def Step (action : SignalAction) (before after : Table) : Prop :=
  action.step before = some after

end SignalAction

/-! ## Which signals are blocked -/

/-- The claim about a mask. -/
def Unmasked (mask : BitVec 32) : Prop :=
  mask.getLsbD sigKill = false ∧ mask.getLsbD sigStop = false

/-- The claim about a state. -/
def NoneMasked (table : Table) : Prop :=
  ∀ slot task, table slot = some task → Unmasked task.blocked

theorem getLsbD_blockable
    (signr : Fin 32) :
    blockable.getLsbD signr.val =
      !(decide (signr = sigKill) || decide (signr = sigStop)) := by
  revert signr
  decide

theorem unmasked_and_not_bit
    (mask : BitVec 32) :
    Unmasked (mask &&& ~~~(bit sigKill)) ↔ mask.getLsbD sigStop = false := by
  have kill : ¬ sigStop = sigKill := by decide
  have inside : sigKill.val < 32 ∧ sigStop.val < 32 := by decide
  simp only [Unmasked, BitVec.getLsbD_and, BitVec.getLsbD_not, getLsbD_bit,
    inside, kill, decide_true, decide_false, Bool.not_true, Bool.not_false,
    Bool.and_false, Bool.and_true, true_and]

theorem unmasked_or
    {mask more : BitVec 32} :
    Unmasked (mask ||| more) ↔ Unmasked mask ∧ Unmasked more := by
  simp only [Unmasked, BitVec.getLsbD_or, Bool.or_eq_false_iff]
  constructor
  · rintro ⟨⟨first, second⟩, third, fourth⟩
    exact ⟨⟨first, third⟩, second, fourth⟩
  · rintro ⟨⟨first, third⟩, second, fourth⟩
    exact ⟨⟨first, second⟩, third, fourth⟩

/-- For such a mask `schedule` and `ret_from_sys_call` make the same test. -/
theorem waking_eq_deliverable
    {task : Task}
    (unmasked : Unmasked task.blocked) :
    task.waking = task.deliverable := by
  have same : blockable &&& task.blocked = task.blocked := by
    refine BitVec.eq_of_getLsbD_eq ?_
    intro index below
    have named := getLsbD_blockable ⟨index, below⟩
    simp only at named
    rw [BitVec.getLsbD_and, named]
    by_cases kill : (⟨index, below⟩ : Fin 32) = sigKill
    · have here : index = sigKill.val := congrArg Fin.val kill
      have clear : task.blocked.getLsbD index = false := here ▸ unmasked.1
      rw [clear, Bool.and_false]
    · by_cases stop : (⟨index, below⟩ : Fin 32) = sigStop
      · have here : index = sigStop.val := congrArg Fin.val stop
        have clear : task.blocked.getLsbD index = false := here ▸ unmasked.2
        rw [clear, Bool.and_false]
      · rw [decide_eq_false kill, decide_eq_false stop]
        rfl
  rw [Task.waking, Task.deliverable, same]

/-- `bsfl` finds a bit if there is one. -/
theorem lowest_isSome_iff
    {signals : BitVec 32} :
    (lowest signals).isSome ↔ signals ≠ 0#32 := by
  rw [lowest, List.find?_isSome]
  constructor
  · rintro ⟨signr, _, set⟩ zero
    simp [zero] at set
  · intro someBit
    by_contra nothing
    refine someBit (BitVec.eq_of_getLsbD_eq ?_)
    intro index below
    rw [BitVec.getLsbD_zero]
    refine Bool.eq_false_iff.mpr ?_
    intro set
    exact nothing ⟨⟨index, below⟩, List.mem_finRange _, set⟩

/-- The claim about a state. -/
structure Agrees (table : Table) : Prop where
  noneMasked : NoneMasked table
  woken :
    ∀ jiffies slot task after,
      table slot = some task → task.state = .interruptible →
      checkSignals jiffies table slot = some after →
      after.state = .running → after.deliverable ≠ 0#32
  killed :
    ∀ slot task, table slot = some task →
      task.signal.getLsbD sigKill = true → task.deliverable.getLsbD sigKill = true

/-- Only a task with a signal that it does not block is woken. -/
theorem Task.waking_of_woken
    {jiffies : Int} {task : Task}
    (slept : task.state = .interruptible)
    (woken : (task.checkSignals jiffies).state = .running) :
    (task.checkSignals jiffies).waking ≠ 0#32 := by
  unfold Task.checkSignals at woken ⊢
  simp only at woken ⊢
  generalize due : (if task.alarm ≠ 0 ∧ task.alarm < jiffies then
      ({ task with signal := task.signal ||| bit sigAlrm, alarm := 0 } : Task)
    else
      task) = alarmed at woken ⊢
  have asleep : alarmed.state = .interruptible := by
    rw [← due]
    split <;> exact slept
  by_cases pending : alarmed.waking ≠ 0#32 ∧ alarmed.state = .interruptible
  · rw [if_pos pending]
    exact pending.1
  · rw [if_neg pending, asleep] at woken
    cases woken

theorem Task.checkSignals_blocked
    (jiffies : Int)
    (task : Task) :
    (task.checkSignals jiffies).blocked = task.blocked := by
  unfold Task.checkSignals
  simp only
  split <;> split <;> rfl

/-- What follows for the two tests. -/
theorem NoneMasked.agrees
    {table : Table}
    (noneMasked : NoneMasked table) :
    Agrees table where
  noneMasked := noneMasked
  woken := by
    intro jiffies slot task after present slept checked running
    simp only [checkSignals, present] at checked
    split at checked
    · cases checked
      rw [slept] at running
      cases running
    · cases checked
      have unmasked := noneMasked slot task present
      rw [← Task.checkSignals_blocked jiffies] at unmasked
      rw [← waking_eq_deliverable unmasked]
      exact Task.waking_of_woken slept running
  killed := by
    intro slot task present posted
    have inside : sigKill.val < 32 := by decide
    rw [Task.deliverable, BitVec.getLsbD_and, BitVec.getLsbD_not, posted,
      (noneMasked slot task present).1]
    simp [inside]

/-! ## Which steps keep the two signals unblocked -/

theorem doSignal_blocked
    (signr : Fin 32)
    (registers : Registers)
    (task : Task) :
    (doSignal signr registers task).2.blocked =
      if (task.sigaction signr).handler = 0#32 ∨
          (task.sigaction signr).handler = 1#32 then
        task.blocked
      else
        task.blocked ||| (task.sigaction signr).mask := by
  unfold doSignal
  by_cases ignored : (task.sigaction signr).handler = 1#32
  · simp [ignored]
  · by_cases default : (task.sigaction signr).handler = 0#32
    · by_cases child : signr = sigChld
      · subst child
        simp [default]
      · simp [default, child]
    · simp [ignored, default]

namespace Call

/--
The condition: SIGSTOP is not in a new mask, and no signal is delivered to a handler
with SIGKILL or SIGSTOP in its `sa_mask`.
-/
def Careful (call : Call) (task : Task) : Prop :=
  match call with
  | .ssetmask newmask => newmask.getLsbD sigStop = false
  | .ret registers =>
    ∀ signr, task.delivers registers = some signr →
      (task.sigaction signr).handler = 0#32 ∨
      (task.sigaction signr).handler = 1#32 ∨
      Unmasked (task.sigaction signr).mask
  | _ => True

theorem blocked_ret
    (registers : Registers)
    (task : Task) :
    ((Call.ret registers).perform task).blocked =
      (retFromSysCall registers task).2.blocked := by
  simp only [perform]
  split
  · rename_i same
    rw [same]
  · rename_i same
    rw [same]

theorem unmasked_iff_careful
    {call : Call} {task : Task}
    (unmasked : Unmasked task.blocked) :
    Unmasked (call.perform task).blocked ↔ call.Careful task := by
  cases call with
  | ssetmask newmask =>
    exact unmasked_and_not_bit newmask
  | signal signum handler restorer =>
    have same :
        ((Call.signal signum handler restorer).perform task).blocked =
          task.blocked := by
      simp only [perform, sysSignal]
      split <;> rfl
    rw [same]
    exact iff_of_true unmasked trivial
  | sigaction signum action oldaction =>
    have same :
        ((Call.sigaction signum action oldaction).perform task).blocked =
          task.blocked := by
      simp only [perform, sysSigaction]
      split <;> rfl
    rw [same]
    exact iff_of_true unmasked trivial
  | ret registers =>
    rw [blocked_ret, retFromSysCall]
    cases delivers : task.delivers registers with
    | none =>
      exact iff_of_true unmasked
        fun signr never => nomatch delivers.symm.trans never
    | some signr =>
      rw [doSignal_blocked]
      have exactly :
          (Call.ret registers).Careful task ↔
            (task.sigaction signr).handler = 0#32 ∨
            (task.sigaction signr).handler = 1#32 ∨
            Unmasked (task.sigaction signr).mask := by
        simp only [Careful, delivers, Option.some.injEq, forall_eq']
      rw [exactly]
      by_cases plain :
          (task.sigaction signr).handler = 0#32 ∨ (task.sigaction signr).handler = 1#32
      · rw [if_pos plain]
        exact iff_of_true unmasked
          (plain.imp_right fun ignored => Or.inl ignored)
      · rw [if_neg plain, unmasked_or]
        rw [not_or] at plain
        simp [unmasked, plain]

end Call

namespace SignalAction

/-- The condition for one step. -/
def Careful (action : SignalAction) (table : Table) : Prop :=
  match action with
  | .call slot made => ∀ task, table slot = some task → made.Careful task
  | _ => True

theorem noneMasked_update
    {table : Table}
    (noneMasked : NoneMasked table)
    (slot : Slot)
    (value : Option Task) :
    NoneMasked (Function.update table slot value) ↔
      ∀ task, value = some task → Unmasked task.blocked := by
  constructor
  · intro after task same
    exact after slot task (by rw [Function.update_self, same])
  · intro unmasked other task present
    by_cases same : other = slot
    · subst same
      rw [Function.update_self] at present
      exact unmasked task present
    · rw [Function.update_of_ne same] at present
      exact noneMasked other task present

theorem noneMasked_map
    {table : Table}
    (noneMasked : NoneMasked table)
    (slot : Slot)
    {change : Task → Task}
    (same : ∀ task, (change task).blocked = task.blocked) :
    NoneMasked (Function.update table slot ((table slot).map change)) := by
  refine (noneMasked_update noneMasked slot _).mpr ?_
  intro task changed
  obtain ⟨task', present, rfl⟩ := Option.map_eq_some_iff.mp changed
  rw [same]
  exact noneMasked slot task' present

/-- The step lemma. -/
theorem noneMasked_step
    {action : SignalAction} {before after : Table}
    (noneMasked : NoneMasked before)
    (stepped : Step action before after) :
    NoneMasked after ↔ action.Careful before := by
  cases action with
  | call slot made =>
    simp only [Step, step] at stepped
    split at stepped
    · rename_i task present
      split at stepped
      · cases stepped
        rw [noneMasked_update noneMasked]
        have unmasked := noneMasked slot task present
        simp only [Careful, present, Option.some.injEq, forall_eq']
        exact Call.unmasked_iff_careful unmasked
      · cases stepped
    · cases stepped
  | fork slot child pid =>
    simp only [Step, step] at stepped
    split at stepped
    · rename_i parent present _
      cases stepped
      refine iff_of_true ?_ trivial
      refine (noneMasked_update noneMasked child _).mpr ?_
      intro task same
      cases same
      exact noneMasked slot parent present
    · cases stepped
  | post slot signr =>
    cases stepped
    exact iff_of_true (noneMasked_map noneMasked slot fun _ => rfl) trivial
  | sleep slot alarm =>
    cases stepped
    exact iff_of_true (noneMasked_map noneMasked slot fun _ => rfl) trivial
  | schedule jiffies =>
    cases stepped
    refine iff_of_true ?_ trivial
    intro slot task present
    simp only [checkSignals] at present
    split at present
    · exact noneMasked slot task present
    · obtain ⟨task', was, rfl⟩ := Option.map_eq_some_iff.mp present
      rw [Task.checkSignals_blocked]
      exact noneMasked slot task' was

end SignalAction

theorem booted_noneMasked :
    NoneMasked booted := by
  intro slot task present
  simp only [booted] at present
  split at present
  · cases present
    exact ⟨rfl, rfl⟩
  · cases present

/-- A run in which every step meets the condition. -/
abbrev CarefulRun (actions : List SignalAction) (start table : Table) : Prop :=
  Traces
    (fun action before after =>
      SignalAction.Step action before after ∧ action.Careful before)
    actions start table

/--
No task blocks SIGKILL or SIGSTOP, and the two tests agree, exactly in the runs in
which every call is careful.
-/
theorem agrees_iff_careful
    {actions : List SignalAction} {table : Table}
    (run : Traces SignalAction.Step actions booted table) :
    Traces.Along SignalAction.Step Agrees actions booted table ↔
      CarefulRun actions booted table := by
  refine run.along_iff ?_ (fun _ noneMasked => noneMasked.agrees) ?_ ?_
    booted_noneMasked
  · intro action before first second stepped again
    exact Option.some.inj (stepped.symm.trans again)
  · intro action before after noneMasked stepped careful
    exact (SignalAction.noneMasked_step noneMasked stepped).mpr careful
  · intro action before after noneMasked stepped careless agrees
    exact careless
      ((SignalAction.noneMasked_step noneMasked stepped).mp agrees.noneMasked)

/-- The claim: whatever tasks call, the two signals are not blocked. -/
def Unmaskable : Prop :=
  ∀ actions table, Traces SignalAction.Step actions booted table → Agrees table

/-- Task 1 blocks the given signals. -/
def masking (newmask : BitVec 32) : List SignalAction :=
  [.fork 0 1 1, .call 1 (.ssetmask newmask)]

/-- A mask without SIGSTOP, checked. -/
def isCareful (action : SignalAction) (_ : Table) : Bool :=
  match action with
  | .call _ (.ssetmask newmask) => !newmask.getLsbD sigStop
  | .call _ (.ret _) => false
  | _ => true

theorem careful_of_isCareful
    (action : SignalAction)
    (table : Table)
    (passed : isCareful action table = true) :
    action.Careful table := by
  cases action with
  | call slot made =>
    intro task _
    cases made with
    | ssetmask newmask =>
      simpa [isCareful, Call.Careful] using passed
    | ret registers =>
      cases passed
    | _ =>
      trivial
  | _ =>
    trivial

/-- Task 1 blocks SIGHUP, sleeps, and gets a SIGKILL that it has to take. -/
theorem agrees_iff_careful_hup :
    ∃ table task,
      Traces.Along SignalAction.Step Agrees
        (masking (bit sigHup) ++
          [.sleep 1 0, .post 1 sigKill, .schedule 0]) booted table ∧
      table 1 = some task ∧ task.state = .running ∧
      task.blocked = bit sigHup := by
  have passed :
      ((Traces.runIf SignalAction.step isCareful
        (masking (bit sigHup) ++
          [.sleep 1 0, .post 1 sigKill, .schedule 0]) booted).any fun table =>
          (table 1).any fun task =>
            decide (task.state = .running ∧ task.blocked = bit sigHup)) =
        true := by
    decide +kernel
  obtain ⟨table, run, rest⟩ := Traces.exists_of_any careful_of_isCareful passed
  obtain ⟨task, present, shape⟩ := (Option.any_eq_true _ _).mp rest
  have plain := run.mono fun _ _ _ stepped => stepped.1
  obtain ⟨running, blocked⟩ := of_decide_eq_true shape
  exact ⟨table, task, (agrees_iff_careful plain).mpr run, present, running, blocked⟩

/-- `sys_ssetmask` lets SIGSTOP through. -/
theorem not_unmaskable : ¬ Unmaskable := by
  intro unmaskable
  have passed :
      ((Traces.runIf SignalAction.step (fun _ _ => true)
        (masking (bit sigStop)) booted).any fun table =>
          (table 1).any fun task => task.blocked.getLsbD sigStop) = true := by
    decide +kernel
  obtain ⟨table, run, masked⟩ := Traces.exists_of_run passed
  obtain ⟨task, present, set⟩ := (Option.any_eq_true _ _).mp masked
  have clear :=
    ((unmaskable _ _ run).noneMasked 1 task present).2
  rw [clear] at set
  cases set

end Tasks

end HitOs
