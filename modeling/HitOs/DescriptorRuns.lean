import HitOs.DescriptorTurns

namespace HitOs

/-!
# The file table over runs

The counts of the file table are exact in every state of a run, an entry that a call
takes is one that nobody uses, and `sys_close` puts the inode of a file exactly when
the last descriptor of the file goes away.
-/

namespace Files

open Routine

/-! ## Actions -/

/-- What the invariant needs of a step, and what the step does. -/
def Kept (before after : Kernel) : Prop :=
  Sound after ∧ Exact before after

section Actions

variable {kernel : Kernel} {current : Nat} {task : Task}

/-- A call of a routine of the system, and what comes after it. -/
theorem satisfies_within
    {α : Type} {routine : Routine System α} {next : α → Routine Kernel Unit}
    {reached : α → System → Prop} {returned : Unit → Kernel → Prop}
    (spec :
      routine.Satisfies kernel.system reached fun _ => False)
    (rest :
      ∀ value system, reached value system →
        (next value).Satisfies { kernel with system := system } returned
          fun _ => False) :
    (Kernel.within routine >>= next).Satisfies kernel returned
      fun _ => False := by
  rw [satisfies_bind]
  refine satisfies_zoom.mpr (spec.mono ?_ fun _ same => same)
  exact fun value system held => rest value system held

variable (sound : Sound kernel)

include sound

theorem present
    (lives : kernel.system.task current = some task) :
    current < nrTasks := by
  by_contra beyond
  cases (sound.tasks current (Nat.not_lt.mp beyond)).symm.trans lives

/-- The entry that an open has taken is counted once. -/
theorem count_held
    {fd index : Nat}
    (held : (kernel.point current).held = [(fd, index)]) :
    (fd, index) ∈ (kernel.point current).held ∧
      kernel.system.count index = 1#16 ∧ ¬ kernel.Open index := by
  have member : (fd, index) ∈ (kernel.point current).held := by
    rw [held]
    exact List.mem_singleton_self _
  exact ⟨member,
    sound.counted.count_eq_one (sound.held member) (sound.alone member),
    sound.not_open member⟩

/-- A step that changes nothing but the point of a task that holds nothing. -/
theorem kept_goto
    {system : System} {point : Point}
    (quiet : Quiet [] kernel.system system)
    (idle : point.held = [])
    (closed :
      ∀ fd, fd < point.closed → kernel.system.entry (current, fd) = none) :
    Kept kernel (kernel.turned current system point kernel.put) := by
  refine turn_quiet sound quiet ?_ ?_ closed fun _ member => nomatch member
  · rw [idle]
    exact fun _ member => nomatch member
  · rw [idle]
    exact List.nodup_nil

theorem kept_open
    {flag : BitVec 32}
    (lives : kernel.system.task current = some task)
    (idle : (kernel.point current).held = []) :
    (Action.open current flag).perform.Satisfies kernel
      (fun _ after => Kept kernel after) fun _ => False := by
  refine satisfies_within (satisfies_takeFile lives) ?_
  intro result system taken
  split at taken
  · exact kept_goto sound taken rfl
      fun _ below => absurd below (Nat.not_lt_zero _)
  · obtain ⟨inTable, zero, attached⟩ := taken
    exact turn_attached sound (present sound lives) inTable attached idle rfl
      (Or.inl ⟨rfl, zero⟩)

/-- What has been opened, or given back, at the end of an open. -/
theorem kept_finished
    {fd index : Nat} {system : System}
    (held : (kernel.point current).held = [(fd, index)])
    (finished :
      Detached (current, fd) index 0#16 kernel.system system ∨
        Quiet [index] kernel.system system)
    (eax : Int) :
    Kept kernel (kernel.turned current system (.user eax) kernel.put) := by
  obtain ⟨member, _, notOpen⟩ := count_held sound held
  rcases finished with detached | quiet
  · exact turn_undone sound detached member eax
  · refine turn_quiet sound quiet (fun _ isNone => nomatch isNone)
      List.nodup_nil (fun _ below => absurd below (Nat.not_lt_zero _)) ?_
    intro other same
    rw [List.mem_singleton.mp same]
    exact notOpen

theorem kept_named
    {fd index : Nat} {flag : BitVec 32}
    {result : Except Int (Nat × Inode)}
    (lives : kernel.system.task current = some task)
    (naming : kernel.point current = .naming fd index flag) :
    (Action.named current fd index flag result).perform.Satisfies kernel
      (fun _ after => Kept kernel after) fun _ => False := by
  have held : (kernel.point current).held = [(fd, index)] := by
    rw [naming]
    rfl
  obtain ⟨_, one, _⟩ := count_held sound held
  unfold Action.perform
  rw [satisfies_bind, satisfies_read, lives]
  refine satisfies_within (satisfies_afterNaming result lives one) ?_
  rintro point system (⟨⟨eax, rfl⟩, finished⟩ | ⟨same, closed, quiet⟩)
  · exact kept_finished sound held finished eax
  · refine turn_quiet sound quiet ?_ ?_ ?_ fun _ member => nomatch member
    · rw [same, held]
      exact fun _ member => member
    · rw [same]
      exact List.nodup_singleton _
    · rw [closed]
      exact fun _ below => absurd below (Nat.not_lt_zero _)

theorem kept_resumed
    {fd index : Nat} {point : Point}
    (lives : kernel.system.task current = some task)
    (here : kernel.point current = point)
    (asleep :
      point = .refusing fd index ∨
        ∃ flag number mode, point = .changing fd index flag number mode) :
    (Action.resumed current point).perform.Satisfies kernel
      (fun _ after => Kept kernel after) fun _ => False := by
  have held : (kernel.point current).held = [(fd, index)] := by
    rw [here]
    rcases asleep with rfl | ⟨flag, number, mode, rfl⟩
    · rfl
    · rfl
  obtain ⟨_, one, _⟩ := count_held sound held
  refine satisfies_within (satisfies_resumeOpen lives one asleep) ?_
  exact fun eax system finished => kept_finished sound held finished eax

theorem kept_pipe
    (lives : kernel.system.task current = some task)
    (idle : (kernel.point current).held = []) :
    (Action.pipe current).perform.Satisfies kernel
      (fun _ after => Kept kernel after) fun _ => False := by
  refine satisfies_within (satisfies_takePipe lives) ?_
  intro result system taken
  split at taken
  · exact kept_goto sound taken rfl
      fun _ below => absurd below (Nat.not_lt_zero _)
  · exact turn_attachedBoth sound (present sound lives) taken idle

theorem kept_gotPipe
    {fds indices : Nat × Nat} {number : Option Nat}
    (lives : kernel.system.task current = some task)
    (piping : kernel.point current = .piping fds indices) :
    (Action.gotPipe current fds indices number).perform.Satisfies kernel
      (fun _ after => Kept kernel after) fun _ => False := by
  refine satisfies_within (satisfies_afterPipe number lives) ?_
  rintro eax system (detached | quiet)
  · exact turn_undoneBoth sound detached piping eax
  · refine turn_quiet sound quiet (fun _ isNone => nomatch isNone)
      List.nodup_nil (fun _ below => absurd below (Nat.not_lt_zero _)) ?_
    intro index member
    have held :
        (fds.1, index) ∈ (kernel.point current).held ∨
          (fds.2, index) ∈ (kernel.point current).held := by
      rw [piping]
      simp only [List.mem_cons, List.not_mem_nil, or_false] at member
      rcases member with rfl | rfl
      · exact Or.inl List.mem_cons_self
      · exact Or.inr (List.mem_cons_of_mem _ List.mem_cons_self)
    rcases held with first | second
    · exact sound.not_open first
    · exact sound.not_open second

/-- What `sys_close` has done when it calls `iput` or returns. -/
theorem kept_closed
    {fd : Nat} {system : System} {closed : Int × Option (Nat × Nat)}
    {point : Point}
    (idleBefore : (kernel.point current).held = [])
    (done :
      (closed.2 = none ∧
        (fd < nrOpen → kernel.system.entry (current, fd) = none) ∧
        Quiet [] kernel.system system) ∨
      ∃ index, kernel.system.entry (current, fd) = some index ∧
        Detached (current, fd) index (kernel.system.count index - 1#16)
          kernel.system system ∧
        closed.2 =
          if kernel.system.count index - 1#16 = 0#16 then
            some (index, (kernel.system.file index).inode)
          else none)
    (idle : point.held = [])
    (below :
      ∀ fd', fd' < point.closed →
        fd' < nrOpen ∧ (fd' ≠ fd → kernel.system.entry (current, fd') = none)) :
    Kept kernel
      (kernel.turned current system point
        (closed.2.toList ++ kernel.put)) := by
  rcases done with ⟨nothing, free, quiet⟩ | ⟨index, refers, detached, last⟩
  · rw [nothing]
    refine kept_goto sound quiet idle ?_
    intro fd' inside
    obtain ⟨range, others⟩ := below fd' inside
    by_cases same : fd' = fd
    · subst same
      exact free range
    · exact others same
  · rw [last]
    exact turn_closed sound refers idleBefore detached idle
      fun fd' inside => (below fd' inside).2

theorem kept_close
    {fd : Nat}
    (lives : kernel.system.task current = some task)
    (idle : (kernel.point current).held = []) :
    (Action.close current fd).perform.Satisfies kernel
      (fun _ after => Kept kernel after) fun _ => False := by
  refine satisfies_within (satisfies_closeFile sound.counted lives) ?_
  intro closed system done
  refine kept_closed sound idle done ?_ ?_
  · split
    · rfl
    · rfl
  · intro fd' inside
    split at inside
    · exact absurd inside (Nat.not_lt_zero _)
    · exact absurd inside (Nat.not_lt_zero _)

theorem kept_dup2
    {oldfd newfd : Nat}
    (lives : kernel.system.task current = some task)
    (idle : (kernel.point current).held = []) :
    (Action.dup2 current oldfd newfd).perform.Satisfies kernel
      (fun _ after => Kept kernel after) fun _ => False := by
  refine satisfies_within (satisfies_closeFile sound.counted lives) ?_
  intro closed system done
  exact kept_closed sound idle done rfl
    fun _ inside => absurd inside (Nat.not_lt_zero _)

theorem kept_exiting
    {next : Nat}
    (lives : kernel.system.task current = some task)
    (exiting : kernel.point current = .exiting next) :
    (Action.exiting current next).perform.Satisfies kernel
      (fun _ after => Kept kernel after) fun _ => False := by
  have closed (fd : Nat) (below : fd < next) :
      kernel.system.entry (current, fd) = none := by
    apply sound.closed
    rw [exiting]
    exact below
  unfold Action.perform
  rw [satisfies_bind, satisfies_read]
  split
  · rename_i beyond
    exact kept_goto sound (quiet_refl _) rfl
      fun fd below => closed fd (Nat.lt_of_lt_of_le below beyond)
  rename_i inRange
  split
  · refine satisfies_within (satisfies_closeFile sound.counted lives) ?_
    intro closing system done
    refine kept_closed sound (by rw [exiting]; rfl) done rfl ?_
    intro fd below
    have upTo : fd ≤ next := Nat.le_of_lt_succ below
    exact ⟨Nat.lt_of_le_of_lt upTo (Nat.not_le.mp inRange),
      fun different => closed fd (Nat.lt_of_le_of_ne upTo different)⟩
  · rename_i free
    refine kept_goto sound (quiet_refl _) rfl ?_
    intro fd below
    rcases Nat.lt_succ_iff_lt_or_eq.mp below with earlier | rfl
    · exact closed fd earlier
    · exact Option.not_isSome_iff_eq_none.mp free

/-- `dupfd`, wherever it is called. -/
theorem kept_dupfd
    {fd arg : Nat}
    (lives : kernel.system.task current = some task)
    (idle : (kernel.point current).held = []) :
    (do
      let eax ← Kernel.within (dupfd current fd arg)
      Kernel.goto current (.user eax)).Satisfies kernel
      (fun _ after => Kept kernel after) fun _ => False := by
  refine satisfies_within (satisfies_dupfd_attached lives) ?_
  rintro eax system (quiet | ⟨free, index, refers, attached⟩)
  · exact kept_goto sound quiet rfl
      fun _ below => absurd below (Nat.not_lt_zero _)
  · exact turn_attached sound (present sound lives)
      (sound.counted.range _ _ refers).2 attached idle rfl
      (Or.inr ⟨rfl, sound.isOpen refers idle⟩)

theorem kept_fork
    {enough : Bool}
    (lives : kernel.system.task current = some task)
    (idle : (kernel.point current).held = [])
    (closed : (kernel.point current).closed = 0) :
    (Action.fork current enough).perform.Satisfies kernel
      (fun _ after => Kept kernel after) fun _ => False := by
  refine satisfies_within
    ((fork_counted sound.counted sound.tasks lives enough).and
      (satisfies_fork_copied lives enough)) ?_
  rintro eax system ⟨⟨counts, tasks⟩, ⟨negative, rfl⟩ | ⟨slot, rfl, forked⟩⟩
  · rw [if_neg (Int.not_le.mpr negative)]
    exact kept_goto sound (quiet_refl _) rfl
      fun _ below => absurd below (Nat.not_lt_zero _)
  · rw [if_pos (Int.natCast_nonneg slot)]
    exact turn_forked sound forked counts tasks
      (by rw [lives]; exact Option.some_ne_none _) idle closed _

/-- A dead task leaves its slot. -/
theorem kept_release
    {slot : Nat}
    (dead : kernel.point slot = .dead) :
    (Action.release slot).perform.Satisfies kernel
      (fun _ after => Kept kernel after) fun _ => False := by
  have nothing (fd : Nat) : kernel.system.entry (slot, fd) = none := by
    by_cases inRange : fd < nrOpen
    · apply sound.closed
      rw [dead]
      exact inRange
    · by_contra used
      obtain ⟨index, refers⟩ := Option.ne_none_iff_exists'.mp used
      exact inRange
        (mem_descriptors.mp (sound.counted.range _ _ refers).1).2
  have quiet :
      Quiet [] kernel.system
        { kernel.system with
          task := Function.update kernel.system.task slot none } := by
    refine ⟨?_, rfl, fun _ _ => rfl, ?_⟩
    · funext other
      by_cases same : other.1 = slot
      · obtain ⟨_, fd⟩ := other
        cases same
        rw [nothing]
        unfold System.entry System.filp
        simp only [Function.update_self]
        rfl
      · unfold System.entry System.filp
        simp only [Function.update_of_ne same]
    · intro noMore other beyond
      by_cases same : other = slot
      · simp only [same, Function.update_self]
      · simp only [Function.update_of_ne same]
        exact noMore other beyond
  have kept : Kept kernel (kernel.turned slot _ .dead kernel.put) :=
    kept_goto sound quiet rfl fun fd _ => nothing fd
  unfold Kernel.turned at kept
  rw [← dead, Function.update_eq_self] at kept
  exact kept

/-- The step lemma: an action keeps the invariant, and is exact. -/
theorem satisfies_perform
    {action : Action}
    (enabled : descriptorMachine.enabled action kernel) :
    action.perform.Satisfies kernel (fun _ after => Kept kernel after)
      fun _ => False := by
  obtain ⟨isSome, here⟩ := (Bool.and_eq_true_iff).mp enabled
  obtain ⟨task, lives⟩ := Option.isSome_iff_exists.mp isSome
  have idle {current : Nat} (user : (kernel.point current).isUser = true) :
      (kernel.point current).held = [] ∧
        (kernel.point current).closed = 0 := by
    cases point : kernel.point current with
    | user eax =>
      exact ⟨rfl, rfl⟩
    | _ =>
      rw [point] at user
      cases user
  cases action with
  | «open» current flag =>
    exact kept_open sound lives (idle here).1
  | named current fd index flag result =>
    exact kept_named sound lives (eq_of_beq here)
  | resumed current point =>
    obtain ⟨same, opening⟩ := (Bool.and_eq_true_iff).mp here
    cases point with
    | refusing fd index =>
      exact kept_resumed sound lives (eq_of_beq same) (Or.inl rfl)
    | changing fd index flag number mode =>
      exact kept_resumed sound lives (eq_of_beq same)
        (Or.inr ⟨flag, number, mode, rfl⟩)
    | _ =>
      cases opening
  | pipe current =>
    exact kept_pipe sound lives (idle here).1
  | gotPipe current fds indices number =>
    exact kept_gotPipe sound lives (eq_of_beq here)
  | close current fd =>
    exact kept_close sound lives (idle here).1
  | closed current =>
    exact kept_goto sound (quiet_refl _) rfl
      fun _ below => absurd below (Nat.not_lt_zero _)
  | dup current fildes =>
    exact kept_dupfd sound lives (idle here).1
  | fcntl current fd arg =>
    exact kept_dupfd sound lives (idle here).1
  | dup2 current oldfd newfd =>
    exact kept_dup2 sound lives (idle here).1
  | copied current oldfd newfd =>
    have copying : kernel.point current = .copying oldfd newfd :=
      eq_of_beq here
    exact kept_dupfd sound lives (by rw [copying]; rfl)
  | fork current enough =>
    exact kept_fork sound lives (idle here).1 (idle here).2
  | exit current =>
    exact kept_goto sound (quiet_refl _) rfl
      fun _ below => absurd below (Nat.not_lt_zero _)
  | exiting current next =>
    exact kept_exiting sound lives (eq_of_beq here)
  | release slot =>
    exact kept_release sound (eq_of_beq here)

end Actions

/-! ## Runs -/

theorem initial_sound
    {kernel : Kernel}
    (initial : descriptorMachine.initial kernel) :
    Sound kernel := by
  obtain ⟨noEntry, noTask, noCount, points, _⟩ := initial
  have starts : Session.Starts ⟨kernel.system, fun _ => none⟩ :=
    ⟨noEntry, noTask, noCount⟩
  refine ⟨(starts_sound starts).counted, noTask, ?_, ?_, ?_, ?_⟩
  · intro slot fd index held
    rw [points] at held
    cases held
  · intro slot fd index held
    rw [points] at held
    cases held
  · intro slot
    rw [points]
    exact List.nodup_nil
  · intro slot fd _
    exact noEntry (slot, fd)

theorem reachable_sound
    {kernel : Kernel}
    (reached : descriptorMachine.Reachable kernel) :
    Sound kernel :=
  reached.invariant (fun _ initial => initial_sound initial)
    fun _ _ sound enabled =>
      (satisfies_perform sound enabled).mono (fun _ _ kept => kept.1)
        fun _ impossible => impossible.elim

/--
In every reachable state the counts are the numbers of descriptors, no call panics,
and every step takes, hands out and closes files exactly.
-/
theorem counts_exact
    {kernel : Kernel}
    (reached : descriptorMachine.Reachable kernel) :
    (∀ index, index < nrFile →
      (kernel.system.file index).count.toNat =
        occurrences descriptors kernel.system.entry index) ∧
    (∀ slot index, kernel.system.entry slot = some index →
      slot ∈ descriptors ∧ index < nrFile) ∧
    (∀ action, descriptorMachine.enabled action kernel →
      ∀ message, action.perform kernel ≠ .panic message) ∧
    ∀ action after, descriptorMachine.Step kernel action after →
      Exact kernel after := by
  have sound := reachable_sound reached
  refine ⟨sound.counted.counted, sound.counted.range, ?_, ?_⟩
  · intro action enabled message
    exact (satisfies_perform sound enabled).not_panic message
  · intro action after stepped
    cases stepped with
    | returned enabled outcome =>
      exact ((satisfies_perform sound enabled).of_ret outcome).2
    | abandoned enabled outcome =>
      exact ((satisfies_perform sound enabled).of_abandon outcome).elim

/-- A system with task 0 alone, and no open files. -/
def idleKernel : Kernel where
  system :=
    { task := Function.update (fun _ => none) 0
        (some
          { euid := 0
            egid := 0
            umask := 0o22#32
            leader := true
            tty := -1
            closeOnExec := 0#32
            filp := fun _ => none })
      file := fun _ =>
        { mode := 0#16, flags := 0#16, count := 0#16, inode := 0, pos := 0 }
      inode := fun _ => none }
  point _ := .user 0
  put := []

theorem idleKernel_initial : descriptorMachine.initial idleKernel := by
  refine ⟨?_, ?_, fun _ => rfl, fun _ => rfl, rfl⟩
  · rintro ⟨slot, fd⟩
    by_cases zero : slot = 0
    · subst zero
      rfl
    · unfold System.entry System.filp idleKernel
      simp only [Function.update_of_ne zero]
      rfl
  · intro slot beyond
    have different : slot ≠ 0 := by
      rintro rfl
      exact absurd beyond (by decide)
    unfold idleKernel
    simp only [Function.update_of_ne different]

/--
A pipe for which there is no inode, a file that is opened, and a fork: the file has two
descriptors.
-/
def forking : List Action :=
  [.pipe 0, .gotPipe 0 (0, 1) (0, 1) none, .open 0 0#32,
    .named 0 0 0 0#32
      (.ok (7,
        { mode := 0o100644#16
          uid := 0
          gid := 0
          nlinks := 1
          dev := 0x301
          zone0 := 0
          pipe := false
          size := 0
          byte := fun _ => 0#8 })),
    .fork 0 true]

theorem counts_exact_forked :
    ∃ kernel, descriptorMachine.Reachable kernel ∧
      kernel.system.entry (0, 0) = some 0 ∧
      kernel.system.entry (1, 0) = some 0 ∧
      (kernel.system.file 0).inode = 7 ∧
      occurrences descriptors kernel.system.entry 0 = 2 ∧
      ∀ message, (Action.close 1 0).perform kernel ≠ .panic message := by
  have passed :
      (descriptorMachine.follow Action.enabled forking idleKernel).any
        (fun kernel =>
          (Action.close 1 0).enabled kernel &&
            kernel.system.entry (0, 0) == some 0 &&
            kernel.system.entry (1, 0) == some 0 &&
            (kernel.system.file 0).inode == 7 &&
            (kernel.system.file 0).count == 2#16) = true := by
    decide +kernel
  obtain ⟨kernel, followed, test⟩ := (Option.any_eq_true _ _).mp passed
  simp only [Bool.and_eq_true, beq_iff_eq] at test
  obtain ⟨⟨⟨⟨enabled, parent⟩, child⟩, inode⟩, count⟩ := test
  have reached :=
    Machine.Reachable.follow (fun _ _ enabled => enabled)
      (.start idleKernel_initial) followed
  obtain ⟨counts, _, safe, _⟩ := counts_exact reached
  refine ⟨kernel, reached, parent, child, inode, ?_, safe _ enabled⟩
  rw [← counts 0 (by decide), count]
  rfl

end Files

end HitOs
