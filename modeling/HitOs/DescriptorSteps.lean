import HitOs.DescriptorCalls

namespace HitOs

/-!
# What the calls do to descriptors and counts

One lemma for each stretch between two points where a task can sleep: which
descriptors it changes, which counts, and which files keep their inodes.
-/

namespace Files

open Routine

variable {system : System} {task : Task} {current : Nat}
variable {abandoned : System → Prop}

namespace Counted

variable {entry : Nat × Nat → Option Nat} {count : Nat → BitVec 16}
variable {slot : Nat × Nat} {index : Nat}

/-- An entry that one descriptor alone refers to. -/
theorem occurrences_eq_one
    (counted : Counted entry count)
    (refers : entry slot = some index)
    (alone : ∀ other, entry other = some index → other = slot) :
    occurrences descriptors entry index = 1 := by
  have only :
      (descriptors.filter fun other => entry other = some index) = {slot} := by
    ext other
    rw [Finset.mem_filter, Finset.mem_singleton]
    constructor
    · exact fun both => alone other both.2
    · rintro rfl
      exact ⟨(counted.range other index refers).1, refers⟩
  rw [occurrences, only]
  exact Finset.card_singleton slot

theorem count_eq_one
    (counted : Counted entry count)
    (refers : entry slot = some index)
    (alone : ∀ other, entry other = some index → other = slot) :
    count index = 1#16 := by
  have one := counted.counted index (counted.range slot index refers).2
  rw [counted.occurrences_eq_one refers alone] at one
  exact BitVec.eq_of_toNat_eq one

/-- A call gives back the only reference to an entry. -/
theorem undo
    (counted : Counted entry count)
    (refers : entry slot = some index)
    (alone : ∀ other, entry other = some index → other = slot) :
    Counted (Function.update entry slot none)
      (Function.update count index 0#16) := by
  have detached := counted.detach refers
  rw [counted.count_eq_one refers alone] at detached
  exact detached

/-- An entry that is counted has a descriptor. -/
theorem used
    (counted : Counted entry count)
    (inTable : index < nrFile)
    (positive : count index ≠ 0#16) :
    ∃ slot, entry slot = some index := by
  by_contra none
  have zero : occurrences descriptors entry index = 0 :=
    occurrences_eq_zero_iff.mpr fun slot _ refers => none ⟨slot, refers⟩
  rw [← counted.counted index inTable] at zero
  exact positive (BitVec.eq_of_toNat_eq zero)

end Counted

/-! ## Changes of a system -/

/-- Descriptors, counts and the inodes of files stay, but for some of the files. -/
structure Quiet
    (changed : List Nat)
    (before after : System) : Prop where
  entries : after.entry = before.entry
  counts : after.count = before.count
  inodes :
    ∀ index, index ∉ changed → (after.file index).inode = (before.file index).inode
  tasks : NoMore before → NoMore after

/-- A descriptor that was free refers to an entry. -/
structure Attached
    (slot : Nat × Nat)
    (index : Nat)
    (before after : System) : Prop where
  free : before.entry slot = none
  range : slot.2 < nrOpen
  entries : after.entry = Function.update before.entry slot (some index)
  counts :
    after.count = Function.update before.count index (before.count index + 1#16)
  inodes :
    ∀ other, (after.file other).inode = (before.file other).inode
  tasks : NoMore before → NoMore after

/-- A descriptor is given up, and the count of its entry is changed. -/
structure Detached
    (slot : Nat × Nat)
    (index : Nat)
    (value : BitVec 16)
    (before after : System) : Prop where
  entries : after.entry = Function.update before.entry slot none
  counts : after.count = Function.update before.count index value
  inodes :
    ∀ other, (after.file other).inode = (before.file other).inode
  tasks : NoMore before → NoMore after

theorem inode_changeFile
    {index other : Nat} {change : File → File}
    (same : ∀ file, (change file).inode = file.inode) :
    ((system.changeFile index change).file other).inode =
      (system.file other).inode := by
  unfold System.changeFile
  simp only
  by_cases changed : other = index
  · rw [changed, Function.update_self]
    exact same _
  · rw [Function.update_of_ne changed]

theorem inode_changeFile_of_ne
    {index other : Nat} {change : File → File}
    (different : other ≠ index) :
    ((system.changeFile index change).file other).inode =
      (system.file other).inode := by
  unfold System.changeFile
  simp only
  rw [Function.update_of_ne different]

theorem count_changeFile_same
    {index : Nat} {change : File → File}
    (same : ∀ file, (change file).count = file.count) :
    (system.changeFile index change).count = system.count := by
  rw [System.count_changeFile, same]
  exact Function.update_eq_self _ _

theorem quiet_refl (system : System) : Quiet [] system system :=
  ⟨rfl, rfl, fun _ _ => rfl, id⟩

theorem quiet_keepOnExec (fd : Nat) :
    Quiet [] system (system.keepOnExec current fd) :=
  ⟨System.entry_keepOnExec, rfl, fun _ _ => rfl, noMore_keepOnExec⟩

/-- A descriptor of a task is set, and one more reference is counted. -/
theorem attached_setFilp
    {fd index : Nat}
    (lives : system.task current = some task)
    (free : system.filp current fd = none)
    (range : fd < nrOpen) :
    Attached (current, fd) index system (taken system current fd index) := by
  have kept :
      ∃ owner, (system.keepOnExec current fd).task current = some owner :=
    ⟨_, task_changeTask lives⟩
  obtain ⟨owner, installed⟩ := kept
  refine ⟨free, range, ?_, System.count_changeFile,
    fun _ => inode_changeFile fun _ => rfl,
    fun noMore => noMore_setFilp (noMore_keepOnExec noMore)⟩
  unfold taken
  rw [System.entry_changeFile, System.entry_setFilp installed, System.entry_keepOnExec]

/-- A descriptor of a task is cleared. -/
theorem detached_setFilp
    {fd index : Nat}
    (lives : system.task current = some task)
    (change : File → File)
    (same : ∀ file, (change file).inode = file.inode) :
    Detached (current, fd) index (change (system.file index)).count system
      ((system.setFilp current fd none).changeFile index change) :=
  ⟨(System.entry_changeFile).trans (System.entry_setFilp lives),
    System.count_changeFile, fun _ => inode_changeFile same, noMore_setFilp⟩

/-! ## Opening -/

theorem satisfies_takeFile
    (lives : system.task current = some task) :
    (takeFile current).Satisfies system
      (fun result after =>
        match result with
        | .error _ =>
          Quiet [] system after
        | .ok (fd, index) =>
          index < nrFile ∧ system.count index = 0#16 ∧
            Attached (current, fd) index system after)
      abandoned := by
  unfold takeFile
  rw [satisfies_bind, satisfies_read]
  split
  · exact quiet_refl system
  · rename_i fd foundFd
    obtain ⟨range, free⟩ := freeDescriptor_some foundFd
    rw [satisfies_bind, satisfies_update]
    split
    · exact quiet_keepOnExec fd
    · rename_i index foundFile
      obtain ⟨inTable, zero⟩ := freeFile_some foundFile
      rw [satisfies_bind, satisfies_update, satisfies_pure]
      exact ⟨inTable, zero, attached_setFilp lives free range⟩

theorem satisfies_undoOpen
    {fd index : Nat}
    (lives : system.task current = some task) :
    (undoOpen current fd index).Satisfies system
      (fun _ after => Detached (current, fd) index 0#16 system after)
      abandoned := by
  unfold undoOpen
  rw [satisfies_update]
  exact detached_setFilp lives (fun file => { file with count := 0#16 })
    fun _ => rfl

theorem satisfies_openFile
    {index number : Nat} {flag : BitVec 32} {mode : BitVec 16}
    (one : system.count index = 1#16) :
    (openFile index flag number mode).Satisfies system
      (fun _ after => Quiet [index] system after)
      abandoned := by
  unfold openFile
  rw [satisfies_update]
  refine ⟨System.entry_changeFile, ?_, ?_, id⟩
  · rw [System.count_changeFile]
    change Function.update system.count index 1#16 = _
    rw [← one, Function.update_eq_self]
  · intro other outside
    exact inode_changeFile_of_ne fun same =>
      outside (List.mem_singleton.mpr same)

theorem satisfies_openTerminal
    {inode : Inode} :
    (openTerminal current task inode).Satisfies system
      (fun _ after => Quiet [] system after)
      abandoned := by
  unfold openTerminal
  split
  · split
    · split
      · rw [satisfies_bind, satisfies_update, satisfies_pure]
        exact ⟨System.entry_changeTask fun _ => rfl, rfl, fun _ _ => rfl,
          noMore_changeTask⟩
      · exact quiet_refl system
    · rw [satisfies_pure]
      exact quiet_refl system
  · rw [satisfies_pure]
    exact quiet_refl system

/-- Where `sys_open` goes from `open_namei`, and with what. -/
theorem satisfies_afterNaming
    {fd index : Nat} {flag : BitVec 32}
    (result : Except Int (Nat × Inode))
    (lives : system.task current = some task)
    (one : system.count index = 1#16) :
    (afterNaming current task fd index flag result).Satisfies system
      (fun point after =>
        ((∃ eax, point = .user eax) ∧
          (Detached (current, fd) index 0#16 system after ∨
            Quiet [index] system after)) ∨
        (point.held = [(fd, index)] ∧ point.closed = 0 ∧ Quiet [] system after))
      abandoned := by
  cases result with
  | error code =>
    unfold afterNaming
    refine Satisfies.andThen (satisfies_undoOpen lives) ?_
    intro _ after detached
    rw [satisfies_pure]
    exact Or.inl ⟨⟨code, rfl⟩, Or.inl detached⟩
  | ok found =>
    unfold afterNaming
    refine Satisfies.andThen satisfies_openTerminal ?_
    intro allowed after quiet
    split
    · split
      · rw [satisfies_pure]
        exact Or.inr ⟨rfl, rfl, quiet⟩
      · have still : after.count index = 1#16 := by
          rw [quiet.counts]
          exact one
        refine Satisfies.andThen (satisfies_openFile still) ?_
        intro _ last opened
        rw [satisfies_pure]
        refine Or.inl ⟨⟨fd, rfl⟩, Or.inr ⟨?_, ?_, ?_, ?_⟩⟩
        · exact opened.entries.trans quiet.entries
        · exact opened.counts.trans quiet.counts
        · intro other outside
          exact (opened.inodes other outside).trans
            (quiet.inodes other List.not_mem_nil)
        · exact fun noMore => opened.tasks (quiet.tasks noMore)
    · rw [satisfies_pure]
      exact Or.inr ⟨rfl, rfl, quiet⟩

theorem satisfies_resumeOpen
    {fd index : Nat} {point : Point}
    (lives : system.task current = some task)
    (one : system.count index = 1#16)
    (asleep :
      point = .refusing fd index ∨
        ∃ flag number mode, point = .changing fd index flag number mode) :
    (resumeOpen current point).Satisfies system
      (fun _ after =>
        Detached (current, fd) index 0#16 system after ∨ Quiet [index] system after)
      abandoned := by
  rcases asleep with rfl | ⟨flag, number, mode, rfl⟩
  · unfold resumeOpen
    refine Satisfies.andThen (satisfies_undoOpen lives) ?_
    exact fun _ _ detached => Or.inl detached
  · unfold resumeOpen
    refine Satisfies.andThen (satisfies_openFile one) ?_
    exact fun _ _ opened => Or.inr opened

/-! ## Pipes -/

theorem freeFiles_two
    {first second : Nat} {rest : List Nat}
    (found : freeFiles system = first :: second :: rest) :
    first ≠ second ∧
      ∀ index, index = first ∨ index = second →
        index < nrFile ∧ system.count index = 0#16 := by
  have nodup : (freeFiles system).Nodup :=
    (List.nodup_range.filter _).sublist (List.take_sublist _ _)
  rw [found, List.nodup_cons] at nodup
  refine ⟨fun same => nodup.1 (same ▸ List.mem_cons_self), ?_⟩
  intro index either
  have member : index ∈ freeFiles system := by
    rw [found]
    rcases either with rfl | rfl
    · exact List.mem_cons_self
    · exact List.mem_cons_of_mem _ List.mem_cons_self
  have filtered := List.mem_filter.mp (List.mem_of_mem_take member)
  exact ⟨List.mem_range.mp filtered.1, beq_iff_eq.mp filtered.2⟩

theorem freeDescriptors_some
    {fd : Nat}
    (member : fd ∈ freeDescriptors system current) :
    fd < nrOpen ∧ system.entry (current, fd) = none := by
  have filtered := List.mem_filter.mp (List.mem_of_mem_take member)
  exact ⟨List.mem_range.mp filtered.1, Option.isNone_iff_eq_none.mp filtered.2⟩

theorem freeDescriptors_nodup :
    (freeDescriptors system current).Nodup :=
  (List.nodup_range.filter _).sublist (List.take_sublist _ _)

/-- Two descriptors that were free refer to two entries that nobody uses. -/
structure AttachedBoth
    (current : Nat)
    (fds indices : Nat × Nat)
    (before after : System) : Prop where
  fds_ne : fds.1 ≠ fds.2
  indices_ne : indices.1 ≠ indices.2
  free :
    ∀ fd, fd = fds.1 ∨ fd = fds.2 → fd < nrOpen ∧ before.entry (current, fd) = none
  fresh :
    ∀ index, index = indices.1 ∨ index = indices.2 →
      index < nrFile ∧ before.count index = 0#16
  entries :
    after.entry =
      Function.update
        (Function.update before.entry (current, fds.1) (some indices.1))
        (current, fds.2) (some indices.2)
  counts :
    after.count =
      Function.update
        (Function.update before.count indices.1
          (before.count indices.1 + 1#16))
        indices.2 (before.count indices.2 + 1#16)
  inodes :
    ∀ other, (after.file other).inode = (before.file other).inode
  tasks : NoMore before → NoMore after

theorem count_countUp
    {index : Nat} :
    (countUp index system).count =
      Function.update system.count index (system.count index + 1#16) :=
  System.count_changeFile

theorem count_clearCount
    {index : Nat} :
    (clearCount index system).count = Function.update system.count index 0#16 :=
  System.count_changeFile

theorem inode_countUp
    {index other : Nat} :
    ((countUp index system).file other).inode = (system.file other).inode :=
  inode_changeFile fun _ => rfl

theorem inode_clearCount
    {index other : Nat} :
    ((clearCount index system).file other).inode = (system.file other).inode :=
  inode_changeFile fun _ => rfl

/-- Two descriptors of a task are set. -/
theorem entry_setFilp_twice
    {fd fd' : Nat} {value value' : Option Nat}
    (lives : system.task current = some task) :
    ((system.setFilp current fd value).setFilp current fd' value').entry =
      Function.update (Function.update system.entry (current, fd) value)
        (current, fd') value' := by
  have still :
      ∃ owner, (system.setFilp current fd value).task current = some owner :=
    ⟨_, task_changeTask lives⟩
  obtain ⟨owner, installed⟩ := still
  rw [System.entry_setFilp installed, System.entry_setFilp lives]

/-- What is left of the counts where `sys_pipe` fails for want of descriptors. -/
structure Cleared
    (first second : Nat)
    (before after : System) : Prop where
  entries : after.entry = before.entry
  counts :
    after.count = Function.update (Function.update before.count first 0#16) second 0#16
  inodes :
    ∀ other, (after.file other).inode = (before.file other).inode
  tasks : NoMore before → NoMore after

theorem cleared_of_same
    {middle : System} {first second : Nat}
    (entries : middle.entry = system.entry)
    (files : middle.file = system.file)
    (tasks : NoMore system → NoMore middle) :
    Cleared first second system
      (clearCount second (clearCount first middle)) := by
  have counts : middle.count = system.count := by
    funext index
    unfold System.count
    rw [files]
  refine ⟨entries, ?_, ?_, tasks⟩
  · rw [count_clearCount, count_clearCount, counts]
  · intro other
    rw [inode_clearCount, inode_clearCount, files]

theorem satisfies_takeDescriptors
    {first second : Nat}
    (lives : system.task current = some task) :
    (takeDescriptors current first second).Satisfies system
      (fun result after =>
        match result with
        | .error _ =>
          Cleared first second system after
        | .ok (fds, indices) =>
          indices = (first, second) ∧ fds.1 ≠ fds.2 ∧
            (∀ fd, fd = fds.1 ∨ fd = fds.2 →
              fd < nrOpen ∧ system.entry (current, fd) = none) ∧
            after.entry =
              Function.update
                (Function.update system.entry (current, fds.1) (some first))
                (current, fds.2) (some second) ∧
            after.file = system.file ∧ (NoMore system → NoMore after))
      abandoned := by
  unfold takeDescriptors
  rw [satisfies_bind, satisfies_read]
  split
  · rename_i fd0 fd1 rest found
    rw [satisfies_bind, satisfies_update, satisfies_bind, satisfies_update,
      satisfies_pure]
    have nodup : (freeDescriptors system current).Nodup :=
      freeDescriptors_nodup
    rw [found, List.nodup_cons] at nodup
    refine ⟨rfl, fun same => nodup.1 (List.mem_cons.mpr (Or.inl same)), ?_,
      entry_setFilp_twice lives, rfl,
      fun noMore => noMore_setFilp (noMore_setFilp noMore)⟩
    intro fd either
    apply freeDescriptors_some
    rw [found]
    rcases either with rfl | rfl
    · exact List.mem_cons_self
    · exact List.mem_cons_of_mem _ List.mem_cons_self
  · rename_i fd found
    rw [satisfies_bind, satisfies_update, satisfies_bind, satisfies_update,
      satisfies_bind, satisfies_update, satisfies_bind, satisfies_update,
      satisfies_pure]
    have free : system.entry (current, fd) = none := by
      refine (freeDescriptors_some ?_).2
      rw [found]
      exact List.mem_cons_self
    refine cleared_of_same ?_ rfl
      (fun noMore => noMore_setFilp (noMore_setFilp noMore))
    rw [entry_setFilp_twice lives, Function.update_idem, ← free,
      Function.update_eq_self]
  · rw [satisfies_bind, satisfies_update, satisfies_bind, satisfies_update,
      satisfies_pure]
    exact cleared_of_same rfl rfl id

theorem satisfies_takePipe
    (lives : system.task current = some task) :
    (takePipe current).Satisfies system
      (fun result after =>
        match result with
        | .error _ =>
          Quiet [] system after
        | .ok (fds, indices) =>
          AttachedBoth current fds indices system after)
      abandoned := by
  unfold takePipe
  rw [satisfies_bind, satisfies_read]
  split
  · rename_i first second rest found
    obtain ⟨different, fresh⟩ := freeFiles_two found
    rw [satisfies_bind, satisfies_update, satisfies_bind, satisfies_update]
    have zeroFirst := (fresh first (Or.inl rfl)).2
    have zeroSecond := (fresh second (Or.inr rfl)).2
    have counts :
        (countUp second (countUp first system)).count =
          Function.update
            (Function.update system.count first
              (system.count first + 1#16))
            second (system.count second + 1#16) := by
      rw [count_countUp, count_countUp, Function.update_of_ne different.symm]
    have inodes (other : Nat) :
        ((countUp second (countUp first system)).file other).inode =
          (system.file other).inode := by
      rw [inode_countUp, inode_countUp]
    have still :
        (countUp second (countUp first system)).task current = some task :=
      lives
    refine (satisfies_takeDescriptors still).mono ?_ fun _ same => same
    intro result after taken
    split at taken
    · refine ⟨taken.entries, ?_, ?_, taken.tasks⟩
      · rw [taken.counts, counts]
        funext index
        by_cases isSecond : index = second
        · rw [isSecond, Function.update_self, zeroSecond]
        · by_cases isFirst : index = first
          · rw [Function.update_of_ne isSecond, isFirst,
              Function.update_self, zeroFirst]
          · rw [Function.update_of_ne isSecond, Function.update_of_ne isFirst,
              Function.update_of_ne isSecond, Function.update_of_ne isFirst]
      · intro other _
        exact (taken.inodes other).trans (inodes other)
    · rename_i fds indices
      obtain ⟨rfl, fdsNe, free, entries, files, tasks⟩ := taken
      refine ⟨fdsNe, different, free, fresh, entries, ?_, ?_, tasks⟩
      · rw [← counts]
        unfold System.count
        rw [files]
      · intro other
        rw [files]
        exact inodes other
  · rename_i index found
    rw [satisfies_bind, satisfies_update, satisfies_bind, satisfies_update,
      satisfies_pure]
    have member : index ∈ freeFiles system := by
      rw [found]
      exact List.mem_cons_self
    have zero : system.count index = 0#16 :=
      beq_iff_eq.mp (List.mem_filter.mp (List.mem_of_mem_take member)).2
    refine ⟨rfl, ?_, ?_, id⟩
    · rw [count_clearCount, count_countUp, Function.update_idem, ← zero,
        Function.update_eq_self]
    · intro other _
      rw [inode_clearCount, inode_countUp]
  · exact quiet_refl system

/-- Two descriptors and the counts of their entries are given back. -/
structure DetachedBoth
    (current : Nat)
    (fds indices : Nat × Nat)
    (before after : System) : Prop where
  entries :
    after.entry =
      Function.update
        (Function.update before.entry (current, fds.1) none)
        (current, fds.2) none
  counts :
    after.count =
      Function.update
        (Function.update before.count indices.1 0#16) indices.2 0#16
  inodes :
    ∀ other, (after.file other).inode = (before.file other).inode
  tasks : NoMore before → NoMore after

theorem satisfies_afterPipe
    {fds indices : Nat × Nat}
    (number : Option Nat)
    (lives : system.task current = some task) :
    (afterPipe current fds indices number).Satisfies system
      (fun _ after =>
        DetachedBoth current fds indices system after ∨
          Quiet [indices.1, indices.2] system after)
      abandoned := by
  cases number with
  | none =>
    unfold afterPipe
    rw [satisfies_bind, satisfies_update, satisfies_bind, satisfies_update,
      satisfies_bind, satisfies_update, satisfies_bind, satisfies_update,
      satisfies_pure]
    refine Or.inl ⟨entry_setFilp_twice lives, ?_, ?_,
      fun noMore => noMore_setFilp (noMore_setFilp noMore)⟩
    · rw [count_clearCount, count_clearCount]
      rfl
    · intro other
      rw [inode_clearCount, inode_clearCount]
      rfl
  | some number =>
    unfold afterPipe
    rw [satisfies_bind, satisfies_update, satisfies_bind, satisfies_update,
      satisfies_pure]
    refine Or.inr ⟨rfl, ?_, ?_, id⟩
    · refine (count_changeFile_same ?_).trans (count_changeFile_same ?_)
      · exact fun _ => rfl
      · exact fun _ => rfl
    · intro other outside
      rw [inode_changeFile_of_ne, inode_changeFile_of_ne]
      · exact fun same => outside (same ▸ List.mem_cons_self)
      · exact fun same =>
          outside (same ▸ List.mem_cons_of_mem _ List.mem_cons_self)

/-! ## Closing and copying -/

theorem satisfies_closeFile
    {fd : Nat}
    (counted : system.Counted)
    (lives : system.task current = some task) :
    (closeFile current fd).Satisfies system
      (fun closed after =>
        (closed.2 = none ∧ (fd < nrOpen → system.entry (current, fd) = none) ∧
          Quiet [] system after) ∨
        ∃ index, system.entry (current, fd) = some index ∧
          Detached (current, fd) index (system.count index - 1#16) system
            after ∧
          closed.2 =
            if system.count index - 1#16 = 0#16 then
              some (index, (system.file index).inode)
            else none)
      abandoned := by
  unfold closeFile
  split
  · rename_i beyond
    rw [satisfies_pure]
    exact Or.inl ⟨rfl, fun below => absurd below (Nat.not_lt.mpr beyond),
      quiet_refl system⟩
  rw [satisfies_bind, satisfies_update, satisfies_bind, satisfies_read]
  have kept :
      ∃ owner, (system.keepOnExec current fd).task current = some owner :=
    ⟨_, task_changeTask lives⟩
  obtain ⟨owner, installed⟩ := kept
  have same :
      (system.keepOnExec current fd).filp current fd = system.entry (current, fd) :=
    congrFun System.entry_keepOnExec (current, fd)
  rw [same]
  split
  · rename_i free
    rw [satisfies_pure]
    exact Or.inl ⟨rfl, fun _ => free, quiet_keepOnExec fd⟩
  rename_i index refers
  rw [satisfies_bind, satisfies_update]
  have notZero : (system.file index).count ≠ 0#16 :=
    counted.count_ne_zero refers
  have sameFile :
      (system.keepOnExec current fd).file index = system.file index :=
    rfl
  rw [sameFile, if_neg notZero, satisfies_bind, satisfies_update]
  have detached :
      Detached (current, fd) index (system.count index - 1#16) system
        (((system.keepOnExec current fd).setFilp current fd none).changeFile
          index fun file => { file with count := file.count - 1#16 }) := by
    have cleared :
        Detached (current, fd) index (system.count index - 1#16)
          (system.keepOnExec current fd) _ :=
      detached_setFilp installed
        (fun file => { file with count := file.count - 1#16 }) fun _ => rfl
    refine ⟨?_, cleared.counts, cleared.inodes,
      fun noMore => cleared.tasks (noMore_keepOnExec noMore)⟩
    rw [cleared.entries, System.entry_keepOnExec]
  have whole :
      (system.file index).count - 1#16 = system.count index - 1#16 :=
    rfl
  split
  · rename_i more
    rw [satisfies_pure]
    refine Or.inr ⟨index, refers, detached, ?_⟩
    rw [if_neg (whole ▸ more)]
  · rename_i last
    rw [satisfies_pure]
    refine Or.inr ⟨index, refers, detached, ?_⟩
    rw [if_pos (whole ▸ not_not.mp last)]

theorem satisfies_dupfd_attached
    {fd arg : Nat}
    (lives : system.task current = some task) :
    (dupfd current fd arg).Satisfies system
      (fun _ after =>
        Quiet [] system after ∨
          ∃ free index, system.entry (current, fd) = some index ∧
            Attached (current, free) index system after)
      abandoned := by
  unfold dupfd
  rw [satisfies_bind, satisfies_read]
  split
  · exact Or.inl (quiet_refl system)
  rename_i index found
  have refers : system.entry (current, fd) = some index := by
    split at found
    · exact found
    · cases found
  split
  · exact Or.inl (quiet_refl system)
  split
  · exact Or.inl (quiet_refl system)
  rename_i free foundFree
  obtain ⟨range, isFree⟩ := freeDescriptor_some foundFree
  rw [satisfies_bind, satisfies_update, satisfies_pure]
  exact Or.inr ⟨free, index, refers, attached_setFilp lives isFree range⟩

/-! ## Forking -/

/-- Any system that is counted stems from some opens. -/
theorem exists_origin
    (counted : system.Counted)
    (tasks : NoMore system) :
    ∃ origin, Session.Sound ⟨system, origin⟩ := by
  classical
  refine ⟨fun slot => (system.entry slot).map fun index =>
    { number := (system.file index).inode
      existed := true
      granted := decide (WriteFlags (system.file index).flags) },
    counted, tasks, ?_⟩
  intro slot index refers
  change system.entry slot = some index at refers
  have known := congrArg (Option.map fun index =>
    ({ number := (system.file index).inode
       existed := true
       granted := decide (WriteFlags (system.file index).flags) } : Origin))
    refers
  exact ⟨_, known, rfl, fun _ => decide_eq_true_iff,
    fun fresh => Bool.noConfusion fresh⟩

/-- A fork counts the descriptors of the child. -/
theorem fork_counted
    (counted : system.Counted)
    (tasks : NoMore system)
    (lives : system.task current = some task)
    (enough : Bool) :
    (fork current enough).Satisfies system
      (fun _ after => after.Counted ∧ NoMore after)
      abandoned := by
  obtain ⟨origin, sound⟩ := exists_origin counted tasks
  refine (satisfies_fork sound lives enough).mono ?_ fun _ same => same
  exact fun _ _ forked => ⟨forked.counted, forked.tasks⟩

/-- A task that is a copy of another one. -/
structure Copied
    (current slot : Nat)
    (before after : System) : Prop where
  free : before.task slot = none
  entries :
    ∀ other,
      after.entry other =
        if other.1 = slot then before.entry (current, other.2)
        else before.entry other
  inodes :
    ∀ other, (after.file other).inode = (before.file other).inode

theorem satisfies_fork_copied
    (lives : system.task current = some task)
    (enough : Bool) :
    (fork current enough).Satisfies system
      (fun eax after =>
        (eax < 0 ∧ after = system) ∨
          ∃ slot : Nat, eax = slot ∧ Copied current slot system after)
      abandoned := by
  unfold fork
  rw [satisfies_bind, satisfies_read]
  split
  · rename_i owner slot ownerShape foundSlot
    rw [lives] at ownerShape
    cases ownerShape
    obtain ⟨_, free⟩ := findEmptyProcess_some foundSlot
    split
    · rw [satisfies_bind, satisfies_update]
      obtain ⟨first, firstShape⟩ :
          ∃ first : System, first =
            { system with
              task :=
                Function.update system.task slot
                  (some { task with leader := false }) } :=
        ⟨_, rfl⟩
      rw [← firstShape]
      refine Satisfies.andThen
        (satisfies_forUp
          (fun _ state =>
            state.task = first.task ∧
              ∀ other, (state.file other).inode = (first.file other).inode)
          ⟨rfl, fun _ => rfl⟩ ?_) ?_
      · intro fd state _ _ sofar
        obtain ⟨tasks, inodes⟩ := sofar
        split
        · exact ⟨tasks, inodes⟩
        · rw [satisfies_update]
          refine ⟨tasks, fun other => ?_⟩
          exact inode_countUp.trans (inodes other)
      · intro _ after counted
        obtain ⟨tasks, inodes⟩ := counted
        rw [satisfies_pure]
        refine Or.inr ⟨slot, rfl, free, ?_, ?_⟩
        · intro other
          unfold System.entry System.filp
          rw [tasks, firstShape]
          simp only
          by_cases same : other.1 = slot
          · rw [if_pos same, same, Function.update_self, lives]
            rfl
          · rw [if_neg same, Function.update_of_ne same]
        · intro other
          rw [inodes, firstShape]
    · exact Or.inl ⟨by decide, rfl⟩
  · exact Or.inl ⟨by decide, rfl⟩

end Files

end HitOs
