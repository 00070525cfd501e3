import HitOs.OpenOrigins

namespace HitOs

/-!
# Which descriptors write

`open_namei` checks write permission when the flags ask for it, and `sys_write`
never looks at the flags.  In every run the descriptors whose open had a write
flag are the ones whose open had checked, and nothing else decides what a write
may change.
-/

namespace Files

open Routine

/-! ## The check and the write -/

/-- A byte or the size of a regular file is not what it was. -/
def Changes (before after : System) (number : Nat) : Prop :=
  ∃ inode inode', before.inode number = some inode ∧
    inode.isRegular = true ∧ after.inode number = some inode' ∧
    (inode'.size ≠ inode.size ∨
      ∃ position, position < inode.size ∧ inode'.byte position ≠ inode.byte position)

/-- The file is the one that the open of the descriptor had made. -/
def Origin.Made (origin : Origin) (number : Nat) : Prop :=
  origin.existed = false ∧ origin.number = number

/--
In every run of processes without privileges, a write that changes a regular
file goes through a descriptor with a known origin.  The open behind it had
checked write permission, for a file that was there before, exactly when its
flags had an access mode for writing or `O_TRUNC`.
-/
theorem write_checked_iff
    {labels : List (Nat × Call)} {start session : Session}
    {current fd number room : Nat} {buf : Nat → BitVec 8} {count value : Int}
    {device : DeviceWrite} {after : System}
    (starts : start.Starts)
    (run : Traces (fun label before after =>
      Session.Does before label after) labels start session)
    (wrote :
      sysWrite current fd buf count room device session.system = .ret value after)
    (changes : Changes session.system after number) :
    ∃ index origin,
      session.system.filp current fd = some index ∧
        session.origin (current, fd) = some origin ∧
        ((origin.Made number ∨ origin.granted = true) ↔
          (origin.Made number ∨
            WriteFlags (session.system.file index).flags)) := by
  have sound := run_sound starts run
  obtain ⟨inode, inode', shape, _, shape', different⟩ := changes
  obtain ⟨used, effect⟩ :=
    ensures_sysWrite fd buf count room device value after wrote
  have moved : after.inode number ≠ session.system.inode number := by
    rw [shape, shape']
    intro same
    cases same
    rcases different with size | ⟨position, _, byte⟩
    · exact size rfl
    · exact byte rfl
  have refers :
      ∃ index, session.system.filp current fd = some index := by
    rcases used with rfl | refers
    · exact absurd rfl moved
    · exact refers
  obtain ⟨index, refers⟩ := refers
  obtain ⟨origin, known, describes⟩ := sound.described (current, fd) index
    refers
  refine ⟨index, origin, refers, known, ?_⟩
  cases existed : origin.existed with
  | true =>
    rw [describes.granted existed]
  | false =>
    obtain ⟨node, nodeShape, regular, notPipe⟩ :=
      describes.created existed
    have notBlock : node.isBlock = false := by
      unfold Inode.isRegular at regular
      unfold Inode.isBlock
      rw [beq_iff_eq] at regular
      rw [regular]
      decide
    have targeted :
        target session.system current fd = some origin.number := by
      unfold target
      rw [refers, Option.bind_some, describes.number, nodeShape,
        Option.bind_some, notBlock, if_neg (by simp)]
    have made : origin.Made number := by
      refine ⟨existed, ?_⟩
      by_contra other
      exact moved
        (effect.others _ targeted number (fun same => other same.symm))
    exact ⟨fun _ => Or.inl made, fun _ => Or.inl made⟩

/-! ## A write through a descriptor for reading -/

/-- The claim about a start: every change has been checked. -/
def WritesChecked (start : Session) : Prop :=
  ∀ labels session current fd number room buf count value device after,
    Traces (fun label before after => Session.Does before label after)
        labels start session →
    sysWrite current fd buf count room device session.system = .ret value after →
    Changes session.system after number →
      ∃ origin, session.origin (current, fd) = some origin ∧
        (origin.Made number ∨ origin.granted = true)

/-- A file of three bytes that belongs to the superuser. -/
def rootFile (mode : BitVec 16) : Inode where
  mode := mode
  uid := 0
  gid := 0
  nlinks := 1
  dev := 0x301
  zone0 := 0
  pipe := false
  size := 3
  byte _ := 0#8

/-- A process without privileges. -/
def userTask : Task where
  euid := 1000
  egid := 100
  umask := 0o22#32
  leader := false
  tty := -1
  closeOnExec := 0#32
  filp _ := none

/-- One process, one file. -/
def oneFile (mode : BitVec 16) : Session where
  system :=
    { task := fun slot => if slot = 1 then some userTask else none
      file := fun _ =>
        { mode := 0#16, flags := 0#16, count := 0#16, inode := 0, pos := 0 }
      inode := fun number =>
        if number = 5 then some (rootFile mode) else none }
  origin _ := none

theorem oneFile_starts
    (mode : BitVec 16) :
    (oneFile mode).Starts := by
  refine ⟨?_, ?_, fun _ => rfl⟩
  · intro slot
    unfold System.entry System.filp oneFile
    simp only
    split <;> rfl
  · intro slot beyond
    unfold nrTasks at beyond
    unfold oneFile
    simp only
    rw [if_neg (by omega)]

/-- No device is written. -/
def noDevice : DeviceWrite where
  result := 0
  pos := 0
  contents _ same := same

/-- Open the file and write one byte. -/
def writeTest (mode : BitVec 16) (flag : BitVec 32) : Bool :=
  (sysOpen 1 (.found 5) flag 0#32 (oneFile mode).system).passes
    fun fd opened =>
      fd == 0 &&
      (opened.inode 5).any (fun node =>
        node.isRegular && node.size == 3 && node.byte 0 == 0#8) &&
      (sysWrite 1 0 (fun _ => 7#8) 1 1 noDevice opened).passes
        fun _ after => (after.inode 5).any fun node => node.byte 0 == 7#8

/-- The run and the write behind a test that passed. -/
theorem writes_of_test
    {mode : BitVec 16} {flag : BitVec 32}
    (passed : writeTest mode flag = true) :
    ∃ session after value,
      Traces (fun label before after => Session.Does before label after)
          [(1, .open (.found 5) flag 0#32)] (oneFile mode) session ∧
        sysWrite 1 0 (fun _ => 7#8) 1 1 noDevice session.system = .ret value after ∧
        Changes session.system after 5 ∧
        session.origin (1, 0) =
          some (openOrigin userTask (oneFile mode).system.inode (.found 5)
            flag) := by
  unfold writeTest at passed
  simp only [Outcome.passes_iff, Bool.and_eq_true, beq_iff_eq,
    Option.any_eq_true] at passed
  obtain ⟨_, opened, opens, ⟨rfl, inode, shape, ⟨regular, size⟩, old⟩,
    value, after, wrote, inode', shape', new⟩ := passed
  have does :
      (oneFile mode).Does (1, .open (.found 5) flag 0#32) _ :=
    .returned (by decide) rfl rfl trivial opens
  refine ⟨_, after, value, .next does (.done _), wrote, ?_, rfl⟩
  refine ⟨inode, inode', shape, regular, shape', Or.inr ⟨0, ?_, ?_⟩⟩
  · rw [size]
    decide
  · rw [old, new]
    decide

/-- A file opened for reading is written, although its mode forbids it. -/
theorem not_writesChecked :
    (oneFile 0o100444#16).Starts ∧
      ¬ WritesChecked (oneFile 0o100444#16) := by
  refine ⟨oneFile_starts _, ?_⟩
  intro checked
  obtain ⟨session, after, value, run, wrote, changes, origin⟩ :=
    writes_of_test
      (show writeTest 0o100444#16 0#32 = true by decide +kernel)
  obtain ⟨other, known, made | granted⟩ :=
    checked _ session 1 0 5 1 _ 1 value noDevice after run wrote changes
  · rw [origin] at known
    cases known
    exact absurd made.1 (by decide)
  · rw [origin] at known
    cases known
    exact absurd granted (by decide)

/-- Opened for reading and writing, the same file has been checked. -/
theorem write_checked_iff_rdwr :
    ∃ (session : Session) (after : System) (index : Nat)
      (origin : Origin),
      Changes session.system after 5 ∧
        session.system.filp 1 0 = some index ∧
        session.origin (1, 0) = some origin ∧
        ((origin.Made 5 ∨ origin.granted = true) ↔
          (origin.Made 5 ∨
            WriteFlags (session.system.file index).flags)) := by
  obtain ⟨session, after, value, run, wrote, changes, _⟩ :=
    writes_of_test
      (show writeTest 0o100666#16 2#32 = true by decide +kernel)
  obtain ⟨index, origin, refers, known, same⟩ :=
    write_checked_iff (oneFile_starts 0o100666#16) run wrote changes
  exact ⟨session, after, index, origin, changes, refers, known, same⟩

end Files

end HitOs
