import HitOs.FileCalls
import HitOs.Traces

namespace HitOs

/-!
# Files as byte arrays over whole runs

Reads, writes and truncations of the regular files of one file system, one call
after the other, and the same calls on one sparse byte array per file.
-/

namespace Zones

open Routine

/-- Calls on files; reads and writes with the `struct file` they go through. -/
inductive Call where
  | write (inode : Nat) (filp : File) (buf : List UInt8)
  | fileRead (inode : Nat) (filp : File) (count : Nat)
  | sysRead (inode : Nat) (filp : File) (count : Nat)
  | truncate (inode : Nat)

/-- What a call returns, and how it leaves the `struct file`. -/
inductive Result where
  | count (value : Int) (filp : File)
  | bytes (value : List UInt8) (filp : File)
  | done

namespace Call

def inode : Call → Nat
  | write inode _ _ => inode
  | fileRead inode _ _ => inode
  | sysRead inode _ _ => inode
  | truncate inode => inode

/-- The call may change its file. -/
def Changes : Call → Prop
  | write _ _ _ => True
  | truncate _ => True
  | _ => False

def perform (sb : SuperBlock) : Call → Routine Fs Result
  | write inode filp buf => do
      let (value, filp) ← fileWrite sb inode filp buf
      pure (.count value filp)
  | fileRead inode filp count => do
      let (value, filp) ← Zones.fileRead sb inode filp count
      pure (.bytes value filp)
  | sysRead inode filp count => do
      let (value, filp) ← Zones.sysRead sb inode filp count
      pure (.bytes value filp)
  | truncate inode => do
      Zones.truncate sb inode
      pure .done

/-- The call stays in the range that `_bmap` supports. -/
def InRange (fs : Fs) : Call → Prop
  | write inode filp buf =>
    (if filp.append then (fs.inode inode).size else filp.pos) + buf.length ≤ maxSize
  | fileRead _ filp count => filp.pos + count ≤ maxSize
  | sysRead _ filp count => filp.pos + count ≤ maxSize
  | truncate _ => True

end Call

/-- A call, its result, and whether no zone was free after it. -/
structure Event where
  call : Call
  result : Result
  full : Prop

/-- A call on a regular file that returned. -/
structure FileStep
    (sb : SuperBlock)
    (event : Event)
    (before after : Fs) : Prop where
  regular :
    isReg (before.inode event.call.inode).mode = true
  inRange :
    event.call.InRange before
  outcome :
    event.call.perform sb before = .ret event.result after
  full :
    event.full ↔ after.Full sb

/-- The call on byte arrays; a write is short only when no zone is free. -/
inductive RefStep :
    Event → (Nat → SparseFile) → (Nat → SparseFile) → Prop where
  | write
      {files : Nat → SparseFile}
      {inode start taken : Nat} {filp : File} {buf : List UInt8}
      {full : Prop}
      (starts :
        start = if filp.append then (files inode).size else filp.pos)
      (few : taken ≤ buf.length)
      (all : taken < buf.length → full) :
      RefStep
        { call := .write inode filp buf
          result := .count (written taken)
            (if filp.append then filp
              else { filp with pos := start + taken })
          full := full }
        files
        (Function.update files inode
          ((files inode).write start (buf.take taken)))
  | fileRead
      {files : Nat → SparseFile}
      {inode count : Nat} {filp : File} {full : Prop} :
      RefStep
        { call := .fileRead inode filp count
          result := .bytes ((files inode).slice filp.pos count)
            { filp with pos := filp.pos + count }
          full := full }
        files files
  | sysRead
      {files : Nat → SparseFile}
      {inode count : Nat} {filp : File} {full : Prop} :
      RefStep
        { call := .sysRead inode filp count
          result :=
            .bytes
              ((files inode).slice filp.pos
                ((files inode).clip filp.pos count))
              { filp with
                pos := filp.pos + (files inode).clip filp.pos count }
          full := full }
        files files
  | truncate
      {files : Nat → SparseFile}
      {inode : Nat} {full : Prop} :
      RefStep
        { call := .truncate inode
          result := .done
          full := full }
        files
        (Function.update files inode .empty)

/-- No buffer of a zone is in use, and zones and slots agree. -/
structure Settled (sb : SuperBlock) (fs : Fs) : Prop where
  consistent :
    Consistent sb fs
  idle :
    ∀ zone, sb.IsZone zone → fs.count zone = 0

variable {sb : SuperBlock} {fs after start : Fs}

/-- What one call does to the files. -/
theorem satisfies_call
    {call : Call}
    (settled : Settled sb fs)
    (regular : isReg (fs.inode call.inode).mode = true)
    (inRange : call.InRange fs) :
    (call.perform sb).Satisfies fs
      (fun result after =>
        (Settled sb after ∧
          ∀ inode, (after.inode inode).mode = (fs.inode inode).mode) ∧
          RefStep
            { call := call, result := result, full := after.Full sb }
            fs.files after.files)
      (fun _ => False) := by
  have file : fs.IsFile call.inode := by
    unfold Fs.IsFile
    rw [regular]
    rfl
  cases call with
  | write inode filp buf =>
    change fs.IsFile inode at file
    refine (satisfies_fileWrite settled.consistent file rfl
      inRange).andThen ?_
    rintro _ after ⟨taken, rfl, wrote⟩
    rw [satisfies_pure]
    refine ⟨⟨⟨wrote.consistent, ?_⟩, wrote.mode⟩, ?_⟩
    · rw [wrote.count]
      exact settled.idle
    · have size : (fs.files inode).size = (fs.inode inode).size := by
        rw [files_of_isFile file]
        rfl
      rw [wrote.files]
      exact .write (size ▸ rfl) wrote.taken_le wrote.all
  | fileRead inode filp count =>
    refine (satisfies_fileRead settled.consistent file inRange).andThen ?_
    rintro _ after ⟨rfl, rfl⟩
    rw [satisfies_pure]
    exact ⟨⟨settled, fun _ => rfl⟩, .fileRead⟩
  | sysRead inode filp count =>
    refine (satisfies_sysRead settled.consistent file inRange).andThen ?_
    rintro _ after ⟨rfl, rfl⟩
    rw [satisfies_pure]
    exact ⟨⟨settled, fun _ => rfl⟩, .sysRead⟩
  | truncate inode =>
    refine (satisfies_truncate settled.consistent file
      settled.idle).andThen ?_
    intro _ after truncated
    rw [satisfies_pure]
    refine ⟨⟨⟨truncated.consistent settled.consistent file settled.idle,
      ?_⟩, truncated.modes⟩, ?_⟩
    · rw [truncated.count]
      exact settled.idle
    · rw [truncated.files file]
      exact .truncate

theorem FileStep.refines
    {event : Event}
    (settled : Settled sb fs)
    (step : FileStep sb event fs after) :
    Settled sb after ∧ RefStep event fs.files after.files := by
  obtain ⟨⟨settled', _⟩, refStep⟩ :=
    (satisfies_call settled step.regular step.inRange).of_ret step.outcome
  have full : event.full = after.Full sb :=
    propext step.full
  rw [← full] at refStep
  exact ⟨settled', refStep⟩

/-- A step leaves all files but one alone. -/
theorem RefStep.frame
    {event : Event} {files files' : Nat → SparseFile} {other : Nat}
    (step : RefStep event files files')
    (untouched : ¬ (event.call.Changes ∧ event.call.inode = other)) :
    files' other = files other := by
  cases step with
  | write _ _ _ =>
    refine Function.update_of_ne ?_ _ _
    rintro rfl
    exact untouched ⟨trivial, rfl⟩
  | fileRead =>
    rfl
  | sysRead =>
    rfl
  | truncate =>
    refine Function.update_of_ne ?_ _ _
    rintro rfl
    exact untouched ⟨trivial, rfl⟩

theorem refRun_frame
    {events : List Event} {files files' : Nat → SparseFile} {other : Nat}
    (run : Traces RefStep events files files')
    (untouched :
      ∀ event ∈ events, ¬ (event.call.Changes ∧ event.call.inode = other)) :
    files' other = files other := by
  induction run with
  | done _ =>
    rfl
  | next stepped _ inductionHypothesis =>
    rw [inductionHypothesis fun event member =>
        untouched event (List.mem_cons_of_mem _ member),
      stepped.frame (untouched _ List.mem_cons_self)]

theorem run_refines
    {events : List Event}
    (settled : Settled sb start)
    (run : Traces (FileStep sb) events start fs) :
    Settled sb fs ∧ Traces RefStep events start.files fs.files := by
  induction run with
  | done state =>
    exact ⟨settled, .done _⟩
  | next stepped _ inductionHypothesis =>
    obtain ⟨settled', refStep⟩ := stepped.refines settled
    obtain ⟨last, rest⟩ := inductionHypothesis settled'
    exact ⟨last, .next refStep rest⟩

/--
Every run of calls on the files of a file system is a run on byte arrays, with the
same results; files that no call changed are as they were; and every further call
in range returns.
-/
theorem files_are_byte_arrays
    {events : List Event}
    (settled : Settled sb start)
    (run : Traces (FileStep sb) events start fs) :
    Traces RefStep events start.files fs.files ∧
    (∀ other,
      (∀ event ∈ events,
        ¬ (event.call.Changes ∧ event.call.inode = other)) →
        fs.files other = start.files other) ∧
    ∀ call : Call,
      isReg (fs.inode call.inode).mode = true → call.InRange fs →
        ∃ result after,
          FileStep sb
            { call := call, result := result, full := after.Full sb }
            fs after := by
  obtain ⟨last, refines⟩ := run_refines settled run
  refine ⟨refines, ?_, ?_⟩
  · intro other untouched
    exact refRun_frame refines untouched
  · intro call regular inRange
    obtain ⟨result, after, outcome, _⟩ :=
      (satisfies_call last regular inRange).returns
    exact ⟨result, after, regular, inRange, outcome, Iff.rfl⟩

/-! ## A file that is written and read -/

/-- A call in range on a regular file is a step of a run. -/
theorem step_of_call
    (call : Call)
    (settled : Settled sb fs)
    (regular : isReg (fs.inode call.inode).mode = true)
    (inRange : call.InRange fs) :
    ∃ event after, event.call = call ∧ FileStep sb event fs after ∧
      Settled sb after ∧
        ∀ inode, (after.inode inode).mode = (fs.inode inode).mode := by
  obtain ⟨result, after, outcome, ⟨settled', modes⟩, _⟩ :=
    (satisfies_call settled regular inRange).returns
  have step :
      FileStep sb
        { call := call, result := result, full := after.Full sb } fs
        after :=
    ⟨regular, inRange, outcome, Iff.rfl⟩
  exact ⟨_, after, rfl, step, settled', modes⟩

/-- Three bytes are written across two blocks, and more bytes are read. -/
theorem run_write_read
    {inode : Nat}
    (settled : Settled sb start)
    (regular : isReg (start.inode inode).mode = true) :
    ∃ events fs,
      events.map Event.call =
        [.write inode { append := false, pos := 1023 } [1, 2, 3],
          .sysRead inode { append := false, pos := 0 } 2000] ∧
      Traces (FileStep sb) events start fs := by
  have writeRange :
      (Call.write inode { append := false, pos := 1023 }
        [1, 2, 3]).InRange start :=
    show 1023 + 3 ≤ maxSize by decide
  obtain ⟨first, middle, firstCall, wrote, settled', modes⟩ :=
    step_of_call (.write inode _ _) settled regular writeRange
  have readRange :
      (Call.sysRead inode { append := false, pos := 0 } 2000).InRange
        middle :=
    show 0 + 2000 ≤ maxSize by decide
  have stillRegular : isReg (middle.inode inode).mode = true := by
    rw [modes]
    exact regular
  obtain ⟨second, fs, secondCall, readBack, _⟩ :=
    step_of_call (.sysRead inode _ _) settled' stillRegular readRange
  exact ⟨[first, second], fs, by simp [firstCall, secondCall],
    .next wrote (.next readBack (.done fs))⟩

theorem files_are_byte_arrays_write :
    ∃ events fs,
      events.map Event.call =
        [.write 0 { append := false, pos := 1023 } [1, 2, 3],
          .sysRead 0 { append := false, pos := 0 } 2000] ∧
      Traces (FileStep smallSuper) events (emptyFs 0o100000) fs ∧
      Traces RefStep events (emptyFs 0o100000).files fs.files := by
  have settled : Settled smallSuper (emptyFs 0o100000) :=
    ⟨emptyFs_consistent, fun _ _ => rfl⟩
  have regular : isReg ((emptyFs 0o100000).inode 0).mode = true := by
    change isReg 0o100000 = true
    decide
  obtain ⟨events, fs, calls, run⟩ := run_write_read settled regular
  exact ⟨events, fs, calls, run, (files_are_byte_arrays settled run).1⟩

end Zones

end HitOs
