import HitOs.DescriptorSteps
import HitOs.PathNames

namespace HitOs

/-!
# `dup2`

`sys_dup2` closes the new descriptor before it looks at the old one.  The inodes are
a state of their own, on which `iput` is any routine; a call of it by `sys_close` can
fail to return.
-/

namespace Files

open Routine
open scoped Inodes

/-- The system, and the inodes that `iput` puts. -/
structure Shared (ι : Type) where
  system : System
  inodes : ι

section Calls

variable {ι : Type} (iput : Nat → Routine ι Unit)

namespace Shared

def onSystem {α : Type} (routine : Routine System α) : Routine (Shared ι) α :=
  zoom Shared.system (fun system shared => { shared with system := system })
    routine

def onInodes {α : Type} (routine : Routine ι α) : Routine (Shared ι) α :=
  zoom Shared.inodes (fun inodes shared => { shared with inodes := inodes })
    routine

end Shared

open Shared

/-- `sys_close` with its call of `iput`. -/
def closeAndPut (current fd : Nat) : Routine (Shared ι) Int := do
  let (result, put) ← onSystem (closeFile current fd)
  match put with
  | none => pure result
  | some (_, inode) => do
      onInodes (iput inode)
      pure result

/-- `sys_dup2` -/
def dup2 (current oldfd newfd : Nat) : Routine (Shared ι) Int := do
  let _ ← closeAndPut iput current newfd
  onSystem (dupfd current oldfd newfd)

end Calls

/-- A descriptor that refers to an entry of `file_table`. -/
def IsOpen (system : System) (current fd index : Nat) : Prop :=
  fd < nrOpen ∧ system.entry (current, fd) = some index

/-- No descriptor, no entry of `file_table` and no inode has changed. -/
structure Unchanged {ι : Type} (before after : Shared ι) : Prop where
  entries :
    after.system.entry = before.system.entry
  files :
    after.system.file = before.system.file
  inodes :
    after.inodes = before.inodes

/--
An open descriptor and one in the range make a copy; anything else is an error that
changes nothing.
-/
structure AllOrNothing
    {ι : Type}
    (iput : Nat → Routine ι Unit)
    (current oldfd newfd : Nat)
    (state : Shared ι) : Prop where
  copied :
    ∀ index, IsOpen state.system current oldfd index → newfd < nrOpen →
      ∃ after,
        dup2 iput current oldfd newfd state = .ret (newfd : Int) after ∧
          after.system.entry (current, newfd) = some index ∧
          after.system.entry (current, oldfd) = some index
  refused :
    ((¬∃ index, IsOpen state.system current oldfd index) ∨ nrOpen ≤ newfd) →
      ∃ code after,
        dup2 iput current oldfd newfd state = .ret code after ∧
          code < 0 ∧ Unchanged state after

/--
The calls whose `sys_close` does no harm: there is nothing to close, or there is
another descriptor to copy and the close returns.
-/
def Harmless
    {ι : Type}
    (iput : Nat → Routine ι Unit)
    (current oldfd newfd : Nat)
    (state : Shared ι) : Prop :=
  ∀ closed, IsOpen state.system current newfd closed →
    (∃ index, IsOpen state.system current oldfd index) ∧ oldfd ≠ newfd ∧
      state.system.count closed ≠ 0#16 ∧
      (state.system.count closed = 1#16 →
        ∃ inodes, iput (state.system.file closed).inode state.inodes = .ret () inodes)

/-! ## Closing -/

variable {system : System} {current oldfd newfd index : Nat}

/-- What `sys_close` makes of the tables. -/
def System.withoutFd
    (current fd index : Nat)
    (system : System) : System :=
  ((system.keepOnExec current fd).setFilp current fd none).changeFile index
    fun file => { file with count := file.count - 1#16 }

theorem task_of_entry
    {fd : Nat}
    (refers : system.entry (current, fd) = some index) :
    ∃ task, system.task current = some task := by
  unfold System.entry System.filp at refers
  dsimp only at refers
  cases here : system.task current with
  | none =>
    rw [here] at refers
    cases refers
  | some task =>
    exact ⟨task, rfl⟩

theorem entry_withoutFd
    (refers : system.entry (current, newfd) = some index) :
    (system.withoutFd current newfd index).entry =
      Function.update system.entry (current, newfd) none := by
  obtain ⟨task, here⟩ := task_of_entry refers
  have kept :
      ∃ owner, (system.keepOnExec current newfd).task current = some owner :=
    ⟨_, task_changeTask here⟩
  obtain ⟨owner, installed⟩ := kept
  unfold System.withoutFd
  rw [System.entry_changeFile, System.entry_setFilp installed, System.entry_keepOnExec]

theorem closeFile_beyond
    (beyond : nrOpen ≤ newfd) :
    closeFile current newfd system = .ret (-einval, none) system := by
  unfold closeFile
  rw [if_pos beyond]
  rfl

theorem closeFile_unused
    (below : newfd < nrOpen)
    (unused : system.entry (current, newfd) = none) :
    closeFile current newfd system =
      .ret (-einval, none) (system.keepOnExec current newfd) := by
  have same : (system.keepOnExec current newfd).filp current newfd = none :=
    (congrFun System.entry_keepOnExec (current, newfd)).trans unused
  unfold closeFile
  rw [if_neg (Nat.not_le.mpr below)]
  simp only [bind, andThen, update, Routine.read, same]
  rfl

theorem closeFile_used
    (isOpen : IsOpen system current newfd index) :
    closeFile current newfd system =
      if system.count index = 0#16 then
        .panic "Close: file count is 0"
      else
        .ret
          (0, if system.count index = 1#16 then
              some (index, (system.file index).inode)
            else none)
          (system.withoutFd current newfd index) := by
  have same : (system.keepOnExec current newfd).filp current newfd = some index :=
    (congrFun System.entry_keepOnExec (current, newfd)).trans isOpen.2
  have last :
      (system.file index).count - 1#16 = 0#16 ↔ system.count index = 1#16 := by
    exact BitVec.sub_eq_iff_eq_add
  unfold closeFile
  rw [if_neg (Nat.not_le.mpr isOpen.1)]
  simp only [bind, andThen, update, Routine.read, same]
  by_cases zero : ((system.keepOnExec current newfd).file index).count = 0#16
  · rw [if_pos (show system.count index = 0#16 from zero)]
    simp only [if_pos zero]
    rfl
  · rw [if_neg (show system.count index ≠ 0#16 from zero)]
    by_cases one :
        ((system.keepOnExec current newfd).file index).count - 1#16 = 0#16
    · rw [if_pos (last.mp one)]
      simp only [if_neg zero, one, ne_eq, not_true_eq_false, if_false]
      rfl
    · rw [if_neg fun isOne => one (last.mpr isOne)]
      simp only [if_neg zero, ne_eq, one, not_false_eq_true, if_true]
      rfl

/-! ## Copying -/

/-- What `dupfd` makes of the tables. -/
def System.withCopy
    (current fd index : Nat)
    (system : System) : System :=
  ((system.keepOnExec current fd).setFilp current fd (some index)).changeFile
    index fun file => { file with count := file.count + 1#16 }

theorem entry_withCopy
    (refers : system.entry (current, oldfd) = some index) :
    (system.withCopy current newfd index).entry =
      Function.update system.entry (current, newfd) (some index) := by
  obtain ⟨task, here⟩ := task_of_entry refers
  have kept :
      ∃ owner, (system.keepOnExec current newfd).task current = some owner :=
    ⟨_, task_changeTask here⟩
  obtain ⟨owner, installed⟩ := kept
  unfold System.withCopy
  rw [System.entry_changeFile, System.entry_setFilp installed, System.entry_keepOnExec]

theorem dupfd_unopened
    (unopened : ¬∃ index, IsOpen system current oldfd index) :
    dupfd current oldfd newfd system = .ret (-ebadf) system := by
  have nothing :
      (if oldfd < nrOpen then system.filp current oldfd else none) = none := by
    split
    · rename_i below
      cases here : system.filp current oldfd with
      | none =>
        rfl
      | some index =>
        exact absurd ⟨index, below, here⟩ unopened
    · rfl
  unfold dupfd
  simp only [bind, andThen, Routine.read, nothing]
  rfl

theorem dupfd_beyond
    (beyond : nrOpen ≤ newfd) :
    ∃ code, dupfd current oldfd newfd system = .ret code system ∧ code < 0 := by
  unfold dupfd
  simp only [bind, andThen, Routine.read, if_pos beyond]
  cases (if oldfd < nrOpen then system.filp current oldfd else none) with
  | none =>
    exact ⟨-ebadf, rfl, by decide⟩
  | some index =>
    exact ⟨-einval, rfl, by decide⟩

/-- A free descriptor is the first one from itself on. -/
theorem freeDescriptor_self
    (below : newfd < nrOpen)
    (unused : system.entry (current, newfd) = none) :
    freeDescriptor system current newfd = some newfd := by
  have range :
      List.range' newfd (nrOpen - newfd) =
        newfd :: List.range' (newfd + 1) (nrOpen - newfd - 1) := by
    rw [← List.range'_succ, Nat.sub_add_cancel (Nat.sub_pos_of_lt below)]
  have free : (system.filp current newfd).isNone = true :=
    Option.isNone_iff_eq_none.mpr unused
  unfold freeDescriptor
  rw [range, List.find?_cons, free]

theorem dupfd_copies
    (isOpen : IsOpen system current oldfd index)
    (below : newfd < nrOpen)
    (unused : system.entry (current, newfd) = none) :
    dupfd current oldfd newfd system =
      .ret (newfd : Int) (system.withCopy current newfd index) := by
  have refers :
      (if oldfd < nrOpen then system.filp current oldfd else none) =
        some index := by
    rw [if_pos isOpen.1]
    exact isOpen.2
  unfold dupfd
  simp only [bind, andThen, Routine.read, refers, if_neg (Nat.not_le.mpr below),
    freeDescriptor_self below unused]
  rfl

/-! ## Both -/

section Runs

variable {ι : Type} {iput : Nat → Routine ι Unit}
variable {state after : Shared ι} {closed : Nat}

/-- The inodes after `sys_close` has put the inode of an entry, if it was the last. -/
def Closes
    (iput : Nat → Routine ι Unit)
    (closed : Nat)
    (state : Shared ι)
    (inodes : ι) : Prop :=
  state.system.count closed ≠ 0#16 ∧
    if state.system.count closed = 1#16 then
      iput (state.system.file closed).inode state.inodes = .ret () inodes
    else
      inodes = state.inodes

theorem closeAndPut_eq_ret
    (isOpen : IsOpen state.system current newfd closed)
    {result : Int} :
    closeAndPut iput current newfd state = .ret result after ↔
      result = 0 ∧ Closes iput closed state after.inodes ∧
        after.system = state.system.withoutFd current newfd closed := by
  have first {value : Int × Option (Nat × Nat)} {middle : Shared ι} :
      Shared.onSystem (closeFile current newfd) state = .ret value middle ↔
        state.system.count closed ≠ 0#16 ∧
          value =
            (0, if state.system.count closed = 1#16 then
                some (closed, (state.system.file closed).inode)
              else none) ∧
          middle =
            { state with
              system := state.system.withoutFd current newfd closed } := by
    unfold Shared.onSystem
    rw [zoom_eq_ret, closeFile_used isOpen]
    by_cases zero : state.system.count closed = 0#16
    · simp [zero]
    · simp [zero, eq_comm, and_comm]
  unfold closeAndPut Closes
  rw [bind_eq_ret]
  simp only [first]
  by_cases one : state.system.count closed = 1#16
  · simp only [if_pos one]
    constructor
    · rintro ⟨_, _, ⟨notZero, rfl, rfl⟩, rest⟩
      obtain ⟨_, middle, onInodes, rest⟩ := bind_eq_ret.mp rest
      cases rest
      obtain ⟨inodes, put, rfl⟩ := zoom_eq_ret.mp onInodes
      exact ⟨rfl, ⟨notZero, put⟩, rfl⟩
    · rintro ⟨rfl, ⟨notZero, put⟩, same⟩
      refine ⟨_, _, ⟨notZero, rfl, rfl⟩, ?_⟩
      refine bind_eq_ret.mpr ⟨(), after, zoom_eq_ret.mpr ⟨_, put, ?_⟩, rfl⟩
      rw [← same]
  · simp only [if_neg one]
    constructor
    · rintro ⟨_, _, ⟨notZero, rfl, rfl⟩, rest⟩
      cases rest
      exact ⟨rfl, ⟨notZero, rfl⟩, rfl⟩
    · rintro ⟨rfl, ⟨notZero, kept⟩, same⟩
      refine ⟨_, _, ⟨notZero, rfl, rfl⟩, ?_⟩
      rw [← same, ← kept]
      rfl

/-- `sys_close` of a descriptor that is not open. -/
theorem closeAndPut_unused
    (below : newfd < nrOpen)
    (unused : state.system.entry (current, newfd) = none) :
    closeAndPut iput current newfd state =
      .ret (-einval)
        { state with system := state.system.keepOnExec current newfd } :=
  bind_of_ret (zoom_of_ret (closeFile_unused below unused))

theorem closeAndPut_beyond
    (beyond : nrOpen ≤ newfd) :
    closeAndPut iput current newfd state = .ret (-einval) state :=
  bind_of_ret (zoom_of_ret (closeFile_beyond beyond))

/-- A call on a descriptor that is open. -/
theorem dup2_eq_ret
    (isOpen : IsOpen state.system current newfd closed)
    {result : Int} :
    dup2 iput current oldfd newfd state = .ret result after ↔
      Closes iput closed state after.inodes ∧
        dupfd current oldfd newfd
            (state.system.withoutFd current newfd closed) =
          .ret result after.system := by
  unfold dup2
  rw [bind_eq_ret]
  constructor
  · rintro ⟨code, middle, closes, rest⟩
    obtain ⟨-, closes, same⟩ := (closeAndPut_eq_ret isOpen).mp closes
    obtain ⟨system, copied, rfl⟩ := zoom_eq_ret.mp rest
    rw [same] at copied
    exact ⟨closes, copied⟩
  · rintro ⟨closes, copied⟩
    refine ⟨0,
      { system := state.system.withoutFd current newfd closed
        inodes := after.inodes },
      (closeAndPut_eq_ret isOpen).mpr ⟨rfl, closes, rfl⟩, ?_⟩
    exact zoom_eq_ret.mpr ⟨after.system, copied, rfl⟩

/-- A call whose new descriptor is in the range and not open. -/
theorem allOrNothing_of_unused
    (below : newfd < nrOpen)
    (unused : state.system.entry (current, newfd) = none) :
    AllOrNothing iput current oldfd newfd state := by
  have entries :
      (state.system.keepOnExec current newfd).entry = state.system.entry :=
    System.entry_keepOnExec
  have run {result : Int} {system : System}
      (copied :
        dupfd current oldfd newfd (state.system.keepOnExec current newfd) =
          .ret result system) :
      dup2 iput current oldfd newfd state =
        .ret result { state with system := system } :=
    (bind_of_ret (closeAndPut_unused below unused)).trans (zoom_of_ret copied)
  refine ⟨?_, ?_⟩
  · intro index isOpen _
    have opened :
        IsOpen (state.system.keepOnExec current newfd) current oldfd index :=
      ⟨isOpen.1, entries ▸ isOpen.2⟩
    have different : oldfd ≠ newfd := by
      rintro rfl
      exact nomatch unused.symm.trans isOpen.2
    refine ⟨_, run (dupfd_copies opened below (entries ▸ unused)), ?_, ?_⟩
    · rw [entry_withCopy opened.2, Function.update_self]
    · rw [entry_withCopy opened.2, Function.update_of_ne, entries]
      · exact isOpen.2
      · exact fun same => different (congrArg Prod.snd same)
  · rintro (unopened | beyond)
    · refine ⟨_, _, run (dupfd_unopened ?_), by decide, ?_⟩
      · rintro ⟨index, opened⟩
        exact unopened ⟨index, opened.1, entries ▸ opened.2⟩
      · exact ⟨entries, rfl, rfl⟩
    · exact absurd below (Nat.not_lt.mpr beyond)

theorem allOrNothing_of_beyond
    (beyond : nrOpen ≤ newfd) :
    AllOrNothing iput current oldfd newfd state := by
  refine ⟨fun _ _ below => absurd below (Nat.not_lt.mpr beyond), fun _ => ?_⟩
  have fails :
      ∃ code,
        dupfd current oldfd newfd state.system = .ret code state.system ∧ code < 0 :=
    dupfd_beyond beyond
  obtain ⟨code, failed, negative⟩ := fails
  have run :
      dup2 iput current oldfd newfd state = .ret code state :=
    (bind_of_ret (closeAndPut_beyond beyond)).trans (zoom_of_ret failed)
  exact ⟨code, state, run, negative, rfl, rfl, rfl⟩

/-- A call whose new descriptor is open. -/
theorem allOrNothing_used_iff
    (isOpen : IsOpen state.system current newfd closed) :
    AllOrNothing iput current oldfd newfd state ↔
      (∃ index, IsOpen state.system current oldfd index) ∧ oldfd ≠ newfd ∧
        ∃ inodes, Closes iput closed state inodes := by
  have entries := entry_withoutFd isOpen.2
  have unused :
      (state.system.withoutFd current newfd closed).entry (current, newfd) =
        none := by
    rw [entries, Function.update_self]
  constructor
  · intro all
    have opened : ∃ index, IsOpen state.system current oldfd index := by
      by_contra unopened
      obtain ⟨code, after, returned, -, unchanged⟩ :=
        all.refused (Or.inl unopened)
      obtain ⟨-, copied⟩ := (dup2_eq_ret isOpen).mp returned
      have still :
          ¬∃ index,
            IsOpen (state.system.withoutFd current newfd closed) current oldfd
              index := by
        rintro ⟨index, below, refers⟩
        rw [entries] at refers
        by_cases same : oldfd = newfd
        · exact unopened ⟨closed, same ▸ isOpen⟩
        · rw [Function.update_of_ne
            fun whole => same (congrArg Prod.snd whole)] at refers
          exact unopened ⟨index, below, refers⟩
      rw [dupfd_unopened still] at copied
      injection copied with _ same
      have kept : after.system.entry (current, newfd) = some closed := by
        rw [unchanged.entries]
        exact isOpen.2
      rw [← same] at kept
      exact nomatch unused.symm.trans kept
    obtain ⟨index, isOld⟩ := opened
    obtain ⟨after, returned, refers, -⟩ := all.copied index isOld isOpen.1
    obtain ⟨closes, copied⟩ := (dup2_eq_ret isOpen).mp returned
    refine ⟨⟨index, isOld⟩, ?_, after.inodes, closes⟩
    rintro rfl
    have still :
        ¬∃ index,
          IsOpen (state.system.withoutFd current oldfd closed) current oldfd
            index := by
      rintro ⟨index, -, refers⟩
      exact nomatch unused.symm.trans refers
    rw [dupfd_unopened still] at copied
    injection copied with code
    have range : (0 : Int) ≤ (oldfd : Int) := Int.natCast_nonneg oldfd
    rw [← code] at range
    exact absurd range (by decide)
  · rintro ⟨⟨index, isOld⟩, different, inodes, closes⟩
    have apart : (current, oldfd) ≠ (current, newfd) :=
      fun same => different (congrArg Prod.snd same)
    have opened :
        IsOpen (state.system.withoutFd current newfd closed) current oldfd
          index := by
      refine ⟨isOld.1, ?_⟩
      rw [entries, Function.update_of_ne apart]
      exact isOld.2
    refine ⟨?_, ?_⟩
    · intro found isFound _
      obtain rfl : index = found :=
        Option.some.inj (isOld.2.symm.trans isFound.2)
      refine ⟨
        { system :=
            (state.system.withoutFd current newfd closed).withCopy current
              newfd index
          inodes := inodes },
        (dup2_eq_ret isOpen).mpr
          ⟨closes, dupfd_copies opened isOpen.1 unused⟩, ?_, ?_⟩
      · rw [entry_withCopy opened.2, Function.update_self]
      · rw [entry_withCopy opened.2, Function.update_of_ne apart]
        exact opened.2
    · rintro (unopened | beyond)
      · exact absurd ⟨index, isOld⟩ unopened
      · exact absurd isOpen.1 (Nat.not_lt.mpr beyond)

theorem exists_closes_iff :
    (∃ inodes, Closes iput closed state inodes) ↔
      state.system.count closed ≠ 0#16 ∧
        (state.system.count closed = 1#16 →
          ∃ inodes, iput (state.system.file closed).inode state.inodes =
            .ret () inodes) := by
  unfold Closes
  rw [exists_and_left]
  refine and_congr_right fun _ => ?_
  by_cases one : state.system.count closed = 1#16
  · simp [one]
  · simp [one]

end Runs

/-- `dup2` does all or nothing exactly where its `sys_close` is harmless. -/
theorem allOrNothing_iff_harmless
    {ι : Type}
    (iput : Nat → Routine ι Unit)
    (current oldfd newfd : Nat)
    (state : Shared ι) :
    AllOrNothing iput current oldfd newfd state ↔
      Harmless iput current oldfd newfd state := by
  by_cases beyond : nrOpen ≤ newfd
  · refine iff_of_true (allOrNothing_of_beyond beyond) ?_
    exact fun _ isOpen => absurd isOpen.1 (Nat.not_lt.mpr beyond)
  have below := Nat.lt_of_not_le beyond
  cases here : state.system.entry (current, newfd) with
  | none =>
    refine iff_of_true (allOrNothing_of_unused below here) ?_
    exact fun closed isOpen => nomatch here.symm.trans isOpen.2
  | some closed =>
    rw [allOrNothing_used_iff ⟨below, here⟩, exists_closes_iff]
    constructor
    · rintro harmless other ⟨-, refers⟩
      obtain rfl : closed = other :=
        Option.some.inj (here.symm.trans refers)
      exact harmless
    · exact fun harmless => harmless closed ⟨below, here⟩

/-- `iput` of this development, on an index of `inode_table`. -/
def putInode (number : Nat) : Routine Paths.Kernel Unit :=
  Paths.iput (Fin.ofNat Inodes.nrInode number)

/-- A task whose descriptor 0 and a descriptor elsewhere refer to entry 3. -/
def oneDescriptor : Shared Paths.Kernel where
  system :=
    { task := fun slot =>
        if slot = 1 then
          some
            { euid := 0
              egid := 0
              umask := 0#32
              leader := false
              tty := -1
              closeOnExec := 0#32
              filp := fun fd => if fd = 0 then some 3 else none }
        else
          none
      file := fun _ =>
        { mode := 0o100644#16, flags := 0#16, count := 2#16, inode := 4, pos := 0 }
      inode := fun _ => none }
  inodes :=
    { inode := fun _ => .zero
      last := 0
      super := fun _ =>
        { dev := 0, ninodes := 0, imapBlocks := 0, imount := none }
      root := 0
      pwd := 0
      euid := 0
      egid := 0
      disk := fun _ =>
        { mode := 0, uid := 0, size := 0, gid := 0, nlinks := 0, zone := 0 }
      data := fun _ _ => 0 }

/-- `dup2(0, 0)` closes the descriptor and fails. -/
theorem not_always_allOrNothing :
    ¬∀ (current oldfd newfd : Nat) (state : Shared Paths.Kernel),
      AllOrNothing putInode current oldfd newfd state := by
  intro always
  have isOpen : IsOpen oneDescriptor.system 1 0 3 :=
    ⟨by decide, rfl⟩
  obtain ⟨-, different, -⟩ :=
    (allOrNothing_used_iff isOpen).mp (always 1 0 0 oneDescriptor)
  exact different rfl

end Files

end HitOs
