import HitOs.FileCounts
import HitOs.Traces

namespace HitOs

/-!
# The opens behind descriptors

Each descriptor stems from one call of `open_namei`.  What that call had checked
is kept beside the system as history, and every system call keeps it in step with
the flags in the file table.
-/

namespace Files

open Routine

/-! ## The flags that stand for a check -/

/-- Flags with an access mode for writing, or with `O_TRUNC`. -/
def WriteFlags (flags : BitVec 16) : Prop :=
  flags &&& oAccMode.setWidth 16 ≠ 0#16 ∨ flags &&& oTrunc.setWidth 16 ≠ 0#16

theorem accMode_write
    (flag : BitVec 32) :
    accMode flag &&& mayWrite ≠ 0#32 ↔ flag &&& oAccMode ≠ 0#32 := by
  have small : (flag &&& oAccMode).toNat < 4 := by
    rw [BitVec.toNat_and]
    exact Nat.lt_of_le_of_lt Nat.and_le_right (by decide)
  unfold accMode
  generalize flag &&& oAccMode = masked at small
  have values :
      masked = 0#32 ∨ masked = 1#32 ∨ masked = 2#32 ∨ masked = 3#32 := by
    have kinds :
        masked.toNat = 0 ∨ masked.toNat = 1 ∨ masked.toNat = 2 ∨
          masked.toNat = 3 := by
      omega
    rcases kinds with shape | shape | shape | shape
    · exact Or.inl (BitVec.eq_of_toNat_eq shape)
    · exact Or.inr (Or.inl (BitVec.eq_of_toNat_eq shape))
    · exact Or.inr (Or.inr (Or.inl (BitVec.eq_of_toNat_eq shape)))
    · exact Or.inr (Or.inr (Or.inr (BitVec.eq_of_toNat_eq shape)))
  rcases values with rfl | rfl | rfl | rfl <;> decide

theorem openFlag_accMode
    (flag : BitVec 32) :
    openFlag flag &&& oAccMode ≠ 0#32 ↔
      flag &&& oAccMode ≠ 0#32 ∨ flag &&& oTrunc ≠ 0#32 := by
  unfold openFlag
  split
  · rename_i truncates
    have bit :
        (flag ||| oWronly) &&& oAccMode ≠ 0#32 := by
      rw [BitVec.and_or_distrib_right, truncates.2]
      decide
    exact ⟨fun _ => Or.inr truncates.1, fun _ => bit⟩
  · rename_i keeps
    constructor
    · exact Or.inl
    · rintro (asks | truncates)
      · exact asks
      · exact fun isNone => keeps ⟨truncates, isNone⟩

/-- The low flags survive in the 16 bits of `f_flags`. -/
theorem setWidth_and_eq_zero
    (flag mask : BitVec 32)
    (small : mask.toNat < 2 ^ 16) :
    flag.setWidth 16 &&& mask.setWidth 16 = 0#16 ↔ flag &&& mask = 0#32 := by
  have below : (flag &&& mask).toNat < 2 ^ 16 := by
    rw [BitVec.toNat_and]
    exact Nat.lt_of_le_of_lt Nat.and_le_right small
  rw [← BitVec.setWidth_and, ← BitVec.toNat_inj, ← BitVec.toNat_inj,
    BitVec.toNat_setWidth, Nat.mod_eq_of_lt below]
  rfl

/-- The check asks for write permission exactly when `f_flags` has a write flag. -/
theorem accMode_openFlag_iff
    (flag : BitVec 32) :
    accMode (openFlag flag) &&& mayWrite ≠ 0#32 ↔
      WriteFlags (flag.setWidth 16) := by
  unfold WriteFlags
  rw [accMode_write, openFlag_accMode,
    ne_eq (flag.setWidth 16 &&& oAccMode.setWidth 16),
    ne_eq (flag.setWidth 16 &&& oTrunc.setWidth 16),
    setWidth_and_eq_zero flag oAccMode (by decide),
    setWidth_and_eq_zero flag oTrunc (by decide)]

/-- `F_SETFL` leaves the write flags alone. -/
theorem writeFlags_setFlags
    (flags arg : BitVec 16) :
    WriteFlags
        (flags &&& ~~~((oAppend ||| oNonblock).setWidth 16) |||
          arg &&& (oAppend ||| oNonblock).setWidth 16) ↔
      WriteFlags flags := by
  have kept (mask : BitVec 16)
      (inside : ~~~((oAppend ||| oNonblock).setWidth 16) &&& mask = mask)
      (outside : (oAppend ||| oNonblock).setWidth 16 &&& mask = 0#16) :
      (flags &&& ~~~((oAppend ||| oNonblock).setWidth 16) |||
          arg &&& (oAppend ||| oNonblock).setWidth 16) &&& mask =
        flags &&& mask := by
    rw [BitVec.and_or_distrib_right, BitVec.and_assoc, inside,
      BitVec.and_assoc, outside]
    simp
  unfold WriteFlags
  rw [kept _ (by decide) (by decide), kept _ (by decide) (by decide)]

/-! ## Runs and their history -/

/-- The open that produced a descriptor. -/
structure Origin where
  number : Nat
  /-- Whether the file was there before. -/
  existed : Bool
  /-- Whether `open_namei` had checked write permission, with success. -/
  granted : Bool

/-- The history of an open that succeeded. -/
def openOrigin
    (task : Task)
    (inode : Nat → Option Inode)
    (lookup : Lookup)
    (flag : BitVec 32) : Origin :=
  match lookup with
  | .found number =>
    { number := number
      existed := true
      granted :=
        decide (accMode (openFlag flag) &&& mayWrite ≠ 0#32) &&
          (inode number).any fun node =>
            permission task node (accMode (openFlag flag)) }
  | .missing _ fresh _ => { number := fresh.getD 0, existed := false, granted := false }
  | .directory number => { number := number, existed := true, granted := false }
  | .noDirectory => { number := 0, existed := true, granted := false }

/-- The system calls of a run. -/
inductive Call where
  | open (lookup : Lookup) (flag mode : BitVec 32)
  | creat (lookup : Lookup) (mode : BitVec 32)
  | close (fd : Nat)
  | dup (fildes : Nat)
  | dup2 (oldfd newfd : Nat)
  | setFlags (fd : Nat) (arg : BitVec 32)
  | fork (enough : Bool)
  | lseek (fd : Nat) (offset : BitVec 32) (origin : Nat)
  | write (fd : Nat) (buf : Nat → BitVec 8) (count : Int) (room : Nat)
      (device : DeviceWrite)

namespace Call

def perform (current : Nat) : Call → Routine System Int
  | .open lookup flag mode => sysOpen current lookup flag mode
  | .creat lookup mode => sysCreat current lookup mode
  | .close fd => sysClose current fd
  | .dup fildes => sysDup current fildes
  | .dup2 oldfd newfd => sysDup2 current oldfd newfd
  | .setFlags fd arg => Files.setFlags current fd arg
  | .fork enough => Files.fork current enough
  | .lseek fd offset origin => sysLseek current fd offset origin
  | .write fd buf count room device => sysWrite current fd buf count room device

/-- A path leads where the file system has something. -/
def Legal (system : System) : Call → Prop
  | .open lookup _ _ | .creat lookup _ =>
    match lookup with
    | .directory number => system.inode number ≠ none
    | .missing _ (some fresh) _ => system.inode fresh = none
    | _ => True
  | _ => True

/-- Descriptors inherit the origin of what they copy. -/
def history
    (current : Nat)
    (system : System)
    (origin : Nat × Nat → Option Origin)
    (value : Int) : Call → Nat × Nat → Option Origin
  | .open lookup flag _ => opened lookup flag
  | .creat lookup _ => opened lookup (oCreat ||| oTrunc)
  | .close fd => Function.update origin (current, fd) none
  | .dup fildes => copied origin fildes
  | .dup2 oldfd newfd => copied (Function.update origin (current, newfd) none) oldfd
  | .fork _ =>
    if value < 0 then origin
    else fun slot =>
      if slot.1 = value.toNat then origin (current, slot.2)
      else origin slot
  | _ => origin
where
  opened (lookup : Lookup) (flag : BitVec 32) :=
    if value < 0 then origin
    else
      Function.update origin (current, value.toNat)
        ((system.task current).map fun task =>
          openOrigin task system.inode lookup flag)
  copied (origin : Nat × Nat → Option Origin) (fd : Nat) :=
    if value < 0 then origin
    else Function.update origin (current, value.toNat) (origin (current, fd))

end Call

/-- The system, and for each descriptor the open that it stems from. -/
structure Session where
  system : System
  origin : Nat × Nat → Option Origin

/-- One call by a process that is not the superuser. -/
inductive Session.Does
    (session : Session) : Nat × Call → Session → Prop where
  | returned
      {current : Nat} {call : Call} {task : Task}
      {value : Int} {after : System}
      (range : current < nrTasks)
      (lives : session.system.task current = some task)
      (user : suser task = false)
      (legal : call.Legal session.system)
      (outcome :
        call.perform current session.system = .ret value after) :
      Does session (current, call)
        ⟨after, call.history current session.system session.origin value⟩

/-- No file is open yet. -/
def Session.Starts (session : Session) : Prop :=
  (∀ slot, session.system.entry slot = none) ∧
    (∀ slot, nrTasks ≤ slot → session.system.task slot = none) ∧
    ∀ index, session.system.count index = 0#16

/-! ## The invariant -/

/-- What an entry of the file table has to do with the open behind it. -/
structure Describes
    (inode : Nat → Option Inode)
    (origin : Origin)
    (file : File) : Prop where
  number :
    file.inode = origin.number
  granted :
    origin.existed = true → (origin.granted = true ↔ WriteFlags file.flags)
  created :
    origin.existed = false →
      ∃ node, inode origin.number = some node ∧
        node.isRegular = true ∧ node.pipe = false

/-- Inodes in use keep their kind. -/
def InodesKept (before after : Nat → Option Inode) : Prop :=
  ∀ number node, before number = some node →
    ∃ node', after number = some node' ∧ node'.mode = node.mode ∧ node'.pipe = node.pipe

theorem InodesKept.refl
    (inode : Nat → Option Inode) :
    InodesKept inode inode :=
  fun _ node same => ⟨node, same, rfl, rfl⟩

theorem Describes.kept
    {before after : Nat → Option Inode} {origin : Origin} {file : File}
    (describes : Describes before origin file)
    (kept : InodesKept before after) :
    Describes after origin file := by
  refine ⟨describes.number, describes.granted, ?_⟩
  intro fresh
  obtain ⟨node, shape, regular, notPipe⟩ := describes.created fresh
  obtain ⟨node', shape', sameMode, samePipe⟩ := kept _ node shape
  refine ⟨node', shape', ?_, samePipe.trans notPipe⟩
  unfold Inode.isRegular Inode.format at regular ⊢
  rw [sameMode]
  exact regular

/-- What an entry keeps of the open: everything but count, position and bits. -/
theorem Describes.sameFile
    {inode : Nat → Option Inode} {origin : Origin} {file file' : File}
    (describes : Describes inode origin file)
    (sameInode : file'.inode = file.inode)
    (sameFlags : WriteFlags file'.flags ↔ WriteFlags file.flags) :
    Describes inode origin file' :=
  ⟨sameInode.trans describes.number,
    fun existed => (describes.granted existed).trans sameFlags.symm,
    describes.created⟩

/-- The invariant of a run. -/
structure Session.Sound (session : Session) : Prop where
  counted :
    session.system.Counted
  tasks :
    ∀ slot, nrTasks ≤ slot → session.system.task slot = none
  described :
    ∀ slot index, session.system.entry slot = some index →
      ∃ origin, session.origin slot = some origin ∧
        Describes session.system.inode origin
          (session.system.file index)

theorem starts_sound
    {session : Session}
    (starts : session.Starts) :
    session.Sound := by
  obtain ⟨noEntry, noTask, noCount⟩ := starts
  refine ⟨⟨?_, ?_⟩, noTask, ?_⟩
  · intro slot index refers
    rw [noEntry] at refers
    cases refers
  · intro index _
    rw [noCount]
    symm
    rw [BitVec.toNat_ofNat, Nat.zero_mod, occurrences_eq_zero_iff]
    intro slot _
    rw [noEntry]
    exact fun same => nomatch same
  · intro slot index refers
    rw [noEntry] at refers
    cases refers

variable {system : System} {origin : Nat × Nat → Option Origin}
variable {current : Nat} {task : Task} {abandoned : System → Prop}

/-! ## Opening -/

theorem freeDescriptor_some
    {first fd : Nat}
    (found : freeDescriptor system current first = some fd) :
    fd < nrOpen ∧ system.filp current fd = none := by
  unfold freeDescriptor at found
  have member := List.mem_of_find?_eq_some found
  have free := List.find?_some found
  rw [List.mem_range'_1] at member
  exact ⟨by omega, Option.isNone_iff_eq_none.mp free⟩

theorem freeFile_some
    {index : Nat}
    (found : freeFile system = some index) :
    index < nrFile ∧ (system.file index).count = 0#16 := by
  unfold freeFile at found
  have member := List.mem_of_find?_eq_some found
  have free := List.find?_some found
  exact ⟨List.mem_range.mp member, by simpa using free⟩

/-- What `open_namei` has done; the inode it leads to is there. -/
structure Named
    (task : Task)
    (lookup : Lookup)
    (flag : BitVec 32)
    (result : Except Int Nat)
    (before after : System) : Prop where
  tasks :
    after.task = before.task
  files :
    after.file = before.file
  kept :
    InodesKept before.inode after.inode
  failed :
    ∀ code, result = .error code → code < 0
  number :
    ∀ number, result = .ok number → after.inode number ≠ none
  described :
    ∀ number file,
      result = .ok number → file.inode = number →
      file.flags = flag.setWidth 16 →
        Describes after.inode (openOrigin task before.inode lookup flag)
          file

theorem Named.error
    {lookup : Lookup} {flag : BitVec 32} {code : Int}
    (negative : code < 0) :
    Named task lookup flag (.error code) system system where
  tasks := rfl
  files := rfl
  kept := .refl _
  failed _ same := by
    cases same
    exact negative
  number _ same := nomatch same
  described _ _ same := nomatch same

/-- A new inode is a regular file. -/
theorem newInode_regular
    (directory : Inode)
    (mode : BitVec 32) :
    (newInode task directory mode).isRegular = true := by
  unfold Inode.isRegular Inode.format newInode
  simp only [beq_iff_eq]
  rw [BitVec.setWidth_or, BitVec.setWidth_and, BitVec.setWidth_and,
    BitVec.and_or_distrib_right, BitVec.and_assoc, BitVec.and_comm
      ((~~~task.umask).setWidth 16), ← BitVec.and_assoc,
    BitVec.and_assoc (mode.setWidth 16)]
  have outside : (0o777#32).setWidth 16 &&& 0o170000#16 = 0#16 := by
    decide
  have inside :
      (0o100000#32).setWidth 16 &&& 0o170000#16 = 0o100000#16 := by
    decide
  rw [outside, inside]
  simp

/-- A number that was not in use is given to an inode. -/
theorem inodesKept_fresh
    {inode : Nat → Option Inode} {number : Nat}
    (free : inode number = none)
    (value : Option Inode) :
    InodesKept inode (Function.update inode number value) := by
  intro other node shape
  have different : other ≠ number := by
    rintro rfl
    rw [free] at shape
    cases shape
  exact ⟨node, by rw [Function.update_of_ne different]; exact shape,
    rfl, rfl⟩

theorem inodesKept_update
    {inode : Nat → Option Inode} {number : Nat} {old new : Inode}
    (shape : inode number = some old)
    (sameMode : new.mode = old.mode)
    (samePipe : new.pipe = old.pipe) :
    InodesKept inode (Function.update inode number (some new)) := by
  intro other node otherShape
  by_cases same : other = number
  · subst same
    rw [shape] at otherShape
    cases otherShape
    exact ⟨new, Function.update_self .., sameMode, samePipe⟩
  · exact ⟨node, by rw [Function.update_of_ne same]; exact otherShape,
      rfl, rfl⟩

theorem inodesKept_truncate
    {inode : Nat → Option Inode} {number : Nat} {node : Inode}
    (shape : inode number = some node) :
    InodesKept inode
      (Function.update inode number (some node.truncate)) := by
  apply inodesKept_update shape
  · unfold Inode.truncate
    split <;> rfl
  · unfold Inode.truncate
    split <;> rfl

/-- An existing file: the flags say what `permission` was asked. -/
theorem describes_found
    {inode inode' : Nat → Option Inode} {number : Nat} {node : Inode}
    {flag : BitVec 32} {file : File}
    (shape : inode number = some node)
    (permitted : permission task node (accMode (openFlag flag)) = true)
    (sameNumber : file.inode = number)
    (sameFlags : file.flags = flag.setWidth 16) :
    Describes inode' (openOrigin task inode (.found number) flag) file := by
  refine ⟨sameNumber, ?_, fun new => nomatch new⟩
  intro _
  unfold openOrigin
  rw [sameFlags, ← accMode_openFlag_iff]
  simp [shape, permitted]

theorem satisfies_openNamei
    {lookup : Lookup} {flag mode : BitVec 32}
    (legal : (Call.open lookup flag mode).Legal system) :
    (openNamei task lookup flag mode).Satisfies system
      (fun result after => Named task lookup flag result system after)
      abandoned := by
  unfold openNamei
  cases lookup with
  | noDirectory =>
    exact Named.error (by decide)
  | directory number =>
    simp only
    split
    · rename_i readOnly
      rw [satisfies_pure]
      refine ⟨rfl, rfl, .refl _, (fun _ same => nomatch same), ?_, ?_⟩
      · intro other same
        cases same
        exact legal
      · intro other file same sameNumber sameFlags
        cases same
        refine ⟨sameNumber, ?_, fun new => nomatch new⟩
        intro _
        rw [sameFlags, ← accMode_openFlag_iff, accMode_write]
        refine ⟨fun granted => absurd granted Bool.false_ne_true, fun asks => ?_⟩
        apply absurd _ asks
        have small :
            oAccMode = (oAccMode ||| oCreat ||| oTrunc) &&& oAccMode := by
          decide
        rw [small, ← BitVec.and_assoc, readOnly]
        simp
    · exact Named.error (by decide)
  | missing directory fresh added =>
    simp only
    rw [satisfies_bind, satisfies_read]
    split
    · exact Named.error (by decide)
    · split
      · exact Named.error (by decide)
      · rename_i parent _
        split
        · exact Named.error (by decide)
        · cases fresh with
          | none =>
            exact Named.error (by decide)
          | some number =>
            have free : system.inode number = none := legal
            simp only
            rw [satisfies_bind, satisfies_update]
            split
            · rw [satisfies_pure]
              refine ⟨rfl, rfl, inodesKept_fresh free _,
                (fun _ same => nomatch same), ?_, ?_⟩
              · intro other same
                cases same
                unfold System.setInode
                simp
              · intro other file same sameNumber _
                cases same
                refine ⟨sameNumber,
                  fun existed => absurd existed Bool.false_ne_true, ?_⟩
                intro _
                refine ⟨newInode task parent mode, ?_,
                  newInode_regular parent mode, rfl⟩
                unfold openOrigin System.setInode
                simp
            · rw [satisfies_bind, satisfies_update, satisfies_pure]
              refine ⟨rfl, rfl, ?_, ?_, (fun _ same => nomatch same),
                (fun _ _ same => nomatch same)⟩
              · unfold System.setInode
                simp only [Function.update_idem]
                exact inodesKept_fresh free none
              · intro code same
                cases same
                decide
  | found number =>
    simp only
    rw [satisfies_bind, satisfies_read]
    split
    · exact Named.error (by decide)
    · split
      · exact Named.error (by decide)
      · rename_i node shape
        split
        · exact Named.error (by decide)
        · rename_i allowed
          simp only [Bool.or_eq_true, not_or, Bool.not_eq_true',
            Bool.not_eq_false] at allowed
          have described {inode' : Nat → Option Inode} :
              ∀ other file,
                (Except.ok number : Except Int Nat) = .ok other →
                file.inode = other →
                file.flags = flag.setWidth 16 →
                  Describes inode'
                    (openOrigin task system.inode (.found number) flag)
                    file := by
            intro other file same sameNumber sameFlags
            cases same
            exact describes_found shape allowed.2 sameNumber sameFlags
          split
          · rw [satisfies_bind, satisfies_update, satisfies_pure]
            refine ⟨rfl, rfl, inodesKept_truncate shape,
              (fun _ same => nomatch same), ?_, described⟩
            intro other same
            cases same
            unfold System.setInode
            simp
          · rw [satisfies_pure]
            refine ⟨rfl, rfl, .refl _, (fun _ same => nomatch same), ?_, described⟩
            intro other same
            cases same
            rw [shape]
            exact Option.some_ne_none node

/-! ## What a change of the descriptors preserves -/

/-- Files in use keep their inode and their write flags. -/
def FilesKept (before after : System) : Prop :=
  ∀ slot index, before.entry slot = some index →
    (after.file index).inode = (before.file index).inode ∧
      (WriteFlags (after.file index).flags ↔ WriteFlags (before.file index).flags)

/-- No task beyond the task table. -/
def NoMore (system : System) : Prop :=
  ∀ slot, nrTasks ≤ slot → system.task slot = none

theorem noMore_changeTask
    {change : Task → Task}
    (noMore : NoMore system) :
    NoMore (system.changeTask current change) := by
  intro slot beyond
  unfold System.changeTask
  simp only
  by_cases same : slot = current
  · rw [same, Function.update_self, ← same, noMore slot beyond]
    rfl
  · rw [Function.update_of_ne same]
    exact noMore slot beyond

section Changes

variable {after : System} {fd index : Nat}

/-- A call that touches no descriptor. -/
theorem Session.Sound.keep
    (sound : Session.Sound ⟨system, origin⟩)
    (entries : after.entry = system.entry)
    (counts : after.count = system.count)
    (tasks : NoMore after)
    (files : FilesKept system after)
    (inodes : InodesKept system.inode after.inode) :
    Session.Sound ⟨after, origin⟩ := by
  refine ⟨?_, tasks, ?_⟩
  · unfold System.Counted
    rw [entries, counts]
    exact sound.counted
  · intro slot index refers
    change after.entry slot = some index at refers
    rw [entries] at refers
    obtain ⟨o, known, describes⟩ := sound.described slot index refers
    obtain ⟨sameInode, sameFlags⟩ := files slot index refers
    exact ⟨o, known, (describes.kept inodes).sameFile sameInode sameFlags⟩

/-- A free descriptor is given a file. -/
theorem Session.Sound.attach
    (sound : Session.Sound ⟨system, origin⟩)
    {slot : Nat × Nat} {o : Origin}
    (member : slot ∈ descriptors)
    (inTable : index < nrFile)
    (free : system.entry slot = none)
    (entries : after.entry = Function.update system.entry slot (some index))
    (counts :
      after.count = Function.update system.count index (system.count index + 1#16))
    (tasks : NoMore after)
    (files : FilesKept system after)
    (inodes : InodesKept system.inode after.inode)
    (describes : Describes after.inode o (after.file index)) :
    Session.Sound ⟨after, Function.update origin slot (some o)⟩ := by
  refine ⟨?_, tasks, ?_⟩
  · unfold System.Counted
    rw [entries, counts]
    exact sound.counted.attach member inTable free
  · intro other target refers
    change after.entry other = some target at refers
    rw [entries] at refers
    by_cases same : other = slot
    · subst same
      rw [Function.update_self] at refers
      cases refers
      exact ⟨o, Function.update_self .., describes⟩
    · rw [Function.update_of_ne same] at refers
      obtain ⟨old, known, before⟩ := sound.described other target refers
      obtain ⟨sameInode, sameFlags⟩ := files other target refers
      exact ⟨old, (Function.update_of_ne same _ _).trans known,
        (before.kept inodes).sameFile sameInode sameFlags⟩

/-- A descriptor gives its file up. -/
theorem Session.Sound.detach
    (sound : Session.Sound ⟨system, origin⟩)
    {slot : Nat × Nat}
    (refers : system.entry slot = some index)
    (entries : after.entry = Function.update system.entry slot none)
    (counts :
      after.count = Function.update system.count index (system.count index - 1#16))
    (tasks : NoMore after)
    (files : FilesKept system after)
    (inodes : InodesKept system.inode after.inode) :
    Session.Sound ⟨after, Function.update origin slot none⟩ := by
  refine ⟨?_, tasks, ?_⟩
  · unfold System.Counted
    rw [entries, counts]
    exact sound.counted.detach refers
  · intro other target otherRefers
    change after.entry other = some target at otherRefers
    rw [entries] at otherRefers
    by_cases same : other = slot
    · subst same
      rw [Function.update_self] at otherRefers
      cases otherRefers
    · rw [Function.update_of_ne same] at otherRefers
      obtain ⟨old, known, before⟩ :=
        sound.described other target otherRefers
      obtain ⟨sameInode, sameFlags⟩ := files other target otherRefers
      exact ⟨old, (Function.update_of_ne same _ _).trans known,
        (before.kept inodes).sameFile sameInode sameFlags⟩

/-- Changing a file but not its inode or write flags. -/
theorem filesKept_changeFile
    {middle : System} {change : File → File}
    (sameFiles : middle.file = system.file)
    (sameInode : ∀ file, (change file).inode = file.inode)
    (sameFlags :
      ∀ file, WriteFlags (change file).flags ↔ WriteFlags file.flags) :
    FilesKept system (middle.changeFile index change) := by
  intro slot other _
  unfold System.changeFile
  simp only [sameFiles]
  by_cases same : other = index
  · rw [same, Function.update_self]
    exact ⟨sameInode _, sameFlags _⟩
  · rw [Function.update_of_ne same]
    exact ⟨rfl, Iff.rfl⟩

end Changes

/-! ## The calls -/

/-- The descriptor that `sys_open` installs before it looks at the path. -/
def taken (system : System) (current fd index : Nat) : System :=
  ((system.keepOnExec current fd).setFilp current fd
    (some index)).changeFile index fun file =>
      { file with count := file.count + 1#16 }

theorem noMore_keepOnExec
    {fd : Nat}
    (noMore : NoMore system) :
    NoMore (system.keepOnExec current fd) :=
  noMore_changeTask noMore

theorem noMore_setFilp
    {fd : Nat} {value : Option Nat}
    (noMore : NoMore system) :
    NoMore (system.setFilp current fd value) :=
  noMore_changeTask noMore

/-- A task that exists still exists after a change of a task. -/
theorem task_changeTask
    {change : Task → Task}
    (lives : system.task current = some task) :
    (system.changeTask current change).task current =
      some (change task) := by
  unfold System.changeTask
  simp only [Function.update_self]
  rw [lives]
  rfl

/-- While an open is under way: its descriptor is installed. -/
structure Taken
    (system : System)
    (current fd index : Nat)
    (middle : System) : Prop where
  entries :
    middle.entry = Function.update system.entry (current, fd) (some index)
  files :
    middle.file = (taken system current fd index).file
  tasks :
    NoMore middle
  lives :
    ∃ task, middle.task current = some task
  inodes :
    InodesKept system.inode middle.inode

theorem taken_taken
    {fd index : Nat}
    (noMore : NoMore system)
    (lives : system.task current = some task) :
    Taken system current fd index (taken system current fd index) := by
  have kept :
      ∃ owner, (system.keepOnExec current fd).task current = some owner :=
    ⟨_, task_changeTask lives⟩
  obtain ⟨owner, installed⟩ := kept
  refine ⟨?_, rfl, noMore_setFilp (noMore_keepOnExec noMore),
    ⟨_, task_changeTask installed⟩, .refl _⟩
  unfold taken
  rw [System.entry_changeFile, System.entry_setFilp installed, System.entry_keepOnExec]

section Opening

variable {fd index : Nat} {middle : System}

/-- `open_namei` touches no descriptor. -/
theorem Taken.named
    {lookup : Lookup} {flag : BitVec 32} {result : Except Int Nat}
    {after : System}
    (held : Taken system current fd index middle)
    (named : Named task lookup flag result middle after) :
    Taken system current fd index after := by
  obtain ⟨entries, files, tasks, lives, inodes⟩ := held
  refine ⟨?_, named.files.trans files, ?_, ?_, ?_⟩
  · rw [← entries]
    unfold System.entry System.filp
    rw [named.tasks]
  · unfold NoMore
    rw [named.tasks]
    exact tasks
  · rw [named.tasks]
    exact lives
  · intro number node shape
    obtain ⟨node', shape', sameMode, samePipe⟩ := inodes number node shape
    obtain ⟨last, lastShape, lastMode, lastPipe⟩ :=
      named.kept number node' shape'
    exact ⟨last, lastShape, lastMode.trans sameMode, lastPipe.trans samePipe⟩

/-- Taking a file that nobody uses and giving it back changes no file. -/
theorem taken_file
    (other : Nat)
    (different : other ≠ index) :
    (taken system current fd index).file other = system.file other := by
  unfold taken System.changeFile
  simp only
  rw [Function.update_of_ne different]
  rfl

/-- An open that fails gives the descriptor back. -/
theorem Taken.undo
    (held : Taken system current fd index middle)
    (sound : Session.Sound ⟨system, origin⟩)
    (free : system.filp current fd = none)
    (unusedCount : (system.file index).count = 0#16) :
    (undoOpen current fd index).Satisfies middle
      (fun _ after => Session.Sound ⟨after, origin⟩) abandoned := by
  obtain ⟨entries, files, tasks, ⟨owner, lives⟩, inodes⟩ := held
  unfold undoOpen
  rw [satisfies_update]
  apply sound.keep
  · rw [System.entry_changeFile, System.entry_setFilp lives, entries,
      Function.update_idem]
    have same : system.entry (current, fd) = none := free
    rw [← same, Function.update_eq_self]
  · rw [System.count_changeFile]
    funext other
    by_cases same : other = index
    · rw [same, Function.update_self]
      exact unusedCount.symm
    · rw [Function.update_of_ne same]
      change (middle.file other).count = (system.file other).count
      rw [files, taken_file other same]
  · exact noMore_setFilp tasks
  · intro slot other refers
    have different : other ≠ index := by
      rintro rfl
      exact sound.counted.unused unusedCount slot refers
    have same :
        ((middle.setFilp current fd none).changeFile index fun file =>
            { file with count := 0#16 }).file other =
          system.file other := by
      unfold System.changeFile
      simp only
      rw [Function.update_of_ne different]
      change middle.file other = _
      rw [files, taken_file other different]
    rw [same]
    exact ⟨rfl, Iff.rfl⟩
  · exact inodes

/-- An open that succeeds fills in the file. -/
theorem Taken.opened
    {o : Origin} {file : File}
    (held : Taken system current fd index middle)
    (sound : Session.Sound ⟨system, origin⟩)
    (range : current < nrTasks)
    (fdRange : fd < nrOpen)
    (inTable : index < nrFile)
    (free : system.filp current fd = none)
    (unusedCount : (system.file index).count = 0#16)
    (one : file.count = 1#16)
    (describes : Describes middle.inode o file) :
    Session.Sound
      ⟨middle.changeFile index fun _ => file,
        Function.update origin (current, fd) (some o)⟩ := by
  obtain ⟨entries, files, tasks, _, inodes⟩ := held
  have unused := sound.counted.unused unusedCount
  have slotFree : system.entry (current, fd) = none := free
  apply sound.attach (mem_descriptors.mpr ⟨range, fdRange⟩) inTable slotFree
  · exact entries
  · rw [System.count_changeFile, one]
    funext other
    by_cases same : other = index
    · rw [same, Function.update_self, Function.update_self]
      change 1#16 = (system.file index).count + 1#16
      rw [unusedCount]
      decide
    · rw [Function.update_of_ne same, Function.update_of_ne same]
      change (middle.file other).count = (system.file other).count
      rw [files, taken_file other same]
  · exact tasks
  · intro slot other refers
    have different : other ≠ index := by
      rintro rfl
      exact unused slot refers
    unfold System.changeFile
    simp only
    rw [Function.update_of_ne different, files, taken_file other different]
    exact ⟨rfl, Iff.rfl⟩
  · exact inodes
  · unfold System.changeFile
    simp only [Function.update_self]
    exact describes

/-- A terminal changes nothing but the task's. -/
theorem Taken.terminal
    {inode : Inode}
    (held : Taken system current fd index middle) :
    (openTerminal current task inode).Satisfies middle
      (fun _ after =>
        Taken system current fd index after ∧ after.inode = middle.inode)
      abandoned := by
  obtain ⟨entries, files, tasks, ⟨owner, lives⟩, inodes⟩ := held
  have same : Taken system current fd index middle :=
    ⟨entries, files, tasks, ⟨owner, lives⟩, inodes⟩
  unfold openTerminal
  split
  · split
    · split
      · rw [satisfies_bind, satisfies_update, satisfies_pure]
        refine ⟨⟨?_, files, noMore_changeTask tasks,
          ⟨_, task_changeTask lives⟩, inodes⟩, rfl⟩
        have kept :
            (middle.changeTask current fun task =>
              { task with tty := minor inode.zone0 }).entry =
              middle.entry :=
          System.entry_changeTask fun _ => rfl
        exact kept.trans entries
      · rw [satisfies_pure]
        exact ⟨same, rfl⟩
    · rw [satisfies_pure]
      exact ⟨same, rfl⟩
  · rw [satisfies_pure]
    exact ⟨same, rfl⟩

end Opening

theorem satisfies_sysOpen
    (sound : Session.Sound ⟨system, origin⟩)
    (range : current < nrTasks)
    (lives : system.task current = some task)
    {lookup : Lookup} {flag mode : BitVec 32}
    (legal : (Call.open lookup flag mode).Legal system) :
    (sysOpen current lookup flag mode).Satisfies system
      (fun value after =>
        Session.Sound
          ⟨after, Call.history.opened current system origin value lookup flag⟩)
      abandoned := by
  have noMore : NoMore system := sound.tasks
  unfold sysOpen
  rw [satisfies_bind, satisfies_read]
  simp only [lives]
  have failed {code : Int} {after : System}
      (negative : code < 0)
      (still : Session.Sound ⟨after, origin⟩) :
      Session.Sound
        ⟨after,
          Call.history.opened current system origin code lookup flag⟩ := by
    unfold Call.history.opened
    rw [if_pos negative]
    exact still
  split
  · rw [satisfies_pure]
    exact failed (by decide) sound
  rename_i fd foundFd
  obtain ⟨fdRange, free⟩ := freeDescriptor_some foundFd
  rw [satisfies_bind, satisfies_update]
  split
  · rw [satisfies_pure]
    apply failed (by decide)
    exact sound.keep System.entry_keepOnExec rfl
      (noMore_keepOnExec noMore) (fun _ _ _ => ⟨rfl, Iff.rfl⟩) (.refl _)
  rename_i index foundIndex
  obtain ⟨inTable, unusedCount⟩ := freeFile_some foundIndex
  rw [satisfies_bind, satisfies_update]
  have held : Taken system current fd index _ :=
    taken_taken noMore lives
  have undone {code : Int} {middle : System}
      (negative : code < 0)
      (middleHeld : Taken system current fd index middle) :
      (do undoOpen current fd index; pure code : Routine System Int).Satisfies
        middle
        (fun value after =>
          Session.Sound
            ⟨after,
              Call.history.opened current system origin value lookup
                flag⟩)
        abandoned := by
    refine Satisfies.andThen (middleHeld.undo sound free unusedCount) ?_
    intro _ after still
    rw [satisfies_pure]
    exact failed negative still
  have named :
      (openNamei task lookup flag
        (mode &&& 0o777#32 &&& ~~~task.umask)).Satisfies
        (taken system current fd index) _ abandoned :=
    satisfies_openNamei legal
  refine Satisfies.andThen named ?_
  intro result middle reached
  have middleHeld := held.named reached
  cases result with
  | error code =>
    exact undone (reached.failed code rfl) middleHeld
  | ok number =>
    simp only
    rw [satisfies_bind, satisfies_read]
    have present := reached.number number rfl
    split
    · rename_i absent
      exact absurd absent present
    · rename_i inode _
      refine Satisfies.andThen middleHeld.terminal ?_
      rintro allowed last ⟨lastHeld, sameInodes⟩
      split
      · rw [satisfies_bind, satisfies_update, satisfies_pure]
        have describes :=
          reached.described number
            { mode := inode.mode, flags := flag.setWidth 16,
              count := 1#16, inode := number, pos := 0 } rfl rfl rfl
        rw [← sameInodes] at describes
        have still :=
          lastHeld.opened sound range fdRange inTable free unusedCount
            rfl describes
        unfold Call.history.opened
        rw [if_neg (by omega), lives]
        exact still
      · exact undone (by decide) lastHeld

/-- Nothing is remembered of a descriptor that is not in use. -/
theorem Session.Sound.forget
    (sound : Session.Sound ⟨system, origin⟩)
    {slot : Nat × Nat}
    (free : system.entry slot = none)
    (value : Option Origin) :
    Session.Sound ⟨system, Function.update origin slot value⟩ := by
  refine ⟨sound.counted, sound.tasks, ?_⟩
  intro other index refers
  have different : other ≠ slot := by
    rintro rfl
    change system.entry other = some index at refers
    rw [free] at refers
    cases refers
  obtain ⟨o, known, describes⟩ := sound.described other index refers
  exact ⟨o, (Function.update_of_ne different _ _).trans known, describes⟩

theorem satisfies_sysClose
    (sound : Session.Sound ⟨system, origin⟩)
    (lives : system.task current = some task)
    (fd : Nat) :
    (sysClose current fd).Satisfies system
      (fun _ after =>
        Session.Sound ⟨after, Function.update origin (current, fd) none⟩ ∧
          ∃ owner, after.task current = some owner)
      abandoned := by
  have noMore : NoMore system := sound.tasks
  unfold sysClose
  split
  · rename_i beyond
    rw [satisfies_pure]
    refine ⟨sound.forget ?_ none, _, lives⟩
    by_contra used
    obtain ⟨index, refers⟩ := Option.ne_none_iff_exists'.mp used
    have member := (sound.counted.range _ _ refers).1
    rw [mem_descriptors] at member
    unfold nrOpen at beyond
    omega
  · rw [satisfies_bind, satisfies_update, satisfies_bind, satisfies_read]
    have kept : Session.Sound ⟨system.keepOnExec current fd, origin⟩ :=
      sound.keep System.entry_keepOnExec rfl (noMore_keepOnExec noMore)
        (fun _ _ _ => ⟨rfl, Iff.rfl⟩) (.refl _)
    have still :
        ∃ owner, (system.keepOnExec current fd).task current = some owner :=
      ⟨_, task_changeTask lives⟩
    obtain ⟨owner, installed⟩ := still
    split
    · rename_i free
      rw [satisfies_pure]
      have slotFree :
          (system.keepOnExec current fd).entry (current, fd) = none :=
        free
      exact ⟨kept.forget slotFree none, _, installed⟩
    · rename_i index found
      have refers :
          (system.keepOnExec current fd).entry (current, fd) = some index :=
        found
      rw [satisfies_bind, satisfies_update]
      have notZero := kept.counted.count_ne_zero refers
      change ((system.keepOnExec current fd).file index).count ≠ 0#16
        at notZero
      rw [if_neg notZero, satisfies_bind, satisfies_update, satisfies_pure]
      refine ⟨?_, _, task_changeTask installed⟩
      apply kept.detach refers
      · rw [System.entry_changeFile, System.entry_setFilp installed]
      · rw [System.count_changeFile]
        rfl
      · exact noMore_setFilp (noMore_keepOnExec noMore)
      · exact filesKept_changeFile rfl (fun _ => rfl) fun _ => Iff.rfl
      · exact .refl _

theorem satisfies_dupfd
    (sound : Session.Sound ⟨system, origin⟩)
    (range : current < nrTasks)
    (lives : system.task current = some task)
    (fd arg : Nat) :
    (dupfd current fd arg).Satisfies system
      (fun value after =>
        Session.Sound
          ⟨after, Call.history.copied current value origin fd⟩)
      abandoned := by
  have noMore : NoMore system := sound.tasks
  have failed {code : Int}
      (negative : code < 0) :
      Session.Sound
        ⟨system, Call.history.copied current code origin fd⟩ := by
    unfold Call.history.copied
    rw [if_pos negative]
    exact sound
  unfold dupfd
  rw [satisfies_bind, satisfies_read]
  split
  · rw [satisfies_pure]
    exact failed (by decide)
  rename_i index found
  have refers : system.entry (current, fd) = some index := by
    split at found
    · exact found
    · cases found
  split
  · rw [satisfies_pure]
    exact failed (by decide)
  split
  · rw [satisfies_pure]
    exact failed (by decide)
  rename_i free foundFree
  obtain ⟨freeRange, isFree⟩ := freeDescriptor_some foundFree
  have slotFree : system.entry (current, free) = none := isFree
  rw [satisfies_bind, satisfies_update, satisfies_pure]
  obtain ⟨o, known, describes⟩ := sound.described _ _ refers
  change origin (current, fd) = some o at known
  unfold Call.history.copied
  rw [if_neg (by omega), known]
  have still :
      ∃ owner, (system.keepOnExec current free).task current = some owner :=
    ⟨_, task_changeTask lives⟩
  obtain ⟨owner, installed⟩ := still
  apply sound.attach (mem_descriptors.mpr ⟨range, freeRange⟩)
    (sound.counted.range _ _ refers).2 slotFree
  · rw [System.entry_changeFile, System.entry_setFilp installed,
      System.entry_keepOnExec]
  · rw [System.count_changeFile]
    rfl
  · exact noMore_setFilp (noMore_keepOnExec noMore)
  · exact filesKept_changeFile rfl (fun _ => rfl) fun _ => Iff.rfl
  · exact .refl _
  · refine describes.sameFile ?_ ?_
    · unfold System.changeFile
      simp only [Function.update_self]
      rfl
    · unfold System.changeFile
      simp only [Function.update_self]
      exact Iff.rfl

theorem satisfies_sysDup2
    (sound : Session.Sound ⟨system, origin⟩)
    (range : current < nrTasks)
    (lives : system.task current = some task)
    (oldfd newfd : Nat) :
    (sysDup2 current oldfd newfd).Satisfies system
      (fun value after =>
        Session.Sound
          ⟨after,
            Call.history.copied current value
              (Function.update origin (current, newfd) none) oldfd⟩)
      abandoned := by
  unfold sysDup2
  refine Satisfies.andThen (satisfies_sysClose sound lives newfd) ?_
  rintro _ middle ⟨closed, _, still⟩
  exact satisfies_dupfd closed range still oldfd newfd

/-- Changing one file, but neither its inode nor its write flags. -/
theorem Session.Sound.changeFile
    (sound : Session.Sound ⟨system, origin⟩)
    {change : File → File}
    (index : Nat)
    (sameCount : ∀ file, (change file).count = file.count)
    (sameInode : ∀ file, (change file).inode = file.inode)
    (sameFlags :
      ∀ file, WriteFlags (change file).flags ↔ WriteFlags file.flags) :
    Session.Sound ⟨system.changeFile index change, origin⟩ := by
  refine sound.keep rfl ?_ sound.tasks
    (filesKept_changeFile rfl sameInode sameFlags) (.refl _)
  rw [System.count_changeFile, sameCount]
  exact Function.update_eq_self index system.count

theorem satisfies_setFlags
    (sound : Session.Sound ⟨system, origin⟩)
    (fd : Nat)
    (arg : BitVec 32) :
    (setFlags current fd arg).Satisfies system
      (fun _ after => Session.Sound ⟨after, origin⟩) abandoned := by
  unfold setFlags
  rw [satisfies_bind, satisfies_read]
  split
  · exact sound
  · rename_i index _
    rw [satisfies_bind, satisfies_update, satisfies_pure]
    exact sound.changeFile index (fun _ => rfl) (fun _ => rfl)
      fun file => writeFlags_setFlags file.flags (arg.setWidth 16)

theorem satisfies_setPos
    (sound : Session.Sound ⟨system, origin⟩)
    (index : Nat)
    (pos : Int) :
    (setPos index pos).Satisfies system
      (fun _ after => Session.Sound ⟨after, origin⟩) abandoned := by
  unfold setPos
  split
  · exact sound
  · rw [satisfies_bind, satisfies_update, satisfies_pure]
    exact sound.changeFile index (fun _ => rfl) (fun _ => rfl)
      fun _ => Iff.rfl

theorem satisfies_sysLseek
    (sound : Session.Sound ⟨system, origin⟩)
    (fd : Nat)
    (offset : BitVec 32)
    (whence : Nat) :
    (sysLseek current fd offset whence).Satisfies system
      (fun _ after => Session.Sound ⟨after, origin⟩) abandoned := by
  unfold sysLseek
  rw [satisfies_bind, satisfies_read]
  split
  · exact sound
  split
  · exact sound
  split
  · exact sound
  split
  · exact sound
  split
  · exact satisfies_setPos sound _ _
  · exact satisfies_setPos sound _ _
  · exact satisfies_setPos sound _ _
  · exact sound

/-! ## Forking -/

/-- A fork under way: the child's descriptors below `count` are counted. -/
def halfForked
    (system : System)
    (slot : Nat)
    (child : Task)
    (count : Nat) : System :=
  { system with
    task :=
      Function.update system.task slot
        (some { child with
          filp := fun fd => if fd < count then child.filp fd else none }) }

/-- The origins that the child has inherited so far. -/
def halfInherited
    (origin : Nat × Nat → Option Origin)
    (current slot count : Nat) : Nat × Nat → Option Origin :=
  fun other =>
    if other.1 = slot ∧ other.2 < count then origin (current, other.2)
    else origin other

section Forking

variable {slot count : Nat} {child : Task}

theorem entry_halfForked
    (other : Nat × Nat) :
    (halfForked system slot child count).entry other =
      if other.1 = slot then
        if other.2 < count then child.filp other.2 else none
      else system.entry other := by
  unfold System.entry System.filp halfForked
  simp only
  by_cases same : other.1 = slot
  · rw [same, Function.update_self, if_pos rfl]
    rfl
  · rw [Function.update_of_ne same, if_neg same]

/-- One more descriptor of the child: its entry alone changes. -/
theorem entry_halfForked_succ :
    (halfForked system slot child (count + 1)).entry =
      Function.update (halfForked system slot child count).entry
        (slot, count) (child.filp count) := by
  funext other
  rw [entry_halfForked]
  by_cases same : other = (slot, count)
  · subst same
    rw [Function.update_self, if_pos rfl, if_pos (Nat.lt_succ_self _)]
  · rw [Function.update_of_ne same, entry_halfForked]
    by_cases sameSlot : other.1 = slot
    · rw [if_pos sameSlot, if_pos sameSlot]
      have different : other.2 ≠ count :=
        fun sameCount => same (Prod.ext sameSlot sameCount)
      by_cases below : other.2 < count
      · rw [if_pos below, if_pos (by omega)]
      · rw [if_neg below, if_neg (by omega)]
    · rw [if_neg sameSlot, if_neg sameSlot]

theorem halfInherited_succ :
    halfInherited origin current slot (count + 1) =
      Function.update (halfInherited origin current slot count)
        (slot, count) (origin (current, count)) := by
  funext other
  unfold halfInherited
  by_cases same : other = (slot, count)
  · subst same
    rw [Function.update_self, if_pos ⟨rfl, Nat.lt_succ_self _⟩]
  · rw [Function.update_of_ne same]
    refine if_congr ?_ rfl rfl
    constructor
    · rintro ⟨sameSlot, below⟩
      refine ⟨sameSlot, ?_⟩
      have different : other.2 ≠ count :=
        fun sameCount => same (Prod.ext sameSlot sameCount)
      omega
    · rintro ⟨sameSlot, below⟩
      exact ⟨sameSlot, by omega⟩

/-- What the counting loop of a fork keeps. -/
structure Forking
    (first : System)
    (origin : Nat × Nat → Option Origin)
    (current slot : Nat)
    (child : Task)
    (count : Nat)
    (state : System) : Prop where
  tasks :
    state.task = Function.update first.task slot (some child)
  inodes :
    state.inode = first.inode
  sound :
    Session.Sound
      ⟨halfForked state slot child count, halfInherited origin current slot count⟩
  /-- The descriptors that are copied. -/
  source :
    ∀ fd index, child.filp fd = some index →
      (fd < nrOpen ∧ index < nrFile) ∧
        ∃ o, origin (current, fd) = some o ∧ Describes state.inode o (state.file index)

theorem satisfies_forkStep
    {first state : System}
    (range : slot < nrTasks)
    (inRange : count < nrOpen)
    (forking : Forking first origin current slot child count state) :
    (match child.filp count with
      | none => pure ()
      | some index =>
        update (System.changeFile index fun file =>
          { file with count := file.count + 1#16 }) :
      Routine System Unit).Satisfies state
      (fun _ after =>
        Forking first origin current slot child (count + 1) after)
      abandoned := by
  obtain ⟨tasks, inodes, sound, source⟩ := forking
  have slotFree :
      (halfForked state slot child count).entry (slot, count) = none := by
    rw [entry_halfForked, if_pos rfl, if_neg (Nat.lt_irrefl _)]
  have noMore : NoMore (halfForked state slot child count) := sound.tasks
  have noMoreNext :
      NoMore (halfForked state slot child (count + 1)) := by
    intro other beyond
    have different : other ≠ slot := by
      unfold nrTasks at *
      omega
    have before := noMore other beyond
    unfold halfForked at before ⊢
    simp only [Function.update_of_ne different] at before ⊢
    exact before
  split
  · rename_i absent
    rw [satisfies_pure]
    refine ⟨tasks, inodes, ?_, source⟩
    rw [halfInherited_succ]
    apply Session.Sound.forget
    · refine sound.keep ?_ rfl noMoreNext
        (fun _ _ _ => ⟨rfl, Iff.rfl⟩) (.refl _)
      rw [entry_halfForked_succ, absent, ← slotFree, Function.update_eq_self]
    · rw [entry_halfForked_succ, Function.update_self, absent]
  · rename_i index copied
    rw [satisfies_update]
    obtain ⟨⟨_, inTable⟩, o, known, describes⟩ :=
      source count index copied
    have sameFile (other : Nat) :
        let after := state.changeFile index fun file =>
          { file with count := file.count + 1#16 }
        (after.file other).inode = (state.file other).inode ∧
          (WriteFlags (after.file other).flags ↔
            WriteFlags (state.file other).flags) := by
      unfold System.changeFile
      simp only
      by_cases same : other = index
      · rw [same, Function.update_self]
        exact ⟨rfl, Iff.rfl⟩
      · rw [Function.update_of_ne same]
        exact ⟨rfl, Iff.rfl⟩
    refine ⟨tasks, inodes, ?_, ?_⟩
    · rw [halfInherited_succ, known]
      apply sound.attach (mem_descriptors.mpr ⟨range, inRange⟩) inTable
        slotFree
      · have entries :
            (halfForked
                (state.changeFile index fun file =>
                  { file with count := file.count + 1#16 })
                slot child (count + 1)).entry =
              (halfForked state slot child (count + 1)).entry :=
          rfl
        rw [entries, entry_halfForked_succ, copied]
      · have counts :
            ((halfForked state slot child (count + 1)).changeFile index
              fun file => { file with count := file.count + 1#16 }).count =
              _ :=
          System.count_changeFile
        exact counts
      · exact noMoreNext
      · intro _ other _
        exact sameFile other
      · exact .refl _
      · exact describes.sameFile (sameFile index).1 (sameFile index).2
    · intro fd target refers
      obtain ⟨targetInTable, other, otherKnown, otherDescribes⟩ :=
        source fd target refers
      exact ⟨targetInTable, other, otherKnown,
        otherDescribes.sameFile (sameFile target).1 (sameFile target).2⟩

/-- All descriptors of the child are counted. -/
theorem Forking.done
    {first state : System}
    (range : slot < nrTasks)
    (forking : Forking first origin current slot child nrOpen state) :
    Session.Sound
      ⟨state, fun other =>
        if other.1 = slot then origin (current, other.2)
        else origin other⟩ := by
  obtain ⟨tasks, _, sound, source⟩ := forking
  have entries :
      state.entry = (halfForked state slot child nrOpen).entry := by
    funext other
    rw [entry_halfForked]
    by_cases same : other.1 = slot
    · rw [if_pos same]
      have whole : state.entry other = child.filp other.2 := by
        unfold System.entry System.filp
        rw [tasks, same, Function.update_self]
        rfl
      rw [whole]
      split
      · rfl
      · rename_i beyond
        by_contra used
        obtain ⟨index, copied⟩ := Option.ne_none_iff_exists'.mp used
        exact beyond (source _ index copied).1.1
    · rw [if_neg same]
  have noMore : NoMore state := by
    intro other beyond
    have different : other ≠ slot := by
      omega
    have before := sound.tasks other beyond
    unfold halfForked at before
    simp only [Function.update_of_ne different] at before
    exact before
  have counted := sound.counted
  refine ⟨?_, noMore, ?_⟩
  · unfold System.Counted at counted ⊢
    rw [entries]
    exact counted
  · intro other index refers
    change state.entry other = some index at refers
    rw [entries] at refers
    obtain ⟨o, known, describes⟩ := sound.described other index refers
    refine ⟨o, ?_, describes⟩
    change halfInherited origin current slot nrOpen other = some o at known
    unfold halfInherited at known
    by_cases same : other.1 = slot
    · rw [entry_halfForked, if_pos same] at refers
      have inRange : other.2 < nrOpen := by
        by_contra beyond
        rw [if_neg beyond] at refers
        cases refers
      rw [if_pos ⟨same, inRange⟩] at known
      change (if other.1 = slot then _ else _) = _
      rw [if_pos same]
      exact known
    · rw [if_neg (fun both => same both.1)] at known
      change (if other.1 = slot then _ else _) = _
      rw [if_neg same]
      exact known

end Forking

theorem findEmptyProcess_some
    {slot : Nat}
    (found : findEmptyProcess system = some slot) :
    slot < nrTasks ∧ system.task slot = none := by
  unfold findEmptyProcess at found
  have member := List.mem_of_find?_eq_some found
  have free := List.find?_some found
  rw [List.mem_range'_1] at member
  unfold nrTasks at member ⊢
  exact ⟨by omega, Option.isNone_iff_eq_none.mp free⟩

theorem satisfies_fork
    (sound : Session.Sound ⟨system, origin⟩)
    (lives : system.task current = some task)
    (enough : Bool) :
    (fork current enough).Satisfies system
      (fun value after =>
        Session.Sound
          ⟨after, (Call.fork enough).history current system origin value⟩)
      abandoned := by
  have noMore : NoMore system := sound.tasks
  have failed :
      Session.Sound
        ⟨system, (Call.fork enough).history current system origin (-eagain)⟩ :=
    sound
  unfold fork
  rw [satisfies_bind, satisfies_read]
  split
  · rename_i owner slot ownerShape foundSlot
    rw [lives] at ownerShape
    cases ownerShape
    obtain ⟨range, free⟩ := findEmptyProcess_some foundSlot
    split
    · rw [satisfies_bind, satisfies_update]
      obtain ⟨child, childShape⟩ :
          ∃ child, child = { task with leader := false } :=
        ⟨_, rfl⟩
      rw [← childShape]
      have childFilp : child.filp = task.filp := by
        rw [childShape]
      have parent (fd : Nat) :
          child.filp fd = system.entry (current, fd) := by
        unfold System.entry System.filp
        rw [lives, childFilp]
        rfl
      obtain ⟨first, firstShape⟩ :
          ∃ first : System, first =
            { system with
              task := Function.update system.task slot (some child) } :=
        ⟨_, rfl⟩
      rw [← firstShape]
      have initially :
          Forking system origin current slot child 0 first := by
        refine ⟨?_, ?_, ?_, ?_⟩
        · rw [firstShape]
        · rw [firstShape]
        · have inherited :
              halfInherited origin current slot 0 = origin := by
            funext other
            unfold halfInherited
            rw [if_neg (by omega)]
          rw [inherited, firstShape]
          refine sound.keep ?_ rfl ?_ (fun _ _ _ => ⟨rfl, Iff.rfl⟩)
            (.refl _)
          · funext other
            rw [entry_halfForked]
            by_cases same : other.1 = slot
            · rw [if_pos same, if_neg (Nat.not_lt_zero _)]
              unfold System.entry System.filp
              rw [same, free]
              rfl
            · rw [if_neg same]
              unfold System.entry System.filp
              simp only
              rw [Function.update_of_ne same]
          · intro other beyond
            unfold halfForked
            simp only
            rw [Function.update_of_ne (by omega),
              Function.update_of_ne (by omega)]
            exact noMore other beyond
        · intro fd index copied
          rw [parent] at copied
          obtain ⟨member, inTable⟩ := sound.counted.range _ _ copied
          obtain ⟨o, known, describes⟩ := sound.described _ _ copied
          rw [firstShape]
          exact ⟨⟨(mem_descriptors.mp member).2, inTable⟩, o, known, describes⟩
      have loop :
          (forUp
            (fun fd =>
              match task.filp fd with
              | none => pure ()
              | some index =>
                update (System.changeFile index fun file =>
                  { file with count := file.count + 1#16 }))
            nrOpen 0).Satisfies first
            (fun _ after =>
              Forking system origin current slot child (0 + nrOpen) after)
            abandoned := by
        rw [← childFilp]
        exact satisfies_forUp
          (fun count state =>
            Forking system origin current slot child count state)
          initially
          (fun fd state _ below forking =>
            satisfies_forkStep range (by omega) forking)
      refine Satisfies.andThen loop ?_
      intro _ after forked
      rw [Nat.zero_add] at forked
      rw [satisfies_pure]
      unfold Call.history
      rw [if_neg (by omega)]
      exact forked.done range
    · exact failed
  · exact failed

/-! ## Writing -/

theorem ensures_writeBlocks
    (room : Nat) :
    ∀ (inode : Inode) (pos : Nat) (bytes : List (BitVec 8)),
      (writeBlocks inode pos room bytes).Ensures system
        (fun written after =>
          after = system ∧ written.1.mode = inode.mode ∧
            written.1.pipe = inode.pipe) := by
  induction room with
  | zero =>
    intro inode pos bytes
    exact ensures_pure ⟨rfl, rfl, rfl⟩
  | succ room inductionHypothesis =>
    intro inode pos bytes
    cases bytes with
    | nil =>
      exact ensures_pure ⟨rfl, rfl, rfl⟩
    | cons byte rest =>
      unfold writeBlocks
      split
      · exact ensures_panic _
      · exact inductionHypothesis _ _ _

/-- What a write does to the inodes: one file, or what a device write does. -/
structure Wrote
    (system after : System)
    (only : Option Nat) : Prop where
  tasks :
    after.task = system.task
  counts :
    after.count = system.count
  files :
    FilesKept system after
  inodes :
    InodesKept system.inode after.inode
  others :
    ∀ number, only = some number →
      ∀ other, other ≠ number → after.inode other = system.inode other

theorem Wrote.changePos
    {middle : System} {only : Option Nat} {index pos : Nat}
    (wrote : Wrote system middle only) :
    Wrote system
      (middle.changeFile index fun file => { file with pos := pos })
      only := by
  refine ⟨wrote.tasks, ?_, ?_, wrote.inodes, wrote.others⟩
  · rw [System.count_changeFile, ← wrote.counts]
    exact Function.update_eq_self index middle.count
  · intro slot other refers
    obtain ⟨sameInode, sameFlags⟩ := wrote.files slot other refers
    unfold System.changeFile
    simp only
    by_cases same : other = index
    · subst same
      rw [Function.update_self]
      exact ⟨sameInode, sameFlags⟩
    · rw [Function.update_of_ne same]
      exact ⟨sameInode, sameFlags⟩

theorem Wrote.refl
    (system : System)
    (only : Option Nat) :
    Wrote system system only :=
  ⟨rfl, rfl, fun _ _ _ => ⟨rfl, Iff.rfl⟩, .refl _, fun _ _ _ _ => rfl⟩

theorem ensures_fileWrite
    (index number : Nat)
    (bytes : List (BitVec 8))
    (room : Nat) :
    (fileWrite index number bytes room).Ensures system
      (fun _ after => Wrote system after (some number)) := by
  unfold fileWrite
  rw [ensures_read_bind]
  split
  · exact ensures_abandon
  rename_i inode shape
  refine Ensures.andThen (ensures_writeBlocks room _ _ bytes) ?_
  rintro ⟨written, last⟩ middle ⟨rfl, sameMode, samePipe⟩
  simp only
  rw [ensures_update_bind]
  have wrote :
      Wrote middle (middle.setInode number (some written))
        (some number) := by
    refine ⟨rfl, rfl, fun _ _ _ => ⟨rfl, Iff.rfl⟩,
      inodesKept_update shape sameMode samePipe, ?_⟩
    rintro _ ⟨⟩ other different
    exact Function.update_of_ne different _ _
  split
  · rw [ensures_update_bind]
    exact ensures_pure wrote.changePos
  · exact ensures_pure wrote

/-- Where a write goes: the file of the descriptor, unless it is a device. -/
def target
    (system : System)
    (current fd : Nat) : Option Nat :=
  (system.filp current fd).bind fun index =>
    (system.inode (system.file index).inode).bind fun inode =>
      if inode.pipe = false ∧ inode.isCharacter = false ∧ inode.isBlock = true then none
      else some (system.file index).inode

theorem ensures_sysWrite
    (fd : Nat)
    (buf : Nat → BitVec 8)
    (count : Int)
    (room : Nat)
    (device : DeviceWrite) :
    (sysWrite current fd buf count room device).Ensures system
      (fun _ after =>
        (after = system ∨ ∃ index, system.filp current fd = some index) ∧
          Wrote system after (target system current fd)) := by
  unfold sysWrite
  rw [ensures_read_bind]
  split
  · exact ensures_pure ⟨Or.inl rfl, .refl _ _⟩
  rename_i index found
  have refers : system.filp current fd = some index := by
    split at found
    · exact found
    · cases found
  have used {after : System} :
      after = system ∨ ∃ index, system.filp current fd = some index :=
    Or.inr ⟨index, refers⟩
  split
  · exact ensures_pure ⟨used, .refl _ _⟩
  simp only
  split
  · exact ensures_abandon
  rename_i inode shape
  have targeted :
      target system current fd =
        if inode.pipe = false ∧ inode.isCharacter = false ∧
            inode.isBlock = true then none
        else some (system.file index).inode := by
    unfold target
    rw [refers, Option.bind_some, shape, Option.bind_some]
  split
  · exact ensures_pure ⟨used, .refl _ _⟩
  rename_i notPipe
  split
  · rw [ensures_update_bind]
    exact ensures_pure ⟨used, (Wrote.refl _ _).changePos⟩
  rename_i notCharacter
  rw [Bool.not_eq_true] at notPipe notCharacter
  split
  · rename_i isBlock
    rw [if_pos ⟨notPipe, notCharacter, isBlock⟩] at targeted
    rw [targeted, ensures_update_bind, ensures_update_bind]
    have wrote : Wrote system (rawWrite device system) none := by
      refine ⟨rfl, rfl, fun _ _ _ => ⟨rfl, Iff.rfl⟩, ?_, fun _ same => nomatch same⟩
      intro number node nodeShape
      unfold rawWrite
      simp only
      rw [nodeShape]
      exact ⟨_, rfl, rfl, rfl⟩
    exact ensures_pure ⟨used, wrote.changePos⟩
  · rename_i notBlock
    rw [if_neg (fun block => notBlock block.2.2)] at targeted
    rw [targeted]
    split
    · intro value after outcome
      exact ⟨used,
        ensures_fileWrite index (system.file index).inode _ room value
          after outcome⟩
    · exact ensures_pure ⟨used, .refl _ _⟩

/-! ## Every call -/

theorem does_sound
    {session next : Session} {label : Nat × Call}
    (sound : session.Sound)
    (does : session.Does label next) :
    next.Sound := by
  cases does with
  | @returned current call task value after range lives user legal
      outcome =>
      obtain ⟨system, origin⟩ := session
      cases call with
      | «open» lookup flag mode =>
        have opens :
            (sysOpen current lookup flag mode).Satisfies system _
              (fun _ => True) :=
          satisfies_sysOpen sound range lives legal
        exact opens.of_ret outcome
      | creat lookup mode =>
        have opens :
            (sysOpen current lookup (oCreat ||| oTrunc)
              mode).Satisfies system _ (fun _ => True) :=
          satisfies_sysOpen sound range lives legal
        exact opens.of_ret outcome
      | close fd =>
        have closes :
            (sysClose current fd).Satisfies system _ (fun _ => True) :=
          satisfies_sysClose sound lives fd
        exact (closes.of_ret outcome).1
      | dup fildes =>
        have copies :
            (dupfd current fildes 0).Satisfies system _
              (fun _ => True) :=
          satisfies_dupfd sound range lives fildes 0
        exact copies.of_ret outcome
      | dup2 oldfd newfd =>
        have copies :
            (sysDup2 current oldfd newfd).Satisfies system _
              (fun _ => True) :=
          satisfies_sysDup2 sound range lives oldfd newfd
        exact copies.of_ret outcome
      | setFlags fd arg =>
        have sets :
            (setFlags current fd arg).Satisfies system _
              (fun _ => True) :=
          satisfies_setFlags sound fd arg
        exact sets.of_ret outcome
      | fork enough =>
        have forks :
            (fork current enough).Satisfies system _ (fun _ => True) :=
          satisfies_fork sound lives enough
        exact forks.of_ret outcome
      | lseek fd offset whence =>
        have seeks :
            (sysLseek current fd offset whence).Satisfies system _
              (fun _ => True) :=
          satisfies_sysLseek sound fd offset whence
        exact seeks.of_ret outcome
      | write fd buf count room device =>
        have wrote :=
          (ensures_sysWrite fd buf count room device value after
            outcome).2
        apply sound.keep
        · unfold System.entry System.filp
          rw [wrote.tasks]
        · exact wrote.counts
        · unfold NoMore
          rw [wrote.tasks]
          exact sound.tasks
        · exact wrote.files
        · exact wrote.inodes

theorem run_sound
    {labels : List (Nat × Call)} {start session : Session}
    (starts : start.Starts)
    (run : Traces (fun label before after =>
      Session.Does before label after) labels start session) :
    session.Sound :=
  run.invariant (fun _ _ _ sound does => does_sound sound does)
    (starts_sound starts)

end Files

end HitOs
