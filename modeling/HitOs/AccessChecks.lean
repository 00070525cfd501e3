import HitOs.Execve
import HitOs.OpenFiles

namespace HitOs

/-!
# Three checks of the same permission bits

`permission`, `sys_access` and the test of `do_execve` each choose the bits of the
owner, of the group or of the others and compare them with what is asked for.
`sys_access` shifts by 6 where it should shift by 3, so a member of the group is
answered with the bits of the owner.
-/

namespace Access

open Files (Inode permission eacces)

/-- A task with its real ids. -/
structure Process extends Files.Task where
  uid : Nat
  gid : Nat

/-- `sys_access`, with the inode that `namei` finds. -/
def sysAccess
    (current : Process)
    (found : Option Inode)
    (mode : BitVec 32) : Int :=
  let mode := mode &&& 7#32
  match found with
  | none => -eacces
  | some inode =>
    let iMode := inode.mode &&& 0o777#16
    let res :=
      if current.uid = inode.uid then iMode >>> 6
      else if current.gid = inode.gid then iMode >>> 6
      else iMode
    if res.setWidth 32 &&& 7#32 &&& mode = mode then
      0
    else if current.uid = 0 ∧ (mode &&& 1#32 = 0#32 ∨ iMode &&& 0o111#16 ≠ 0#16) then
      0
    else
      -eacces

/-! ## Classes of users -/

/-- Whose bits of a mode are looked at. -/
inductive Class where
  | owner
  | group
  | other
deriving DecidableEq

namespace Class

/-- Where the three bits of a class are in a mode. -/
def shift : Class → Nat
  | owner => 6
  | group => 3
  | other => 0

/-- The class of a user for a file. -/
def of (uid gid : Nat) (inode : Inode) : Class :=
  if uid = inode.uid then owner
  else if gid = inode.gid then group
  else other

/-- The class whose bits `sys_access` looks at. -/
def accessed (uid gid : Nat) (inode : Inode) : Class :=
  if uid = inode.uid then owner
  else if gid = inode.gid then owner
  else other

end Class

/-- Whether the bits of a class have all that is asked for. -/
def Grants (mode : BitVec 16) (looked : Class) (mask : BitVec 32) : Prop :=
  (mode >>> looked.shift).setWidth 32 &&& 7#32 &&& mask = mask

instance (mode : BitVec 16) (looked : Class) (mask : BitVec 32) :
    Decidable (Grants mode looked mask) :=
  inferInstanceAs (Decidable (_ = _))

/-- Only the three bits of read, write and execute are ever granted. -/
theorem Grants.masked
    {mode : BitVec 16} {looked : Class} {mask : BitVec 32}
    (granted : Grants mode looked mask) :
    mask &&& 7#32 = mask := by
  unfold Grants at granted
  rw [← granted]
  ext index
  simp only [BitVec.getElem_and]
  cases (7#32)[index] <;> simp

theorem permissionBits_getLsbD
    (looked : Class)
    (index : Fin 3) :
    (0o777#16).getLsbD (looked.shift + index.val) = true := by
  cases looked <;> revert index <;> decide

theorem seven_getLsbD :
    ∀ index : Fin 32, 3 ≤ index.val → (7#32).getLsbD index.val = false := by
  decide

/-- What `sys_access` cuts off of a mode does not matter. -/
theorem masked_mode
    (mode : BitVec 16)
    (looked : Class) :
    ((mode &&& 0o777#16) >>> looked.shift).setWidth 32 &&& 7#32 =
      (mode >>> looked.shift).setWidth 32 &&& 7#32 := by
  ext index inside
  simp only [BitVec.getElem_and, BitVec.getElem_setWidth, BitVec.getLsbD_ushiftRight,
    BitVec.getLsbD_and]
  by_cases low : index < 3
  · rw [permissionBits_getLsbD looked ⟨index, low⟩, Bool.and_true]
  · have cut : (7#32)[index] = false := by
      rw [← BitVec.getLsbD_eq_getElem]
      exact seven_getLsbD ⟨index, inside⟩ (Nat.le_of_not_lt low)
    rw [cut, Bool.and_false, Bool.and_false]

/-! ## What each check looks at -/

variable {current : Process} {inode : Inode} {mask : BitVec 32}

theorem permission_iff
    (linked : inode.nlinks ≠ 0)
    (unprivileged : current.euid ≠ 0) :
    permission current.toTask inode mask = true ↔
      Grants inode.mode (.of current.euid current.egid inode) mask := by
  have notSuser : Files.suser current.toTask = false := by
    simpa [Files.suser] using unprivileged
  have chosen :
      (if current.euid = inode.uid then inode.mode >>> 6
        else if current.egid = inode.gid then inode.mode >>> 3
        else inode.mode) =
      inode.mode >>> (Class.of current.euid current.egid inode).shift := by
    unfold Class.of
    split
    · rfl
    · split
      · rfl
      · exact (BitVec.ushiftRight_zero inode.mode).symm
  unfold permission
  rw [if_neg fun deleted => linked deleted.2, notSuser, Bool.or_false,
    chosen, beq_iff_eq, BitVec.and_assoc, BitVec.and_comm mask,
    ← BitVec.and_assoc]
  rfl

theorem sysAccess_iff
    (unprivileged : current.uid ≠ 0) :
    sysAccess current (some inode) mask = 0 ↔
      Grants inode.mode (.accessed current.uid current.gid inode)
        (mask &&& 7#32) := by
  have chosen :
      (if current.uid = inode.uid then (inode.mode &&& 0o777#16) >>> 6
        else if current.gid = inode.gid then (inode.mode &&& 0o777#16) >>> 6
        else inode.mode &&& 0o777#16) =
      (inode.mode &&& 0o777#16) >>>
        (Class.accessed current.uid current.gid inode).shift := by
    unfold Class.accessed
    split
    · rfl
    · split
      · rfl
      · exact (BitVec.ushiftRight_zero _).symm
  unfold sysAccess
  dsimp only
  rw [chosen, masked_mode]
  unfold Grants
  split
  · simpa
  · rename_i refused
    rw [if_neg fun privileged => unprivileged privileged.1]
    exact iff_of_false (by decide) refused

/-- The same user and the same file, as `do_execve` sees them. -/
structure Runs
    (current : Process)
    (inode : Inode)
    (caller : Execve.Caller)
    (file : Execve.Inode) : Prop where
  euid :
    caller.euid = current.euid
  egid :
    caller.egid = current.egid
  mode :
    file.mode = inode.mode.toNat
  uid :
    file.uid = inode.uid
  gid :
    file.gid = inode.gid

theorem grants_exec_iff
    {mode : BitVec 16} {looked : Class} :
    Grants mode looked 1#32 ↔
      (mode.toNat >>> looked.shift) &&& 1 ≠ 0 := by
  have bit :
      (mode >>> looked.shift).setWidth 32 &&& 7#32 &&& 1#32 =
        (mode >>> looked.shift).setWidth 32 &&& 1#32 := by
    rw [BitVec.and_assoc]
    rfl
  have value :
      ((mode >>> looked.shift).setWidth 32 &&& 1#32).toNat =
        (mode.toNat >>> looked.shift) &&& 1 := by
    have small := (mode >>> looked.shift).isLt
    rw [BitVec.toNat_and, BitVec.toNat_setWidth,
      Nat.mod_eq_of_lt (by omega), BitVec.toNat_ushiftRight]
    rfl
  have range : (mode.toNat >>> looked.shift) &&& 1 ≤ 1 :=
    Nat.and_le_right
  unfold Grants
  rw [bit, ← BitVec.toNat_inj, value]
  change _ = 1 ↔ _
  omega

theorem mayExec_iff
    {caller : Execve.Caller} {file : Execve.Inode}
    (runs : Runs current inode caller file)
    (unprivileged : current.euid ≠ 0) :
    caller.mayExec file = true ↔
      Grants inode.mode (.of current.euid current.egid inode) 1#32 := by
  rw [grants_exec_iff]
  unfold Execve.Caller.mayExec Class.of
  dsimp only
  rw [runs.euid, runs.egid, runs.mode, runs.uid, runs.gid,
    decide_eq_false unprivileged, Bool.and_false, Bool.or_false,
    decide_eq_true_iff]
  split
  · rfl
  · split <;> rfl

/-! ## Where they agree -/

/-- `sys_access`, `permission` and `do_execve` give one answer to one question. -/
structure Agree
    (current : Process)
    (inode : Inode)
    (mask : BitVec 32) : Prop where
  permission :
    sysAccess current (some inode) mask = 0 ↔
      permission current.toTask inode mask = true
  execve :
    mask = 1#32 →
      ∀ caller file, Runs current inode caller file →
        (sysAccess current (some inode) mask = 0 ↔ caller.mayExec file = true)

/--
Questions that do not show which bits `sys_access` looks at: they ask for nothing
but read, write and execute, by the owner, by one of the others, or of a file whose
owner and group are granted it alike.  Any other bit is never granted by
`permission`, while `sys_access` leaves it out of the question.
-/
def Plain
    (current : Process)
    (inode : Inode)
    (mask : BitVec 32) : Prop :=
  if mask &&& 7#32 = mask then
    current.euid = inode.uid ∨ current.egid ≠ inode.gid ∨
      (Grants inode.mode .owner mask ↔ Grants inode.mode .group mask)
  else
    ¬Grants inode.mode (.accessed current.euid current.egid inode)
      (mask &&& 7#32)

/-- The two classes that are looked at are one, or it does not matter. -/
theorem grants_alike_iff :
    (Grants inode.mode (.accessed current.euid current.egid inode) mask ↔
        Grants inode.mode (.of current.euid current.egid inode) mask) ↔
      (current.euid = inode.uid ∨ current.egid ≠ inode.gid ∨
        (Grants inode.mode .owner mask ↔ Grants inode.mode .group mask)) := by
  unfold Class.accessed Class.of
  by_cases owner : current.euid = inode.uid
  · simp [owner]
  · by_cases group : current.egid = inode.gid
    · simp [owner, group]
    · simp [owner, group]

/--
For a task whose real and effective ids are the same and give no privilege, the
three checks agree on a file with links exactly where the question is plain.
-/
theorem agree_iff_plain
    (sameUser : current.uid = current.euid)
    (sameGroup : current.gid = current.egid)
    (unprivileged : current.euid ≠ 0)
    (linked : inode.nlinks ≠ 0) :
    Agree current inode mask ↔ Plain current inode mask := by
  have access :
      sysAccess current (some inode) mask = 0 ↔
        Grants inode.mode (.accessed current.euid current.egid inode)
          (mask &&& 7#32) := by
    rw [sysAccess_iff (sameUser ▸ unprivileged), sameUser, sameGroup]
  have checked :
      permission current.toTask inode mask = true ↔
        Grants inode.mode (.of current.euid current.egid inode) mask :=
    permission_iff linked unprivileged
  have first :
      (sysAccess current (some inode) mask = 0 ↔
          permission current.toTask inode mask = true) ↔
        Plain current inode mask := by
    rw [access, checked]
    unfold Plain
    split
    · rename_i known
      rw [known]
      exact grants_alike_iff
    · rename_i unknown
      -- `permission` never grants such a question.
      have never :
          ¬Grants inode.mode (.of current.euid current.egid inode) mask :=
        fun granted => unknown granted.masked
      simp [never]
  constructor
  · intro agree
    exact first.mp agree.permission
  · intro plain
    have agree := first.mpr plain
    refine ⟨agree, ?_⟩
    rintro rfl caller file runs
    rw [agree, checked, mayExec_iff runs unprivileged]

/-- A user of group 2. -/
def member : Process where
  uid := 5
  euid := 5
  gid := 2
  egid := 2
  umask := 0o22#32
  leader := false
  tty := -1
  closeOnExec := 0#32
  filp _ := none

/-- A file of user 1 that its group may only read. -/
def readable : Inode where
  mode := 0o100640#16
  uid := 1
  gid := 2
  nlinks := 1
  dev := 0x301
  zone0 := 0
  pipe := false
  size := 0
  byte _ := 0#8

theorem agree_iff_plain_read :
    Agree member readable 4#32 ↔ Plain member readable 4#32 :=
  agree_iff_plain rfl rfl (by decide) (by decide)

/-- `sys_access` says that a member of the group may write the file. -/
theorem not_always_agree :
    ¬∀ (current : Process) (inode : Inode) (mask : BitVec 32),
      current.uid = current.euid → current.gid = current.egid →
      current.euid ≠ 0 → inode.nlinks ≠ 0 →
        Agree current inode mask := by
  intro always
  have agree :=
    (always member readable 2#32 rfl rfl (by decide) (by decide)).permission
  revert agree
  decide

end Access

end HitOs
