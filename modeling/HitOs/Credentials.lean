import HitOs.OpenFiles

namespace HitOs

/-!
# User and group ids

The four calls with which a task changes its ids.  A task whose effective user id
is not 0 only exchanges ids that it already has, and a call that is refused leaves
them as they were: `sys_setreuid` puts the real user id back, and `sys_setregid`
has nothing to put back because it only accepts the real group id that is there.
-/

/-- The ids of a task. -/
structure Credentials where
  uid : BitVec 16
  euid : BitVec 16
  suid : BitVec 16
  gid : BitVec 16
  egid : BitVec 16
  sgid : BitVec 16
deriving DecidableEq

namespace Credentials

open Files (eperm)

def suser (current : Credentials) : Bool :=
  current.euid == 0#16

/-- An id, which is an unsigned short, compared with an int. -/
def Is (id : BitVec 16) (value : Int) : Prop :=
  (id.toNat : Int) = value

instance (id : BitVec 16) (value : Int) : Decidable (Is id value) :=
  inferInstanceAs (Decidable ((id.toNat : Int) = value))

/-! ## The calls -/

/-- The second half of `sys_setregid`. -/
def setEgid (egid : Int) (current : Credentials) : Int × Credentials :=
  if 0 < egid then
    if Is current.gid egid ∨ Is current.egid egid ∨ Is current.sgid egid ∨
        current.suser then
      (0, { current with egid := BitVec.ofInt 16 egid })
    else
      (-eperm, current)
  else
    (0, current)

def sysSetregid (rgid egid : Int) (current : Credentials) : Int × Credentials :=
  if 0 < rgid then
    if Is current.gid rgid ∨ current.suser then
      setEgid egid { current with gid := BitVec.ofInt 16 rgid }
    else
      (-eperm, current)
  else
    setEgid egid current

def sysSetgid (gid : Int) (current : Credentials) : Int × Credentials :=
  sysSetregid gid gid current

/-- The second half of `sys_setreuid`. -/
def setEuid
    (oldRuid : BitVec 16)
    (euid : Int)
    (current : Credentials) : Int × Credentials :=
  if 0 < euid then
    if Is oldRuid euid ∨ Is current.euid euid ∨ current.suser then
      (0, { current with euid := BitVec.ofInt 16 euid })
    else
      (-eperm, { current with uid := oldRuid })
  else
    (0, current)

def sysSetreuid (ruid euid : Int) (current : Credentials) : Int × Credentials :=
  let oldRuid := current.uid
  if 0 < ruid then
    if Is current.euid ruid ∨ Is oldRuid ruid ∨ current.suser then
      setEuid oldRuid euid { current with uid := BitVec.ofInt 16 ruid }
    else
      (-eperm, current)
  else
    setEuid oldRuid euid current

def sysSetuid (uid : Int) (current : Credentials) : Int × Credentials :=
  sysSetreuid uid uid current

/-- A call with its arguments. -/
inductive Call where
  | setreuid (ruid euid : Int)
  | setuid (uid : Int)
  | setregid (rgid egid : Int)
  | setgid (gid : Int)

/-- What a call returns, and the ids after it. -/
def perform (current : Credentials) : Call → Int × Credentials
  | .setreuid ruid euid => sysSetreuid ruid euid current
  | .setuid uid => sysSetuid uid current
  | .setregid rgid egid => sysSetregid rgid egid current
  | .setgid gid => sysSetgid gid current

/-- The ids after some calls. -/
def run (start : Credentials) (calls : List Call) : Credentials :=
  calls.foldl (fun current call => (current.perform call).2) start

/-! ## What a task may become -/

/-- The ids that a task can have which has started with others. -/
structure Within (start current : Credentials) : Prop where
  uid :
    current.uid = start.uid ∨ current.uid = start.euid
  euid :
    current.euid = start.uid ∨ current.euid = start.euid
  gid :
    current.gid = start.gid ∨ current.gid = start.egid ∨ current.gid = start.sgid
  egid :
    current.egid = start.gid ∨ current.egid = start.egid ∨ current.egid = start.sgid
  sgid :
    current.sgid = start.sgid

theorem Within.refl (start : Credentials) : Within start start where
  uid := Or.inl rfl
  euid := Or.inr rfl
  gid := Or.inl rfl
  egid := Or.inr (Or.inl rfl)
  sgid := rfl

theorem Within.trans
    {first second third : Credentials}
    (before : Within first second)
    (after : Within second third) :
    Within first third where
  uid := by
    rcases after.uid with same | same <;> rw [same]
    · exact before.uid
    · exact before.euid
  euid := by
    rcases after.euid with same | same <;> rw [same]
    · exact before.uid
    · exact before.euid
  gid := by
    rcases after.gid with same | same | same <;> rw [same]
    · exact before.gid
    · exact before.egid
    · exact Or.inr (Or.inr before.sgid)
  egid := by
    rcases after.egid with same | same | same <;> rw [same]
    · exact before.gid
    · exact before.egid
    · exact Or.inr (Or.inr before.sgid)
  sgid := after.sgid.trans before.sgid

/-! ## What one call does without privilege -/

/-- An accepted value is stored as the id that it was compared with. -/
theorem Is.stored
    {id : BitVec 16} {value : Int}
    (same : Is id value) :
    BitVec.ofInt 16 value = id := by
  rw [← same, BitVec.ofInt_natCast, BitVec.ofNat_toNat, BitVec.setWidth_eq]

/--
What a call leaves of a task without privilege: ids that the task had, an
effective user id that still gives no privilege, and the same ids as before if the
call is refused.
-/
structure Confines
    (start : Credentials)
    (result : Int × Credentials) : Prop where
  within :
    Within start result.2
  unprivileged :
    result.2.euid ≠ 0#16
  refused :
    result.1 = -eperm → result.2 = start

variable {current : Credentials}

theorem Confines.same
    (unprivileged : current.euid ≠ 0#16)
    (result : Int) :
    Confines current (result, current) where
  within := .refl current
  unprivileged := unprivileged
  refused _ := rfl

theorem suser_eq_false
    (unprivileged : current.euid ≠ 0#16) :
    current.suser = false := by
  simpa [suser] using unprivileged

theorem confines_setEgid
    (unprivileged : current.euid ≠ 0#16)
    (egid : Int) :
    Confines current (setEgid egid current) := by
  unfold setEgid
  split
  · split
    · rename_i accepted
      refine ⟨?_, unprivileged, by simp [eperm]⟩
      refine { Within.refl current with egid := ?_ }
      rw [suser_eq_false unprivileged] at accepted
      rcases accepted with same | same | same | privileged
      · exact Or.inl same.stored
      · exact Or.inr (Or.inl same.stored)
      · exact Or.inr (Or.inr same.stored)
      · cases privileged
    · exact .same unprivileged _
  · exact .same unprivileged _

theorem confines_sysSetregid
    (unprivileged : current.euid ≠ 0#16)
    (rgid egid : Int) :
    Confines current (sysSetregid rgid egid current) := by
  unfold sysSetregid
  split
  · split
    · rename_i accepted
      -- The only real group id that is accepted is the one that is there.
      have same : BitVec.ofInt 16 rgid = current.gid := by
        rw [suser_eq_false unprivileged] at accepted
        rcases accepted with same | privileged
        · exact same.stored
        · cases privileged
      rw [same]
      exact confines_setEgid unprivileged egid
    · exact .same unprivileged _
  · exact confines_setEgid unprivileged egid

/-- The second half of `sys_setreuid`, after a real user id has been accepted. -/
theorem confines_setEuid
    (unprivileged : current.euid ≠ 0#16)
    {ruid : BitVec 16}
    (accepted : ruid = current.uid ∨ ruid = current.euid)
    (euid : Int) :
    Confines current
      (setEuid current.uid euid { current with uid := ruid }) := by
  unfold setEuid
  have noSuser : suser { current with uid := ruid } = false :=
    suser_eq_false unprivileged
  rw [noSuser]
  split
  · rename_i positive
    split
    · rename_i chosen
      have stored :
          BitVec.ofInt 16 euid = current.uid ∨
            BitVec.ofInt 16 euid = current.euid := by
        rcases chosen with same | same | privileged
        · exact Or.inl same.stored
        · exact Or.inr same.stored
        · cases privileged
      have nonzero : BitVec.ofInt 16 euid ≠ 0#16 := by
        rcases chosen with same | same | privileged
        · rw [same.stored]
          intro zero
          unfold Is at same
          rw [zero] at same
          exact absurd same positive.ne
        · rw [same.stored]
          exact unprivileged
        · cases privileged
      exact
        { within :=
            { Within.refl current with uid := accepted, euid := stored }
          unprivileged := nonzero
          refused := by simp [eperm] }
    · exact .same unprivileged _
  · exact
      { within := { Within.refl current with uid := accepted }
        unprivileged := unprivileged
        refused := by simp [eperm] }

theorem confines_sysSetreuid
    (unprivileged : current.euid ≠ 0#16)
    (ruid euid : Int) :
    Confines current (sysSetreuid ruid euid current) := by
  unfold sysSetreuid
  dsimp only
  split
  · split
    · rename_i accepted
      rw [suser_eq_false unprivileged] at accepted
      refine confines_setEuid unprivileged ?_ euid
      rcases accepted with same | same | privileged
      · exact Or.inr same.stored
      · exact Or.inl same.stored
      · cases privileged
    · exact .same unprivileged _
  · exact confines_setEuid unprivileged (Or.inl rfl) euid

theorem confines_perform
    (unprivileged : current.euid ≠ 0#16)
    (call : Call) :
    Confines current (current.perform call) := by
  cases call with
  | setreuid ruid euid =>
    exact confines_sysSetreuid unprivileged ruid euid
  | setuid uid =>
    exact confines_sysSetreuid unprivileged uid uid
  | setregid rgid egid =>
    exact confines_sysSetregid unprivileged rgid egid
  | setgid gid =>
    exact confines_sysSetregid unprivileged gid gid

/-! ## Any number of calls -/

theorem within_run
    (unprivileged : current.euid ≠ 0#16)
    (calls : List Call) :
    Within current (current.run calls) ∧
      (current.run calls).euid ≠ 0#16 := by
  induction calls generalizing current with
  | nil =>
    exact ⟨.refl current, unprivileged⟩
  | cons call calls inductionHypothesis =>
    have first := confines_perform unprivileged call
    obtain ⟨within, still⟩ := inductionHypothesis first.unprivileged
    exact ⟨first.within.trans within, still⟩

/--
Whatever calls a task without privilege makes, its ids are ids that it started
with, and the next call changes none of them if it is refused.
-/
theorem calls_confined
    (start : Credentials)
    (unprivileged : start.euid ≠ 0#16)
    (calls : List Call) :
    Within start (start.run calls) ∧
      ∀ call,
        ((start.run calls).perform call).1 = -eperm →
          ((start.run calls).perform call).2 = start.run calls := by
  obtain ⟨within, still⟩ := within_run unprivileged calls
  exact ⟨within, fun call => (confines_perform still call).refused⟩

/-- A program of user 7 that user 5 has started: it exchanges its user ids. -/
theorem calls_confined_exchange :
    Within ⟨5, 7, 7, 2, 2, 2⟩
        (run ⟨5, 7, 7, 2, 2, 2⟩ [.setreuid 7 5, .setregid 0 3]) ∧
      ∀ call,
        ((run ⟨5, 7, 7, 2, 2, 2⟩ [.setreuid 7 5, .setregid 0 3]).perform
            call).1 = -eperm →
          ((run ⟨5, 7, 7, 2, 2, 2⟩ [.setreuid 7 5, .setregid 0 3]).perform
              call).2 =
            run ⟨5, 7, 7, 2, 2, 2⟩ [.setreuid 7 5, .setregid 0 3] :=
  calls_confined ⟨5, 7, 7, 2, 2, 2⟩ (by decide) _

end Credentials

end HitOs
