import HitOs.Machine
import HitOs.Truncation

namespace HitOs

/-!
# Owners of zones over whole runs

Calls that give zones to files and take them back, one after the other.
`sys_mkdir` calls `new_block` for the first zone of a directory, and `free_block`
on this zone when the new name does not fit; it leaves the zone in the inode.
-/

namespace Zones

open Routine

/-- Calls on the zones of files. -/
inductive Action where
  | createBlock (inode block : Nat)
  | truncate (inode : Nat)
  | newBlock (inode : Nat)
  | freeBlock (inode : Nat)

/-- Whether a call is the bare `free_block` of `sys_mkdir`. -/
def Action.Bare : Action → Prop
  | .freeBlock _ => True
  | _ => False

theorem not_bare_truncate
    (inode : Nat) :
    ¬ (Action.truncate inode).Bare :=
  id

/-- The call of `new_block` in `sys_mkdir`. -/
def newDirectoryBlock (sb : SuperBlock) (inode : Nat) : Routine Fs Unit := do
  let zone ← newBlock sb
  update (Fs.setZone inode 0 zone)

/-- The call of `free_block` in `sys_mkdir`. -/
def freeDirectoryBlock (sb : SuperBlock) (inode : Nat) : Routine Fs Unit := do
  let fs ← read
  freeBlock sb ((fs.inode inode).zone 0)

/-- No buffer of a zone is in use between calls. -/
def Fs.Idle (sb : SuperBlock) (fs : Fs) : Prop :=
  ∀ zone, sb.IsZone zone → fs.count zone = 0

/-- The calls on a consistent file system. -/
def zoneMachine (sb : SuperBlock) : Machine Fs Action where
  initial fs :=
    Consistent sb fs ∧ fs.Idle sb
  enabled action fs :=
    match action with
    | .createBlock inode block => fs.IsFile inode ∧ block < 7 + 512 + 512 * 512
    | .truncate inode => fs.IsFile inode
    | .newBlock inode => fs.IsFile inode ∧ fs.zoneAt inode [0] = 0
    | .freeBlock inode => fs.IsFile inode ∧ fs.zoneAt inode [0] ≠ 0
  perform action :=
    match action with
    | .createBlock inode block => do
        let _ ← createBlock sb inode block
    | .truncate inode => Zones.truncate sb inode
    | .newBlock inode => newDirectoryBlock sb inode
    | .freeBlock inode => freeDirectoryBlock sb inode

/-- Zones and slots agree with the bitmap. -/
structure Owned (sb : SuperBlock) (fs : Fs) : Prop where
  inRange :
    ∀ inode path, fs.Slot inode path → fs.zoneAt inode path ≠ 0 →
      sb.IsZone (fs.zoneAt inode path)
  unique :
    ∀ inode path other otherPath,
      fs.Slot inode path → fs.Slot other otherPath →
      fs.zoneAt inode path ≠ 0 →
      fs.zoneAt inode path = fs.zoneAt other otherPath →
        inode = other ∧ path = otherPath
  marked :
    ∀ zone, sb.IsZone zone →
      (fs.Marked sb zone ↔
        ∃ inode path, fs.Slot inode path ∧ fs.zoneAt inode path = zone)

variable {sb : SuperBlock} {fs after start : Fs}
variable {inode : Nat} {action : Action} {actions : List Action}

theorem Consistent.owned_zones
    (consistent : Consistent sb fs) :
    Owned sb fs where
  inRange := consistent.inRange
  unique := consistent.unique
  marked := by
    intro zone isZone
    constructor
    · exact consistent.owned zone isZone
    · rintro ⟨inode, path, slot, rfl⟩
      exact consistent.marked inode path slot isZone.ne_zero

/-- The first zone of a new directory. -/
theorem satisfies_newDirectoryBlock
    (consistent : Consistent sb fs)
    (empty : fs.zoneAt inode [0] = 0) :
    (newDirectoryBlock sb inode).Satisfies fs
      (fun _ after =>
        (after = fs ∧ fs.Full sb) ∨
        ∃ zone, sb.IsZone zone ∧ ¬ fs.Marked sb zone ∧
          after = fs.fill sb inode [0] zone)
      (fun _ => False) := by
  refine (satisfies_newBlock consistent).andThen ?_
  rintro zone after (⟨rfl, rfl, full⟩ | ⟨isZone, free, rfl⟩)
  · have unchanged : after.setZone inode 0 0 = after :=
      setZone_eq_self empty
    rw [satisfies_update, unchanged]
    exact Or.inl ⟨rfl, full⟩
  · rw [satisfies_update]
    exact Or.inr ⟨zone, isZone, free, rfl⟩

/-- What a call other than the bare `free_block` preserves. -/
theorem satisfies_perform
    (consistent : Consistent sb fs)
    (idle : fs.Idle sb)
    (enabled : (zoneMachine sb).enabled action fs)
    (notBare : ¬ action.Bare) :
    ((zoneMachine sb).perform action).Satisfies fs
      (fun _ after =>
        (Consistent sb after ∧ after.Idle sb) ∧
          ∀ inode, action = .truncate inode → Truncated sb fs inode after)
      (fun _ => False) := by
  cases action with
  | createBlock inode block =>
    refine (satisfies_bmapOrCreate consistent enabled.1
      enabled.2).andThen ?_
    intro _ after mapped
    rw [satisfies_pure]
    refine ⟨⟨mapped.consistent, ?_⟩, fun _ wrong => by cases wrong⟩
    unfold Fs.Idle
    rw [mapped.extension.count]
    exact idle
  | truncate inode =>
    refine (satisfies_truncate consistent enabled idle).mono ?_
      (fun _ => id)
    intro _ after truncated
    refine ⟨⟨truncated.consistent consistent enabled idle, ?_⟩, ?_⟩
    · unfold Fs.Idle
      rw [truncated.count]
      exact idle
    · intro other same
      cases same
      exact truncated
  | newBlock inode =>
    obtain ⟨file, empty⟩ := enabled
    have slot : fs.Slot inode [0] :=
      ⟨file, show 0 < 9 by decide⟩
    refine (satisfies_newDirectoryBlock consistent empty).mono ?_
      (fun _ => id)
    rintro _ after (⟨rfl, _⟩ | ⟨zone, isZone, free, rfl⟩)
    · exact ⟨⟨consistent, idle⟩, fun _ wrong => by cases wrong⟩
    · exact ⟨⟨consistent.fill slot trivial empty isZone free, idle⟩,
        fun _ wrong => by cases wrong⟩
  | freeBlock inode =>
    exact absurd trivial notBare

/-- The bare `free_block` returns, and the bitmap is wrong then. -/
theorem satisfies_freeDirectoryBlock
    (consistent : Consistent sb fs)
    (idle : fs.Idle sb)
    (file : fs.IsFile inode)
    (present : fs.zoneAt inode [0] ≠ 0) :
    (freeDirectoryBlock sb inode).Satisfies fs
      (fun _ after =>
        after = fs.setBit (sb.bit (fs.zoneAt inode [0])) false)
      (fun _ => False) := by
  have slot : fs.Slot inode [0] :=
    ⟨file, show 0 < 9 by decide⟩
  have isZone := consistent.inRange inode [0] slot present
  have marked : fs.zmap (sb.bit (fs.zoneAt inode [0])) = true :=
    consistent.marked inode [0] slot present
  have inside :
      ¬ (fs.zoneAt inode [0] < sb.firstDataZone ∨
        sb.nzones ≤ fs.zoneAt inode [0]) := by
    have range := isZone
    unfold SuperBlock.IsZone at range
    omega
  unfold freeDirectoryBlock
  rw [satisfies_bind, satisfies_read]
  change Satisfies (freeBlock sb (fs.zoneAt inode [0])) fs _ _
  unfold freeBlock
  rw [if_neg inside, satisfies_bind, satisfies_read, idle _ isZone,
    if_neg (not_not.mpr rfl), if_pos marked, satisfies_update]

theorem not_owned_of_bare
    (consistent : Consistent sb fs)
    (file : fs.IsFile inode)
    (present : fs.zoneAt inode [0] ≠ 0) :
    ¬ Owned sb (fs.setBit (sb.bit (fs.zoneAt inode [0])) false) := by
  intro owned
  have slot : fs.Slot inode [0] :=
    ⟨file, show 0 < 9 by decide⟩
  have isZone := consistent.inRange inode [0] slot present
  have marked := (owned.marked _ isZone).mpr ⟨inode, [0], slot, rfl⟩
  simp [Fs.Marked, Fs.setBit] at marked

/-! ## Runs -/

/-- A run of calls. -/
def ZoneRun
    (sb : SuperBlock)
    (actions : List Action)
    (fs after : Fs) : Prop :=
  Traces (fun action before next => (zoneMachine sb).Step before action next)
    actions fs after

/-- What a step other than the bare `free_block` leaves. -/
theorem step_keeps
    (consistent : Consistent sb fs)
    (idle : fs.Idle sb)
    (notBare : ¬ action.Bare)
    (stepped : (zoneMachine sb).Step fs action after) :
    (Consistent sb after ∧ after.Idle sb) ∧
      ∀ inode, action = .truncate inode → Truncated sb fs inode after := by
  cases stepped with
  | returned enabled outcome =>
    exact (satisfies_perform consistent idle enabled notBare).of_ret
      outcome
  | abandoned enabled outcome =>
    exact ((satisfies_perform consistent idle enabled
      notBare).of_abandon outcome).elim

theorem step_bare
    (consistent : Consistent sb fs)
    (idle : fs.Idle sb)
    (stepped : (zoneMachine sb).Step fs (.freeBlock inode) after) :
    ¬ Owned sb after := by
  cases stepped with
  | returned enabled outcome =>
    have freed :=
      (satisfies_freeDirectoryBlock consistent idle enabled.1
        enabled.2).of_ret outcome
    rw [freed]
    exact not_owned_of_bare consistent enabled.1 enabled.2
  | abandoned enabled outcome =>
    exact ((satisfies_freeDirectoryBlock consistent idle enabled.1
      enabled.2).of_abandon outcome).elim

theorem run_keeps
    (run : ZoneRun sb actions start fs)
    (starts : Consistent sb start ∧ start.Idle sb)
    (noneBare : ∀ action ∈ actions, ¬ action.Bare) :
    Consistent sb fs ∧ fs.Idle sb := by
  induction run with
  | done state =>
    exact starts
  | next stepped _ inductionHypothesis =>
    rename_i label labels _ _ _ _
    refine inductionHypothesis
      (step_keeps starts.1 starts.2
        (noneBare label List.mem_cons_self) stepped).1 ?_
    exact fun action member =>
      noneBare action (List.mem_cons_of_mem label member)

/-- In every state of the run, zones and slots agree with the bitmap. -/
def OwnedAlong
    (sb : SuperBlock)
    (actions : List Action)
    (start fs : Fs) : Prop :=
  ∀ earlier later middle,
    actions = earlier ++ later →
    ZoneRun sb earlier start middle → ZoneRun sb later middle fs → Owned sb middle

theorem ownedAlong_of_noneBare
    (starts : Consistent sb start ∧ start.Idle sb)
    (noneBare : ∀ action ∈ actions, ¬ action.Bare) :
    OwnedAlong sb actions start fs := by
  rintro earlier later middle rfl before _
  exact (run_keeps before starts fun action member =>
    noneBare action (List.mem_append_left later member)).1.owned_zones

theorem noneBare_of_ownedAlong
    (run : ZoneRun sb actions start fs)
    (starts : Consistent sb start ∧ start.Idle sb)
    (along : OwnedAlong sb actions start fs) :
    ∀ action ∈ actions, ¬ action.Bare := by
  induction run with
  | done state =>
    exact fun _ member => nomatch member
  | next stepped rest inductionHypothesis =>
    rename_i label labels first middle last
    have owned : Owned sb middle :=
      along [label] labels middle rfl (.next stepped (.done middle)) rest
    have notBare : ¬ label.Bare := by
      intro bare
      cases label with
      | freeBlock inode =>
        exact step_bare starts.1 starts.2 stepped owned
      | createBlock _ _ =>
        exact bare
      | truncate _ =>
        exact bare
      | newBlock _ =>
        exact bare
    intro action member
    rcases List.mem_cons.mp member with rfl | inRest
    · exact notBare
    · refine inductionHypothesis
        (step_keeps starts.1 starts.2 notBare stepped).1 ?_ action inRest
      intro earlier later between split before afterwards
      exact along (label :: earlier) later between
        (by rw [split, List.cons_append]) (.next stepped before)
        afterwards

/--
Zones and slots agree with the bitmap all along a run exactly when no call is the
bare `free_block` of `sys_mkdir`.  Without one, every `truncate` of the run frees
what its file reached, and no further call panics.
-/
theorem ownedAlong_iff
    (starts : (zoneMachine sb).initial start)
    (run : ZoneRun sb actions start fs) :
    (OwnedAlong sb actions start fs ↔ ∀ action ∈ actions, ¬ action.Bare) ∧
    ((∀ action ∈ actions, ¬ action.Bare) →
      (∀ inode after path,
        (zoneMachine sb).Step fs (.truncate inode) after →
        IsPath path →
          after.zoneAt inode path = 0 ∧
          (fs.zoneAt inode path ≠ 0 → ¬ after.Marked sb (fs.zoneAt inode path))) ∧
      ∀ action message,
        (zoneMachine sb).enabled action fs → ¬ action.Bare →
          (zoneMachine sb).perform action fs ≠ .panic message) := by
  refine ⟨⟨noneBare_of_ownedAlong run starts, ownedAlong_of_noneBare starts⟩, ?_⟩
  intro noneBare
  obtain ⟨consistent, idle⟩ := run_keeps run starts noneBare
  constructor
  · intro inode after path stepped isPath
    have truncated :=
      (step_keeps consistent idle (not_bare_truncate inode) stepped).2
        inode rfl
    have file : fs.IsFile inode := by
      cases stepped with
      | returned enabled _ =>
        exact enabled
      | abandoned enabled _ =>
        exact enabled
    refine ⟨truncated.emptied isPath, ?_⟩
    intro present marked
    have isZone := consistent.inRange inode path ⟨file, isPath⟩ present
    exact ((truncated.marked consistent file isZone).mp marked).2 path
      isPath rfl
  · intro action message enabled notBare
    exact (satisfies_perform consistent idle enabled notBare).not_panic
      message

/-! ## A directory that does not fit into its parent -/

theorem emptyFs_initial :
    (zoneMachine smallSuper).initial (emptyFs 0o040000) :=
  ⟨emptyFs_consistent, fun _ _ => rfl⟩

theorem emptyFs_isFile : (emptyFs 0o040000).IsFile inode := by
  change (isReg 0o040000 || isDir 0o040000) = true
  decide

/-- A block is written and the file truncated. -/
theorem run_create_truncate
    {block : Nat}
    (starts : (zoneMachine sb).initial fs)
    (file : fs.IsFile inode)
    (inside : block < 7 + 512 + 512 * 512) :
    ∃ after,
      ZoneRun sb [.createBlock inode block, .truncate inode] fs after := by
  have creates :
      (createBlock sb inode block).Satisfies fs
        (Mapped sb fs inode (pathOf block) true) (fun _ => False) :=
    satisfies_bmapOrCreate starts.1 file inside
  obtain ⟨zone, middle, outcome, mapped⟩ := creates.returns
  have file' : middle.IsFile inode :=
    mapped.extension.isFile.mpr file
  have idle' : middle.Idle sb := by
    unfold Fs.Idle
    rw [mapped.extension.count]
    exact starts.2
  obtain ⟨_, after, truncated, _⟩ :=
    (satisfies_truncate mapped.consistent file' idle').returns
  have first :
      (zoneMachine sb).Step fs (.createBlock inode block) middle :=
    .returned ⟨file, inside⟩ (bind_of_ret outcome)
  have second : (zoneMachine sb).Step middle (.truncate inode) after :=
    .returned file' truncated
  exact ⟨after, .next first (.next second (.done after))⟩

theorem ownedAlong_iff_create :
    ∃ fs, ZoneRun smallSuper [.createBlock 0 7, .truncate 0]
        (emptyFs 0o040000) fs ∧
      OwnedAlong smallSuper [.createBlock 0 7, .truncate 0]
        (emptyFs 0o040000) fs := by
  obtain ⟨fs, run⟩ :=
    run_create_truncate emptyFs_initial emptyFs_isFile
      (show 7 < 7 + 512 + 512 * 512 by decide)
  refine ⟨fs, run, (ownedAlong_iff emptyFs_initial run).1.mpr ?_⟩
  intro action member
  simp only [List.mem_cons, List.not_mem_nil, or_false] at member
  rcases member with rfl | rfl
  · exact id
  · exact id

/-- After the bare `free_block`, `truncate` finds the bit cleared. -/
theorem truncate_panics
    (consistent : Consistent sb fs)
    (idle : fs.Idle sb)
    (file : fs.IsFile inode)
    (present : fs.zoneAt inode [0] ≠ 0) :
    truncate sb inode
        (fs.setBit (sb.bit (fs.zoneAt inode [0])) false) =
      .panic "free_block: bit already cleared" := by
  have slot : fs.Slot inode [0] :=
    ⟨file, show 0 < 9 by decide⟩
  have isZone := consistent.inRange inode [0] slot present
  have inside :
      ¬ (fs.zoneAt inode [0] < sb.firstDataZone ∨
        sb.nzones ≤ fs.zoneAt inode [0]) := by
    have range := isZone
    unfold SuperBlock.IsZone at range
    omega
  generalize cleared :
    fs.setBit (sb.bit (fs.zoneAt inode [0])) false = state
  have zone : (state.inode inode).zone 0 = fs.zoneAt inode [0] := by
    rw [← cleared]
    rfl
  have unused : state.count (fs.zoneAt inode [0]) = 0 := by
    rw [← cleared]
    exact idle _ isZone
  have gone : state.zmap (sb.bit (fs.zoneAt inode [0])) = false := by
    rw [← cleared]
    exact Function.update_self _ _ _
  have isFile :
      ¬ (!(isReg (state.inode inode).mode ||
        isDir (state.inode inode).mode)) = true := by
    rw [← cleared]
    unfold Fs.IsFile at file
    change ¬ (!(isReg (fs.inode inode).mode ||
      isDir (fs.inode inode).mode)) = true
    rw [file]
    exact Bool.false_ne_true
  have panics :
      freeBlock sb (fs.zoneAt inode [0]) state =
        .panic "free_block: bit already cleared" := by
    unfold freeBlock
    rw [if_neg inside]
    have reads : read state = .ret state state := rfl
    rw [bind_of_ret reads, if_neg (not_not.mpr unused), gone, if_neg Bool.false_ne_true]
    rfl
  have reads : read state = .ret state state := rfl
  unfold truncate
  rw [bind_of_ret reads, if_neg isFile]
  apply bind_of_panic
  apply bind_of_panic
  beta_reduce
  rw [bind_of_ret reads, zone, if_pos present]
  exact bind_of_panic panics

/-- `sys_mkdir` takes a zone, frees it and frees it again. -/
theorem mkdir_gives_up
    (consistent : Consistent sb fs)
    (idle : fs.Idle sb)
    (file : fs.IsFile inode)
    (empty : fs.zoneAt inode [0] = 0)
    (notFull : ¬ fs.Full sb) :
    ∃ after, ZoneRun sb [.newBlock inode, .freeBlock inode] fs after ∧
      ¬ OwnedAlong sb [.newBlock inode, .freeBlock inode] fs after ∧
      (zoneMachine sb).enabled (.truncate inode) after ∧
      (zoneMachine sb).perform (.truncate inode) after =
        .panic "free_block: bit already cleared" := by
  have slot : fs.Slot inode [0] :=
    ⟨file, show 0 < 9 by decide⟩
  obtain ⟨_, taken, took, found⟩ :=
    (satisfies_newDirectoryBlock consistent empty).returns
  rcases found with ⟨_, full⟩ | ⟨zone, isZone, free, rfl⟩
  · exact absurd full notFull
  · have consistent' := consistent.fill slot trivial empty isZone free
    have slot' : (fs.fill sb inode [0] zone).Slot inode [0] :=
      fill_slot.mpr slot
    have file' := slot'.1
    have present : (fs.fill sb inode [0] zone).zoneAt inode [0] ≠ 0 := by
      have stored :=
        zoneAt_fill consistent slot trivial empty isZone free slot
      rw [if_pos ⟨rfl, rfl⟩] at stored
      rw [stored]
      exact isZone.ne_zero
    have frees :=
      satisfies_freeDirectoryBlock consistent' idle file' present
    obtain ⟨_, after, freed, shape⟩ := frees.returns
    have first : (zoneMachine sb).Step fs (.newBlock inode) _ :=
      .returned ⟨file, empty⟩ took
    have second : (zoneMachine sb).Step _ (.freeBlock inode) after :=
      .returned ⟨file', present⟩ freed
    have run : ZoneRun sb [.newBlock inode, .freeBlock inode] fs after :=
      .next first (.next second (.done after))
    refine ⟨after, run, ?_, shape ▸ file', ?_⟩
    · intro along
      exact step_bare consistent' idle second
        (along [.newBlock inode, .freeBlock inode] [] after rfl run
          (.done after))
    · rw [shape]
      exact truncate_panics consistent' idle file' present

/-- A directory is made on a small file system whose parent has no room. -/
theorem not_ownedAlong_mkdir :
    (zoneMachine smallSuper).initial (emptyFs 0o040000) ∧
    ∃ fs, ZoneRun smallSuper [.newBlock 0, .freeBlock 0]
        (emptyFs 0o040000) fs ∧
      ¬ OwnedAlong smallSuper [.newBlock 0, .freeBlock 0]
        (emptyFs 0o040000) fs ∧
      (zoneMachine smallSuper).enabled (.truncate 0) fs ∧
      (zoneMachine smallSuper).perform (.truncate 0) fs =
        .panic "free_block: bit already cleared" := by
  obtain ⟨consistent, idle⟩ := emptyFs_initial
  refine ⟨emptyFs_initial,
    mkdir_gives_up consistent idle emptyFs_isFile emptyFs_zoneAt ?_⟩
  intro full
  exact absurd (full 2 ⟨Nat.le_refl 2, show 2 < 4 by decide⟩)
    Bool.false_ne_true

end Zones

end HitOs
