import HitOs.TaskTable

namespace HitOs

/-!
# Sending signals with `kill`

`send_sig` and the four loops of `sys_kill`.  Two of them do not do what the rest of
the kernel means: the one for the caller's process group compares with the caller's
process number, and the one for every task counts the empty slots of the table as
tasks that refuse the signal.
-/

namespace Tasks

open WaitQueue (TaskState)

namespace Kill

/-- A task with its effective user id. -/
structure Owned extends Task where
  euid : BitVec 16

/-- The array `task`. -/
abbrev Table :=
  Slot → Option Owned

/-- `p->signal |= 1<<(sig-1)` -/
def Owned.post (sig : Int) (task : Owned) : Owned :=
  { task with signal := task.signal ||| 1#32 <<< (sig - 1).toNat }

def eperm : Int := 1
def einval : Int := 22

/-- What `send_sig` returns, and the task after it. -/
def sendSig
    (current : Owned)
    (sig : Int)
    (p : Option Owned)
    (priv : Bool) : Int × Option Owned :=
  match p with
  | none => (-einval, none)
  | some task =>
    if sig < 1 ∨ 32 < sig then
      (-einval, some task)
    else if priv || current.euid == task.euid || current.euid == 0#16 then
      (0, some (task.post sig))
    else
      (-eperm, some task)

/-- What a loop does with a slot: `send_sig` to what it selects. -/
def attempt
    (selects : Option Owned → Bool)
    (send : Option Owned → Int × Option Owned)
    (p : Option Owned) : Int × Option Owned :=
  if selects p then send p else (0, p)

/-- A loop over some slots: `retval` and the table. -/
def sweep
    (each : Option Owned → Int × Option Owned) :
    List Slot → Int × Table → Int × Table
  | [], state => state
  | slot :: rest, (retval, table) =>
    let (err, after) := each (table slot)
    sweep each rest
      (if err ≠ 0 then err else retval, Function.update table slot after)

/-- `while (--p > &FIRST_TASK)` -/
def slots : List Slot :=
  ((List.finRange nrTasks).filter (· ≠ 0)).reverse

/-- `sys_kill`, where `current` is the task that calls it. -/
def sysKill
    (current : Owned)
    (pid sig : Int)
    (table : Table) : Int × Table :=
  let send := fun priv p => sendSig current sig p priv
  let each :=
    if pid = 0 then
      attempt (fun p => p.any fun task => task.pgrp == current.pid) (send true)
    else if 0 < pid then
      attempt (fun p => p.any fun task => task.pid == pid) (send false)
    else if pid = -1 then
      send false
    else
      attempt (fun p => p.any fun task => task.pgrp == long (-pid)) (send false)
  sweep each slots (0, table)

/-! ## What it is for -/

/-- The tasks that a process number stands for, as in `sys_waitpid`. -/
def Selected
    (current : Owned)
    (pid : Int)
    (slot : Slot)
    (task : Owned) : Prop :=
  slot ≠ 0 ∧
    if pid = 0 then task.pgrp = current.pgrp
    else if 0 < pid then task.pid = pid
    else if pid = -1 then True
    else task.pgrp = long (-pid)

instance (current : Owned) (pid : Int) (slot : Slot) (task : Owned) :
    Decidable (Selected current pid slot task) := by
  unfold Selected
  infer_instance

/-- Whether the caller may signal a task that it has selected. -/
def MaySignal (current : Owned) (pid : Int) (task : Owned) : Prop :=
  current.euid = task.euid ∨ current.euid = 0#16 ∨ pid = 0

instance (current : Owned) (pid : Int) (task : Owned) :
    Decidable (MaySignal current pid task) := by
  unfold MaySignal
  infer_instance

/-- Some selected task may not be signalled. -/
def Refused (current : Owned) (pid : Int) (table : Table) : Prop :=
  ∃ slot task,
    table slot = some task ∧ Selected current pid slot task ∧
      ¬MaySignal current pid task

/--
The signal is set in the selected tasks that the caller may signal, no other task
changes, and the result tells whether one was refused.
-/
structure Targets
    (current : Owned)
    (pid sig : Int)
    (table : Table)
    (result : Int × Table) : Prop where
  tasks :
    ∀ slot,
      result.2 slot =
        (table slot).map fun task =>
          if Selected current pid slot task ∧ MaySignal current pid task then
            task.post sig
          else
            task
  refusal :
    result.1 ≠ 0 ↔ Refused current pid table

/-! ## The loops -/

section Sweep

variable {each : Option Owned → Int × Option Owned}

theorem sweep_table
    {visited : List Slot}
    (nodup : visited.Nodup)
    (retval : Int)
    (table : Table)
    (slot : Slot) :
    (sweep each visited (retval, table)).2 slot =
      if slot ∈ visited then (each (table slot)).2 else table slot := by
  induction visited generalizing retval table with
  | nil =>
    rfl
  | cons head rest inductionHypothesis =>
    obtain ⟨fresh, nodup⟩ := List.nodup_cons.mp nodup
    unfold sweep
    rw [inductionHypothesis nodup]
    by_cases here : slot = head
    · subst here
      simp [fresh]
    · simp [here]

theorem sweep_retval
    {visited : List Slot}
    (nodup : visited.Nodup)
    (retval : Int)
    (table : Table) :
    (sweep each visited (retval, table)).1 ≠ 0 ↔
      retval ≠ 0 ∨ ∃ slot ∈ visited, (each (table slot)).1 ≠ 0 := by
  induction visited generalizing retval table with
  | nil =>
    simp [sweep]
  | cons head rest inductionHypothesis =>
    obtain ⟨fresh, nodup⟩ := List.nodup_cons.mp nodup
    have later :
        (∃ slot ∈ rest,
            (each (Function.update table head (each (table head)).2 slot)).1 ≠ 0) ↔
          ∃ slot ∈ rest, (each (table slot)).1 ≠ 0 := by
      refine exists_congr fun slot => and_congr_right fun member => ?_
      have other : slot ≠ head := fun same => fresh (same ▸ member)
      rw [Function.update_of_ne other]
    unfold sweep
    rw [inductionHypothesis nodup, later]
    simp only [List.mem_cons, exists_eq_or_imp, ← or_assoc]
    refine or_congr_left ?_
    by_cases failed : (each (table head)).1 = 0
    · simp [failed]
    · simp [failed]

end Sweep

theorem mem_slots
    {slot : Slot} :
    slot ∈ slots ↔ slot ≠ 0 := by
  simp [slots]

theorem nodup_slots : slots.Nodup :=
  List.nodup_reverse.mpr ((List.nodup_finRange nrTasks).filter _)

/-! ## When `sys_kill` does it -/

variable {current : Owned} {pid sig : Int} {table : Table}

/-- The signal is set in a task. -/
def Pending (sig : Int) (task : Owned) : Prop :=
  task.signal.getLsbD (sig - 1).toNat = true

theorem or_bit_getLsbD
    {number : Nat}
    (word : BitVec 32)
    (inside : number < 32) :
    (word ||| 1#32 <<< number).getLsbD number = true := by
  simp [inside]

theorem or_bit_of_getLsbD
    {word : BitVec 32} {number : Nat}
    (bit : word.getLsbD number = true) :
    word ||| 1#32 <<< number = word := by
  apply BitVec.eq_of_getLsbD_eq
  intro index inside
  rw [BitVec.getLsbD_or]
  by_cases here : index = number
  · rw [here, bit, Bool.true_or]
  · have clear : (1#32 <<< number).getLsbD index = false := by
      rw [BitVec.getLsbD_shiftLeft, BitVec.getLsbD_one]
      by_cases below : index < number
      · simp [below]
      · have apart : index - number ≠ 0 := by
          omega
        simp [apart]
    rw [clear, Bool.or_false]

theorem pending_of_post
    {task : Owned}
    (low : 1 ≤ sig)
    (high : sig ≤ 32)
    (same : task.post sig = task) :
    Pending sig task := by
  have bit : (task.post sig).signal.getLsbD (sig - 1).toNat = true :=
    or_bit_getLsbD task.signal (by omega)
  rw [same] at bit
  exact bit

theorem post_of_pending
    {task : Owned}
    (pending : Pending sig task) :
    task.post sig = task := by
  unfold Owned.post
  rw [or_bit_of_getLsbD pending]

theorem sendSig_some
    (low : 1 ≤ sig)
    (high : sig ≤ 32)
    (task : Owned)
    (priv : Bool) :
    sendSig current sig (some task) priv =
      if priv = true ∨ current.euid = task.euid ∨ current.euid = 0#16 then
        (0, some (task.post sig))
      else
        (-eperm, some task) := by
  unfold sendSig
  dsimp only
  rw [if_neg (by omega)]
  simp only [Bool.or_eq_true, beq_iff_eq, or_assoc]

/-- What is to be shown of the loop: each slot but the first one, and the errors. -/
theorem targets_iff_each
    (each : Option Owned → Int × Option Owned) :
    Targets current pid sig table (sweep each slots (0, table)) ↔
      (∀ slot, slot ≠ 0 →
        (each (table slot)).2 =
          (table slot).map fun task =>
            if Selected current pid slot task ∧ MaySignal current pid task then
              task.post sig
            else
              task) ∧
      ((∃ slot, slot ≠ 0 ∧ (each (table slot)).1 ≠ 0) ↔
        Refused current pid table) := by
  have errors :
      (sweep each slots (0, table)).1 ≠ 0 ↔
        ∃ slot, slot ≠ 0 ∧ (each (table slot)).1 ≠ 0 := by
    simp only [sweep_retval nodup_slots, mem_slots, ne_eq, not_true_eq_false, false_or]
  constructor
  · intro targets
    refine ⟨?_, ?_⟩
    · intro slot present
      have after := targets.tasks slot
      rwa [sweep_table nodup_slots, if_pos (mem_slots.mpr present)] at after
    · rw [← errors]
      exact targets.refusal
  · rintro ⟨tasks, refusal⟩
    refine ⟨?_, errors.trans refusal⟩
    intro slot
    rw [sweep_table nodup_slots]
    by_cases first : slot = 0
    · rw [if_neg fun member => mem_slots.mp member first]
      subst first
      simp [Selected]
    · rw [if_pos (mem_slots.mpr first)]
      exact tasks slot first

/-- A loop without priority does what it should to a task that it looks at. -/
theorem sendSig_unprivileged
    (nonzero : pid ≠ 0)
    (low : 1 ≤ sig)
    (high : sig ≤ 32)
    {slot : Slot} {task : Owned}
    (selected : Selected current pid slot task) :
    sendSig current sig (some task) false =
      (if MaySignal current pid task then 0 else -eperm,
        some
          (if Selected current pid slot task ∧ MaySignal current pid task then
            task.post sig
          else
            task)) := by
  have may :
      (false = true ∨ current.euid = task.euid ∨ current.euid = 0#16) ↔
        MaySignal current pid task := by
    simp [MaySignal, nonzero]
  rw [sendSig_some low high, if_congr may rfl rfl]
  by_cases allowed : MaySignal current pid task
  · simp [allowed, selected]
  · simp [allowed]

/-- A loop that looks at the selected tasks only. -/
theorem targets_attempt
    (nonzero : pid ≠ 0)
    (low : 1 ≤ sig)
    (high : sig ≤ 32)
    {chosen : Owned → Bool}
    (exactly :
      ∀ slot task, slot ≠ 0 → (chosen task = true ↔ Selected current pid slot task)) :
    Targets current pid sig table
      (sweep
        (attempt (fun p => p.any chosen) fun p => sendSig current sig p false)
        slots (0, table)) := by
  have each :
      ∀ slot task, slot ≠ 0 →
        attempt (fun p => p.any chosen) (fun p => sendSig current sig p false)
            (some task) =
          (if Selected current pid slot task ∧ ¬MaySignal current pid task then
              -eperm
            else
              0,
            some
              (if Selected current pid slot task ∧
                  MaySignal current pid task then
                task.post sig
              else
                task)) := by
    intro slot task present
    unfold attempt
    dsimp only [Option.any_some]
    by_cases selected : Selected current pid slot task
    · rw [if_pos ((exactly slot task present).mpr selected),
        sendSig_unprivileged nonzero low high selected]
      by_cases allowed : MaySignal current pid task
      · simp [selected, allowed]
      · simp [selected, allowed]
    · rw [if_neg fun isChosen =>
        selected ((exactly slot task present).mp isChosen)]
      simp [selected]
  rw [targets_iff_each]
  refine ⟨?_, ?_⟩
  · intro slot present
    cases here : table slot with
    | none =>
      rfl
    | some task =>
      rw [each slot task present, Option.map_some]
  · constructor
    · rintro ⟨slot, present, failed⟩
      cases here : table slot with
      | none =>
        rw [here] at failed
        exact absurd rfl failed
      | some task =>
        rw [here, each slot task present] at failed
        by_cases refused :
            Selected current pid slot task ∧ ¬MaySignal current pid task
        · exact ⟨slot, task, here, refused⟩
        · exact absurd (if_neg refused) failed
    · rintro ⟨slot, task, here, refused⟩
      refine ⟨slot, refused.1.1, ?_⟩
      rw [here, each slot task refused.1.1, if_pos refused]
      exact (by decide : -eperm ≠ 0)

/-- The loop for every task takes an empty slot for one that refuses. -/
theorem targets_all
    (low : 1 ≤ sig)
    (high : sig ≤ 32) :
    Targets current (-1) sig table
        (sweep (fun p => sendSig current sig p false) slots (0, table)) ↔
      (∀ slot, slot ≠ 0 → table slot ≠ none) ∨
        Refused current (-1) table := by
  have selected :
      ∀ (slot : Slot) (task : Owned), slot ≠ 0 → Selected current (-1) slot task :=
    fun slot task present => ⟨present, trivial⟩
  have each :
      ∀ slot task, slot ≠ 0 →
        sendSig current sig (some task) false =
          (if MaySignal current (-1) task then 0 else -eperm,
            some
              (if Selected current (-1) slot task ∧
                  MaySignal current (-1) task then
                task.post sig
              else
                task)) :=
    fun slot task present =>
      sendSig_unprivileged (by decide) low high (selected slot task present)
  have errors :
      (∃ slot, slot ≠ 0 ∧ (sendSig current sig (table slot) false).1 ≠ 0) ↔
        (∃ slot, slot ≠ 0 ∧ table slot = none) ∨
          Refused current (-1) table := by
    constructor
    · rintro ⟨slot, present, failed⟩
      cases here : table slot with
      | none =>
        exact Or.inl ⟨slot, present, here⟩
      | some task =>
        rw [here, each slot task present] at failed
        refine Or.inr ⟨slot, task, here, selected slot task present, ?_⟩
        intro allowed
        exact failed (if_pos allowed)
    · rintro (⟨slot, present, here⟩ | ⟨slot, task, here, chosen, refused⟩)
      · refine ⟨slot, present, ?_⟩
        rw [here]
        exact (by decide : -einval ≠ 0)
      · refine ⟨slot, chosen.1, ?_⟩
        rw [here, each slot task chosen.1, if_neg refused]
        exact (by decide : -eperm ≠ 0)
  rw [targets_iff_each, errors]
  constructor
  · rintro ⟨-, refusal⟩
    by_cases empty : ∃ slot, slot ≠ 0 ∧ table slot = none
    · exact Or.inr (refusal.mp (Or.inl empty))
    · refine Or.inl fun slot present here => empty ⟨slot, present, here⟩
  · intro sound
    refine ⟨?_, ?_⟩
    · intro slot present
      cases here : table slot with
      | none =>
        rfl
      | some task =>
        rw [each slot task present, Option.map_some]
    · constructor
      · rintro (⟨slot, present, here⟩ | refused)
        · exact sound.resolve_left fun full => full slot present here
        · exact refused
      · exact Or.inr

/-- The loop for the caller's group looks for the group with the caller's number. -/
theorem targets_group
    (low : 1 ≤ sig)
    (high : sig ≤ 32) :
    Targets current 0 sig table
        (sweep
          (attempt (fun p => p.any fun task => task.pgrp == current.pid)
            fun p => sendSig current sig p true)
          slots (0, table)) ↔
      ∀ slot task, slot ≠ 0 → table slot = some task →
        (task.pgrp = current.pid ↔ task.pgrp = current.pgrp) ∨
          Pending sig task := by
  have allowed (task : Owned) : MaySignal current 0 task :=
    Or.inr (Or.inr rfl)
  have selected (slot : Slot) (present : slot ≠ 0) (task : Owned) :
      Selected current 0 slot task ↔ task.pgrp = current.pgrp :=
    and_iff_right present
  have each (task : Owned) :
      attempt (fun p => p.any fun task => task.pgrp == current.pid)
          (fun p => sendSig current sig p true) (some task) =
        (0, some (if task.pgrp = current.pid then task.post sig else task)) := by
    unfold attempt
    dsimp only [Option.any_some]
    rw [sendSig_some low high, if_pos (Or.inl rfl)]
    by_cases numbered : task.pgrp = current.pid
    · simp [numbered]
    · simp [numbered]
  have noErrors :
      ¬∃ slot, slot ≠ 0 ∧
        (attempt (fun p => p.any fun task => task.pgrp == current.pid)
          (fun p => sendSig current sig p true) (table slot)).1 ≠ 0 := by
    rintro ⟨slot, present, failed⟩
    cases here : table slot with
    | none =>
      rw [here] at failed
      exact failed rfl
    | some task =>
      rw [here, each] at failed
      exact failed rfl
  have noRefusal : ¬Refused current 0 table :=
    fun ⟨_, task, _, _, refused⟩ => refused (allowed task)
  rw [targets_iff_each, and_iff_left (iff_of_false noErrors noRefusal)]
  refine forall_congr' fun slot => ?_
  constructor
  · intro posted task present here
    have after := posted present
    rw [here, each, Option.map_some, Option.some_inj,
      if_congr ((and_iff_left (allowed task)).trans
        (selected slot present task)) rfl rfl] at after
    by_cases numbered : task.pgrp = current.pid
    · by_cases grouped : task.pgrp = current.pgrp
      · exact Or.inl (iff_of_true numbered grouped)
      · rw [if_pos numbered, if_neg grouped] at after
        exact Or.inr (pending_of_post low high after)
    · by_cases grouped : task.pgrp = current.pgrp
      · rw [if_neg numbered, if_pos grouped] at after
        exact Or.inr (pending_of_post low high after.symm)
      · exact Or.inl (iff_of_false numbered grouped)
  · intro sound present
    cases here : table slot with
    | none =>
      rfl
    | some task =>
      rw [each, Option.map_some, Option.some_inj,
        if_congr ((and_iff_left (allowed task)).trans
          (selected slot present task)) rfl rfl]
      rcases sound task present here with same | pending
      · exact if_congr same rfl rfl
      · rw [post_of_pending pending, ite_self, ite_self]

/--
The calls of `kill` that hit what they should.  For the caller's own group, each task
that is only in that group, or only in the one with the caller's number, has the
signal already; for every task, the table is full or somebody is refused.
-/
structure Sound
    (current : Owned)
    (pid sig : Int)
    (table : Table) : Prop where
  group :
    pid = 0 →
      ∀ slot task, slot ≠ 0 → table slot = some task →
        (task.pgrp = current.pid ↔ task.pgrp = current.pgrp) ∨ Pending sig task
  all :
    pid = -1 → (∀ slot, slot ≠ 0 → table slot ≠ none) ∨ Refused current pid table

/-- A signal goes to the selected tasks exactly where the call is sound. -/
theorem targets_iff_sound
    (current : Owned)
    (pid sig : Int)
    (table : Table)
    (low : 1 ≤ sig)
    (high : sig ≤ 32) :
    Targets current pid sig table (sysKill current pid sig table) ↔
      Sound current pid sig table := by
  unfold sysKill
  dsimp only
  by_cases group : pid = 0
  · subst group
    rw [if_pos rfl, targets_group low high]
    exact ⟨fun sound => ⟨fun _ => sound, fun other => absurd other (by decide)⟩,
      fun sound => sound.group rfl⟩
  · rw [if_neg group]
    by_cases all : pid = -1
    · subst all
      rw [if_neg (by decide), if_pos rfl, targets_all low high]
      exact ⟨fun sound => ⟨fun other => absurd other (by decide), fun _ => sound⟩,
        fun sound => sound.all rfl⟩
    · refine iff_of_true ?_
        ⟨fun other => absurd other group, fun other => absurd other all⟩
      by_cases positive : 0 < pid
      · rw [if_pos positive]
        refine targets_attempt group low high fun slot task present => ?_
        simp [Selected, group, positive, present]
      · rw [if_neg positive, if_neg all]
        refine targets_attempt group low high fun slot task present => ?_
        simp [Selected, group, positive, all, present]

/-- The task `pid` of group `pgrp` and user `euid`. -/
def owned (pid pgrp : Int) (euid : BitVec 16) : Owned :=
  { initTask with pid := pid, pgrp := pgrp, euid := euid }

/-- A leader of a group and one of its members. -/
def pair : Table :=
  fun slot =>
    if slot = 0 then some (owned 0 0 0#16)
    else if slot = 1 then some (owned 5 5 7#16)
    else if slot = 2 then some (owned 6 5 7#16)
    else none

theorem targets_iff_sound_pair :
    Targets (owned 5 5 7#16) 0 15 pair (sysKill (owned 5 5 7#16) 0 15 pair) ↔
      Sound (owned 5 5 7#16) 0 15 pair :=
  targets_iff_sound _ 0 15 pair (by decide) (by decide)

/-- A member that signals its own group reaches nobody. -/
theorem not_always_targets :
    ¬∀ (current : Owned) (pid sig : Int) (table : Table),
      1 ≤ sig → sig ≤ 32 →
        Targets current pid sig table (sysKill current pid sig table) := by
  intro always
  have targets :=
    always (owned 6 5 7#16) 0 15 pair (by decide) (by decide)
  have signal := congrArg (Option.map fun task => task.signal) (targets.tasks 1)
  revert signal
  decide

end Kill

end Tasks

end HitOs
