import HitOs.Disowning

namespace HitOs

/-!
# The steps of processes

Every step of the tasks is a step of their tree or leaves the tree as it is.
-/

namespace Tasks

open WaitQueue (TaskState)
open ProcessTree (Exit Stage Member Tree Event)

section TreeSteps

variable {state after : State} {slot : Slot} {process : Process}

theorem tree_member
    (present : state.process slot = some process) :
    state.tree.member slot = some process.member := by
  simp only [State.tree, present, Option.map_some]

theorem of_tree_member
    {member : Member}
    (present : state.tree.member slot = some member) :
    ∃ process, state.process slot = some process ∧ process.member = member :=
  Option.map_eq_some_iff.mp present

theorem tree_put :
    (state.put slot process).tree = state.tree.put slot process.member := by
  have members :
      (fun other =>
        (Function.update state.process slot (some process) other).map
          Process.member) =
        Function.update state.tree.member slot (some process.member) := by
    funext other
    by_cases same : other = slot
    · subst same
      simp
    · simp [same, State.tree]
  simp only [State.tree, State.put, Tree.put] at members ⊢
  rw [members]

theorem tree_release :
    (state.release slot process).tree =
      state.tree.release slot process.member := by
  have members :
      (fun other =>
        (Function.update state.process slot none other).map
          Process.member) =
        Function.update state.tree.member slot none := by
    funext other
    by_cases same : other = slot
    · subst same
      simp
    · simp [same, State.tree]
  simp only [State.tree, State.release, Tree.release] at members ⊢
  rw [members]
  rfl

/-! ## `fork` -/

theorem hasPid_tree
    {pid : Int} :
    state.tree.HasPid pid ↔ LivePid state.table pid := by
  constructor
  · rintro ⟨slot, member, present, same⟩
    obtain ⟨process, here, rfl⟩ := of_tree_member present
    exact ⟨slot, process.toTask, by simp [State.table, here], same⟩
  · rintro ⟨slot, task, present, same⟩
    obtain ⟨process, here, rfl⟩ := Option.map_eq_some_iff.mp present
    exact ⟨slot, process.member, tree_member here, same⟩

/-- The ways in which a fork ends. -/
theorem sysFork_spec
    {parent : Process} {page : Option Nat} {copied : Bool}
    (lastPid : LastPid state.lastPid)
    (forked : state.sysFork slot parent page copied = some after) :
    ∃ nr pid, findEmptyProcess state.table 65 state.lastPid = some (nr, pid) ∧
      Pid pid ∧ ¬ LivePid state.table pid ∧
      (after = state.forkFails slot parent pid ∨
        ∃ child page, nr = some child ∧ child ≠ 0 ∧
          state.process child = none ∧ state.pages page = false ∧
          after = state.forkMakes slot parent child page pid) := by
  obtain ⟨nr, pid, turns, isPid, fresh, empty, _⟩ :=
    findEmptyProcess_spec state.table lastPid
  have found := turns 65 (Nat.le_refl 65)
  refine ⟨nr, pid, found, isPid, fresh, ?_⟩
  unfold State.sysFork at forked
  simp only [found] at forked
  cases nr with
  | none =>
    cases forked
    exact Or.inl rfl
  | some child =>
    cases page with
    | none =>
      cases forked
      exact Or.inl rfl
    | some page =>
      simp only at forked
      split at forked
      · cases forked
      · rename_i free
        split at forked
        · cases forked
          obtain ⟨later, none⟩ := empty child rfl
          refine Or.inr ⟨child, page, rfl, later, ?_, Bool.eq_false_iff.mpr free, rfl⟩
          exact Option.map_eq_none_iff.mp none
        · cases forked
          exact Or.inl rfl

/-- Task 0 forks before there are others. -/
theorem Consistent.booted
    (consistent : Consistent state)
    (present : state.process slot = some process)
    (later : slot ≠ 0) :
    ∀ first, state.process 0 = some first → first.point ≠ .booting := by
  intro first here booting
  have empty := (consistent.boots here booting).2 slot later
  rw [present] at empty
  cases empty

theorem Consistent.setLastPid
    {pid : Int}
    (consistent : Consistent state)
    (isPid : Pid pid)
    (booted :
      ∀ first, state.process 0 = some first → first.point ≠ .booting) :
    Consistent { state with lastPid := pid } where
  lastPid := isPid.lastPid
  zombies := consistent.zombies
  busy := consistent.busy
  idle := consistent.idle
  boots present booting := absurd booting (booted _ present)

theorem Consistent.put
    (consistent : Consistent state)
    (later : slot ≠ 0)
    (booted :
      ∀ first, state.process 0 = some first → first.point ≠ .booting)
    (zombie : process.state = .zombie ↔ process.point = .dead)
    (busy : process.point.ofIdle = false) :
    Consistent (state.put slot process) where
  lastPid := consistent.lastPid
  zombies := by
    intro other found here
    by_cases same : other = slot
    · subst same
      simp only [State.put, Function.update_self] at here
      cases here
      exact zombie
    · simp only [State.put, Function.update_of_ne same] at here
      exact consistent.zombies here
  busy := by
    intro other found here
    by_cases same : other = slot
    · subst same
      simp only [State.put, Function.update_self] at here
      cases here
      rw [busy]
      exact iff_of_false Bool.noConfusion later
    · simp only [State.put, Function.update_of_ne same] at here
      exact consistent.busy here
  idle := by
    obtain ⟨first, here, pid⟩ := consistent.idle
    exact ⟨first, (Function.update_of_ne later.symm _ _).trans here, pid⟩
  boots := by
    intro first here booting
    simp only [State.put, Function.update_of_ne later.symm] at here
    exact absurd booting (booted first here)

theorem Consistent.release
    (consistent : Consistent state)
    (later : slot ≠ 0) :
    Consistent (state.release slot process) where
  lastPid := consistent.lastPid
  zombies := by
    intro other found here
    by_cases same : other = slot
    · subst same
      simp [State.release] at here
    · simp only [State.release, Function.update_of_ne same] at here
      exact consistent.zombies here
  busy := by
    intro other found here
    by_cases same : other = slot
    · subst same
      simp [State.release] at here
    · simp only [State.release, Function.update_of_ne same] at here
      exact consistent.busy here
  idle := by
    obtain ⟨first, here, pid⟩ := consistent.idle
    exact ⟨first, (Function.update_of_ne later.symm _ _).trans here, pid⟩
  boots := by
    intro first here booting
    simp only [State.release, Function.update_of_ne later.symm] at here
    obtain ⟨zero, empty⟩ := consistent.boots here booting
    refine ⟨zero, ?_⟩
    intro other notFirst
    by_cases same : other = slot
    · subst same
      simp [State.release]
    · simp only [State.release, Function.update_of_ne same]
      exact empty other notFirst

/-- The parent of a fork; task 0 goes on to wait for something to do. -/
structure Forks (process parent : Process) : Prop where
  running : process.state = .running
  shape :
    (process.point = .booting ∧ parent = { process with point := .idle }) ∨
      (process.point = .user ∧ parent = process)

theorem Forks.quiet
    {parent : Process}
    (forks : Forks process parent)
    (eax : Int) :
    Quiet process { parent with eax := eax } := by
  obtain ⟨running, ⟨booting, rfl⟩ | ⟨user, rfl⟩⟩ := forks
  · refine ⟨?_, Iff.rfl, Or.inr (Or.inl ⟨by rw [booting]; rfl, rfl⟩), ?_,
      fun _ => rfl⟩
    · simp only [Process.member, Process.stage, booting]
    · intro _ _ waits
      cases waits
  · refine Quiet.of_member rfl ?_ ?_ rfl ?_
    · rw [running]
      exact TaskState.noConfusion
    · rw [running]
      exact TaskState.noConfusion
    · intro _ _ _ waits
      cases user.symm.trans waits

/-- After a fork task 0 has booted. -/
theorem Forks.booted
    {parent : Process} {eax : Int}
    (forks : Forks process parent)
    (consistent : Consistent state)
    (present : state.process slot = some process) :
    ∀ first,
      (state.put slot { parent with eax := eax }).process 0 = some first →
        first.point ≠ .booting := by
  intro first here
  by_cases zero : slot = 0
  · subst zero
    simp only [State.put, Function.update_self] at here
    cases here
    obtain ⟨_, ⟨_, rfl⟩ | ⟨user, rfl⟩⟩ := forks
    · exact Point.noConfusion
    · rw [user]
      exact Point.noConfusion
  · simp only [State.put, Function.update_of_ne (Ne.symm zero)] at here
    exact consistent.booted present zero first here

theorem forkFails_spec
    {parent : Process} {pid : Int}
    (consistent : Consistent state)
    (present : state.process slot = some process)
    (forks : Forks process parent)
    (isPid : Pid pid) :
    Consistent (state.forkFails slot parent pid) ∧
      (state.forkFails slot parent pid).tree = state.tree := by
  have quietly := quietly_put present (forks.quiet (-eagain))
  exact ⟨(quietly.consistent consistent).setLastPid isPid
    (forks.booted consistent present), quietly.tree⟩

theorem forkMakes_spec
    {parent : Process} {child : Slot} {page : Nat} {pid : Int}
    (consistent : Consistent state)
    (present : state.process slot = some process)
    (forks : Forks process parent)
    (isPid : Pid pid)
    (later : child ≠ 0) :
    Consistent (state.forkMakes slot parent child page pid) ∧
      (state.forkMakes slot parent child page pid).tree =
        state.tree.bear child pid process.pid page := by
  have quiet := forks.quiet pid
  have quietly := quietly_put present quiet
  have booted :
      ∀ first,
        (state.put slot { parent with eax := pid }).process 0 = some first →
          first.point ≠ .booting :=
    forks.booted consistent present
  have samePid : parent.pid = process.pid :=
    congrArg Member.pid quiet.member
  have born :
      Consistent
        ((state.put slot { parent with eax := pid }).put child
          (parent.child pid page state.forks)) :=
    (quietly.consistent consistent).put later booted
      (iff_of_false TaskState.noConfusion Point.noConfusion) rfl
  constructor
  · refine ⟨isPid.lastPid, born.zombies, born.busy, born.idle, ?_⟩
    intro first here booting
    simp only [State.forkMakes, State.put, Function.update_of_ne later.symm] at here
    exact absurd booting (booted first here)
  · have moved :
        ((state.put slot { parent with eax := pid }).put child
            (parent.child pid page state.forks)).tree =
          (state.put slot { parent with eax := pid }).tree.put child
            (parent.child pid page state.forks).member :=
      tree_put
    rw [quietly.tree] at moved
    calc
      (state.forkMakes slot parent child page pid).tree
      _ = { ((state.put slot { parent with eax := pid }).put child
                (parent.child pid page state.forks)).tree with
            held := Function.update state.pages page true
            born := state.forks + 1 } := rfl
      _ = state.tree.bear child pid parent.pid page := by
          rw [moved]
          rfl
      _ = state.tree.bear child pid process.pid page := by
          rw [samePid]

/-! ## `do_exit` -/

/-- Points, states and numbers decide whether a state is consistent. -/
theorem Consistent.of_each
    (consistent : Consistent state)
    (each :
      ∀ slot,
        Option.Rel
          (fun was now : Process =>
            now.state = was.state ∧ now.point = was.point ∧ now.pid = was.pid)
          (state.process slot) (after.process slot))
    (lastPid : after.lastPid = state.lastPid) :
    Consistent after where
  lastPid := lastPid ▸ consistent.lastPid
  zombies := by
    intro slot now here
    obtain ⟨was, there, state', point, _⟩ := rel_of_some (each slot) here
    rw [state', point]
    exact consistent.zombies there
  busy := by
    intro slot now here
    obtain ⟨was, there, _, point, _⟩ := rel_of_some (each slot) here
    rw [point]
    exact consistent.busy there
  idle := by
    obtain ⟨first, there, pid⟩ := consistent.idle
    obtain ⟨now, here, _, _, pid'⟩ := rel_some (each 0) there
    exact ⟨now, here, pid'.trans pid⟩
  boots := by
    intro now here booting
    obtain ⟨was, there, _, point, _⟩ := rel_of_some (each 0) here
    obtain ⟨zero, empty⟩ := consistent.boots there (point ▸ booting)
    refine ⟨lastPid.trans zero, ?_⟩
    intro slot later
    cases now' : after.process slot with
    | none =>
      rfl
    | some found =>
      obtain ⟨was', there', _⟩ := rel_of_some (each slot) now'
      rw [empty slot later] at there'
      cases there'

/-- A task that is not at a point of task 0 is another one. -/
theorem Consistent.later
    (consistent : Consistent state)
    (present : state.process slot = some process)
    (busy : process.point.ofIdle = false) :
    slot ≠ 0 := by
  intro first
  rw [(consistent.busy present).mpr first] at busy
  cases busy

theorem Consistent.disown
    (consistent : Consistent state)
    (pid : Int) :
    Consistent (state.disown pid) := by
  refine consistent.of_each ?_ rfl
  intro slot
  refine rel_mono ?_ ((disown_spec pid state).each slot)
  intro was now disowned
  rw [disowned.same]
  exact ⟨rfl, rfl, rfl⟩

theorem Disowned.member
    {pid : Int} {was now : Process}
    (disowned : Disowned pid (List.finRange nrTasks) slot was now) :
    now.member = Tree.adopted 1 pid was.member := by
  have father :
      (if slot ∈ List.finRange nrTasks ∧ was.father = pid then 1
        else was.father) =
        if was.father = pid then 1 else was.father := by
    simp
  rw [disowned.same, father]
  rfl

theorem doExit_spec
    {code : Int}
    (consistent : Consistent state)
    (present : state.process slot = some process)
    (running : process.state = .running)
    (mayExit : process.point.mayExit = true) :
    Consistent (state.doExit slot process code) ∧
      (state.doExit slot process code).tree =
        state.tree.leave 1 slot process.member code := by
  have spec := disown_spec process.pid state
  obtain ⟨now, here, disowned⟩ := rel_some (spec.each slot) present
  have left := consistent.disown process.pid
  have point : now.point = process.point := by rw [disowned.same]
  have busy : now.point.ofIdle = false := by
    rw [point]
    cases shape : process.point <;> simp_all [Point.mayExit, Point.ofIdle]
  have later := left.later here busy
  have shape :
      state.doExit slot process code =
        { (state.disown process.pid).put slot
            { now with point := .closing code } with
          exits := process.member.exit code :: state.exits } := by
    rw [State.doExit, change_eq_put here]
    rfl
  constructor
  · have alive : now.state ≠ .zombie := by
      rw [disowned.same]
      simp only [running]
      exact TaskState.noConfusion
    have put :
        Consistent
          ((state.disown process.pid).put slot
            { now with point := .closing code }) :=
      left.put later (left.booted here later)
        (iff_of_false alive Point.noConfusion) rfl
    rw [shape]
    exact ⟨put.lastPid, put.zombies, put.busy, put.idle, put.boots⟩
  · have members :
        ((state.disown process.pid).put slot
            { now with point := .closing code }).tree.member =
          (state.tree.leave 1 slot process.member code).member := by
      funext other
      by_cases same : other = slot
      · subst same
        simp only [State.tree, State.put, Function.update_self, Tree.leave,
          present, Option.map_some, if_pos]
        have member := disowned.member
        simp only [Process.member, Tree.adopted, Member.mk.injEq] at member
        simp only [Process.member, Process.stage, Tree.adopted, member]
        rfl
      · simp only [State.tree, State.put, Function.update_of_ne same,
          Tree.leave, if_neg same]
        cases there : state.process other with
        | none =>
          have gone := spec.each other
          rw [there] at gone
          cases gone' : (state.disown process.pid).process other with
          | none =>
            rfl
          | some found =>
            rw [gone'] at gone
            cases gone
        | some found =>
          obtain ⟨now', here', disowned'⟩ :=
            rel_some (spec.each other) there
          rw [here']
          exact congrArg some disowned'.member
    rw [shape]
    simp only [State.tree] at members ⊢
    simp only [State.put] at members ⊢
    rw [members]
    rfl

theorem quietly_killSession
    (session : Int) :
    Quietly state (state.killSession session) := by
  refine quietly_map ?_
  intro other found _
  split
  · exact Quiet.post sigHup found
  · exact Quiet.refl found

theorem findFather_some
    {pid : Int} {father : Slot}
    (found : state.findFather pid = some father) :
    pid ≠ 0 ∧ ∃ process, state.process father = some process ∧
      process.pid = pid := by
  unfold State.findFather at found
  split at found
  · rename_i child
    have matching := List.find?_some found
    simp only [Option.any_eq_true, beq_iff_eq] at matching
    exact ⟨child, matching⟩
  · cases found

theorem findFather_none
    {pid : Int}
    (found : state.findFather pid = none) :
    pid = 0 ∨ ¬ state.tree.HasPid pid := by
  unfold State.findFather at found
  split at found
  · refine Or.inr ?_
    rintro ⟨slot, member, here, same⟩
    obtain ⟨process, present, rfl⟩ := of_tree_member here
    have same : process.pid = pid := same
    have differs :=
      List.find?_eq_none.mp found slot (List.mem_finRange slot)
    simp [present, same] at differs
  · rename_i child
    exact Or.inl (Classical.not_not.mp child)

/-- The state before `tell_father` is called. -/
def State.dying
    (slot : Slot)
    (process : Process)
    (code : Int)
    (state : State) : State :=
  (if process.leader then state.killSession process.session else state).change
    slot fun process =>
      { process with state := .zombie, exitCode := code, point := .dead }

theorem quietly_leader :
    Quietly state
      (if process.leader then state.killSession process.session
        else state) := by
  split
  · exact quietly_killSession process.session
  · exact Quietly.refl state

theorem dying_spec
    {code : Int}
    (consistent : Consistent state)
    (present : state.process slot = some process)
    (closing : process.point = .closing code) :
    Consistent (state.dying slot process code) ∧
      (state.dying slot process code).tree =
        state.tree.put slot { process.member with stage := .dead code } := by
  have quietly :
      Quietly state
        (if process.leader then state.killSession process.session
          else state) :=
    quietly_leader
  have before := quietly.consistent consistent
  have later : slot ≠ 0 := consistent.later present (by rw [closing]; rfl)
  obtain ⟨now, here, quiet⟩ := quietly.to_some present
  rw [State.dying, change_eq_put here]
  constructor
  · exact before.put later (before.booted here later)
      (iff_of_true rfl rfl) rfl
  · rw [tree_put, quietly.tree]
    have member := quiet.member
    simp only [Process.member, Member.mk.injEq] at member
    simp only [Process.member, Process.stage, member]

/-- Which of the two ends `do_exit` has. -/
theorem exitClosed_spec
    {code : Int}
    (consistent : Consistent state)
    (present : state.process slot = some process)
    (closing : process.point = .closing code) :
    Consistent (state.exitClosed slot process code) ∧
      ((∃ father found,
          (state.dying slot process code).findFather process.father = some father ∧
          state.process father = some found ∧ found.pid = process.father ∧
          (state.exitClosed slot process code).tree =
            state.tree.put slot
              { process.member with stage := .dead code }) ∨
        (((state.dying slot process code).findFather process.father =
            none) ∧
          (process.father = 0 ∨ ¬ state.tree.HasPid process.father) ∧
          (state.exitClosed slot process code).tree =
            state.tree.release slot process.member)) := by
  obtain ⟨dying, tree⟩ := dying_spec consistent present closing
  have later : slot ≠ 0 := consistent.later present (by rw [closing]; rfl)
  have members :
      ∀ other found,
        (state.dying slot process code).process other = some found →
          ∃ was, state.process other = some was ∧ was.pid = found.pid := by
    intro other found here
    have member := tree_member here
    rw [tree] at member
    rcases Tree.member_put member with ⟨rfl, same⟩ | ⟨_, was⟩
    · exact ⟨process, present, (congrArg Member.pid same).symm⟩
    · obtain ⟨was, there, same⟩ := of_tree_member was
      exact ⟨was, there, congrArg Member.pid same⟩
  have shape :
      state.exitClosed slot process code =
        (state.dying slot process code).tellFather slot process := rfl
  rw [shape, State.tellFather]
  cases search :
      (state.dying slot process code).findFather process.father with
  | some father =>
    obtain ⟨child, found, here, pid⟩ := findFather_some search
    obtain ⟨was, there, same⟩ := members father found here
    have told :
        Quietly (state.dying slot process code)
          ((state.dying slot process code).change father
            (Process.post sigChld)) :=
      quietly_change_post father sigChld
    exact ⟨told.consistent dying,
      Or.inl ⟨father, was, rfl, there, same.trans pid, told.tree.trans tree⟩⟩
  | none =>
    refine ⟨dying.release later, Or.inr ⟨rfl, ?_, ?_⟩⟩
    · refine (findFather_none search).imp_right ?_
      rw [tree]
      exact mt (Tree.hasPid_put (tree_member present))
    · rw [tree_release, tree]
      simp only [Tree.release, Tree.put, Function.update_idem]

/-! ## `waitpid` -/

/-- The children that `sys_waitpid` waits for and that are dead. -/
def Ready
    (state : State)
    (slot : Slot)
    (current : Process)
    (pid : Int)
    (other : Slot)
    (child : Process) : Prop :=
  other ≠ slot ∧ state.process other = some child ∧
    current.Awaits pid child ∧ child.state = .zombie

/-- How the loop over some slots may end. -/
def Scanned
    (state : State)
    (slot : Slot)
    (current : Process)
    (pid : Int)
    (slots : List Slot)
    (result : State.Scan) : Prop :=
  match result with
  | .stopped _ => True
  | .zombie other child => other ∈ slots ∧ Ready state slot current pid other child
  | .finished _ =>
    ∀ other child, other ∈ slots → ¬ Ready state slot current pid other child

theorem Scanned.cons
    {current : Process} {pid : Int} {head : Slot} {slots : List Slot}
    {result : State.Scan}
    (scanned : Scanned state slot current pid slots result)
    (alive : ∀ child, ¬ Ready state slot current pid head child) :
    Scanned state slot current pid (head :: slots) result := by
  cases result with
  | stopped child =>
    trivial
  | zombie other child =>
    exact ⟨List.mem_cons_of_mem _ scanned.1, scanned.2⟩
  | finished flag =>
    intro other child member
    rcases List.mem_cons.mp member with rfl | later
    · exact alive child
    · exact scanned other child later

theorem scan_spec
    {current : Process} {pid : Int} {options : BitVec 32}
    (slots : List Slot)
    (flag : Bool) :
    Scanned state slot current pid slots
      (State.scan state.process slot current pid options slots flag) := by
  induction slots generalizing flag with
  | nil =>
    exact fun _ _ member => nomatch member
  | cons head slots inductionHypothesis =>
    cases present : state.process head with
    | none =>
      simp only [State.scan, present]
      refine (inductionHypothesis flag).cons ?_
      rintro child ⟨_, here, _⟩
      cases present.symm.trans here
    | some child =>
      by_cases awaited : head ≠ slot ∧ current.Awaits pid child
      · have alive :
            child.state ≠ .zombie →
              ∀ other, ¬ Ready state slot current pid head other := by
          rintro notZombie other ⟨_, here, _, zombie⟩
          cases present.symm.trans here
          exact notZombie zombie
        cases kind : child.state with
        | stopped =>
          have alive := alive (by rw [kind]; exact TaskState.noConfusion)
          by_cases untraced : options &&& wuntraced = 0#32
          · simp only [State.scan, present, if_pos awaited, kind,
              if_pos untraced]
            exact (inductionHypothesis flag).cons alive
          · simp only [State.scan, present, if_pos awaited, kind,
              if_neg untraced]
            trivial
        | zombie =>
          simp only [State.scan, present, if_pos awaited, kind]
          exact ⟨List.mem_cons_self, awaited.1, present, awaited.2, kind⟩
        | _ =>
          simp only [State.scan, present, if_pos awaited, kind]
          exact (inductionHypothesis true).cons
            (alive (by rw [kind]; exact TaskState.noConfusion))
      · simp only [State.scan, present, if_neg awaited]
        refine (inductionHypothesis flag).cons ?_
        rintro other ⟨different, here, awaits, _⟩
        cases present.symm.trans here
        exact awaited ⟨different, awaits⟩

/-- A running task in `sys_waitpid`, which has changed what the tree does not see. -/
structure Waits (process current : Process) : Prop where
  member : current.member = process.member
  running : process.state = .running
  running' : current.state = .running
  living : process.stage = .living
  busy : process.point.ofIdle = false
  alive : process.point ≠ .dead

/-- The task that has found a dead child. -/
def Process.reaping (current child : Process) : Process :=
  { current with
    cutime := long (current.cutime + child.utime)
    cstime := long (current.cstime + child.stime)
    point := .reporting
      { serial := child.serial, pid := child.pid, code := child.exitCode } }

/-- The ways in which `sys_waitpid` comes to the next place where it can sleep. -/
inductive WaitpidEnds
    (state : State)
    (slot : Slot)
    (process current : Process)
    (pid : Int)
    (options : BitVec 32) :
    State → Prop where
  | returns
      (eax : Int) :
      WaitpidEnds state slot process current pid options
        (state.put slot (current.returns eax))
  | sleeps
      (nobody : ∀ other child, ¬ Ready state slot current pid other child) :
      WaitpidEnds state slot process current pid options
        (state.put slot
          { current with
            state := .interruptible
            point := .waiting pid options })
  | reaps
      {other : Slot} {child : Process}
      (ready : Ready state slot current pid other child) :
      WaitpidEnds state slot process current pid options
        ((state.release other child).put slot (current.reaping child))

theorem sysWaitpid_spec
    {current : Process} {pid : Int} {options : BitVec 32}
    (consistent : Consistent state) :
    WaitpidEnds state slot process current pid options
      (state.sysWaitpid slot current pid options) := by
  have scanned :
      Scanned state slot current pid laterSlots
        (State.scan state.process slot current pid options laterSlots false) :=
    scan_spec laterSlots false
  rw [State.sysWaitpid]
  cases found :
      State.scan state.process slot current pid options laterSlots false with
  | stopped child =>
    exact .returns child.pid
  | zombie other child =>
    rw [found] at scanned
    exact .reaps scanned.2
  | finished flag =>
    cases flag with
    | false =>
      exact .returns (-echild)
    | true =>
      simp only
      split
      · refine .sleeps ?_
        rintro other child ready
        rw [found] at scanned
        refine scanned other child (mem_laterSlots.mpr ?_) ready
        refine consistent.later ready.2.1 ?_
        rw [(consistent.zombies ready.2.1).mp ready.2.2.2]
        rfl
      · exact .returns 0

theorem Waits.quiet
    {current : Process}
    (waits : Waits process current)
    (eax : Int) :
    Quiet process (current.returns eax) := by
  refine ⟨?_, ?_, Or.inr (Or.inr ⟨waits.busy, rfl, waits.alive,
    Point.noConfusion⟩), fun user => Point.noConfusion user, ?_⟩
  · have member := waits.member
    simp only [Process.member, Member.mk.injEq] at member
    have living : (current.returns eax).stage = process.stage := waits.living.symm
    simp only [Process.member, living]
    simp only [Process.returns, member]
  · refine iff_of_false ?_ ?_
    · rw [Process.returns]
      simp only [waits.running']
      exact TaskState.noConfusion
    · rw [waits.running]
      exact TaskState.noConfusion
  · intro zombie
    rw [Process.returns] at zombie
    simp only [waits.running'] at zombie
    cases zombie

theorem tree_put_same
    {now : Process}
    (present : state.process slot = some process)
    (member : now.member = process.member) :
    (state.put slot now).tree = state.tree := by
  rw [tree_put, member, Tree.put, ← tree_member present, Function.update_eq_self]

/-- What happens to the tree in `sys_waitpid`. -/
theorem WaitpidEnds.tree
    {current : Process} {pid : Int} {options : BitVec 32}
    (ends : WaitpidEnds state slot process current pid options after)
    (consistent : Consistent state)
    (present : state.process slot = some process)
    (waits : Waits process current) :
    Consistent after ∧
      (after.tree = state.tree ∨
        ∃ other child,
          Ready state slot current pid other child ∧
          after = (state.release other child).put slot (current.reaping child) ∧
          Tree.Step 1 (.reaps slot other) state.tree after.tree) := by
  have later := consistent.later present waits.busy
  have booted := consistent.booted present later
  cases ends with
  | returns eax =>
    have quietly := quietly_put present (waits.quiet eax)
    exact ⟨quietly.consistent consistent, Or.inl quietly.tree⟩
  | sleeps nobody =>
    refine ⟨consistent.put later booted
      (iff_of_false TaskState.noConfusion Point.noConfusion) rfl,
      Or.inl (tree_put_same present ?_)⟩
    have member := waits.member
    simp only [Process.member, Member.mk.injEq] at member
    simp only [Process.member, member, waits.living]
    rfl
  | @reaps other child ready =>
    obtain ⟨different, exited, awaits, zombie⟩ := ready
    have dead := (consistent.zombies exited).mp zombie
    have otherLater : other ≠ 0 :=
      consistent.later exited (by rw [dead]; rfl)
    have kept : Consistent (state.release other child) :=
      consistent.release otherLater
    have there :
        (state.release other child).process slot = some process := by
      simp only [State.release, Function.update_of_ne different.symm]
      exact present
    have member := waits.member
    simp only [Process.member, Member.mk.injEq] at member
    refine ⟨kept.put later (kept.booted there later) ?_ rfl,
      Or.inr ⟨other, child, ⟨different, exited, awaits, zombie⟩, rfl, ?_⟩⟩
    · refine iff_of_false ?_ Point.noConfusion
      simp only [Process.reaping, waits.running']
      exact TaskState.noConfusion
    · have stage : child.member.stage = .dead child.exitCode := by
        simp only [Process.member, Process.stage, dead]
      have shape :
          ((state.release other child).put slot
              (current.reaping child)).tree =
            (state.tree.release other child.member).put slot
              { process.member with
                stage :=
                  .reporting (child.member.exit child.exitCode) } := by
        rw [tree_put, tree_release]
        simp only [Process.member, Process.reaping, member]
        rfl
      rw [shape]
      refine .reaps (tree_member present) waits.living
        (tree_member exited) stage ?_
      exact awaits.1.trans member.1

/-! ## All actions -/

/-- Init does not exit. -/
def ProcessAction.InitStays (action : ProcessAction) : Prop :=
  ∀ code, action ≠ .exit 1 code

/-- What a step of the processes is for the tree. -/
inductive TreeStep
    (action : ProcessAction)
    (state after : State) : Prop where
  | same
      (tree : after.tree = state.tree)
  | moves
      {event : Event Slot}
      (stepped : Tree.Step 1 event state.tree after.tree)
      (allowed : action.InitStays → Tree.Rooted.Allowed 0 1 event)
  | boots
      {page : Nat} {member : Member}
      (alone : Tree.Alone 0 state.tree)
      (present : state.tree.member 0 = some member)
      (stepped : Tree.Step 1 (.bears 0 1) state.tree after.tree)
      (tree : after.tree = state.tree.bear 1 1 member.pid page)

theorem Consistent.fork
    {page : Option Nat} {copied : Bool} {parent : Process}
    (consistent : Consistent state)
    (present : state.process slot = some process)
    (forks : Forks process parent)
    (forked : state.sysFork slot parent page copied = some after) :
    Consistent after ∧
      TreeStep (.fork slot page copied) state after := by
  obtain ⟨nr, pid, found, isPid, fresh, rfl | ⟨child, page', rfl, later, empty,
    free, rfl⟩⟩ := sysFork_spec consistent.lastPid forked
  · obtain ⟨kept, same⟩ := forkFails_spec consistent present forks isPid
    exact ⟨kept, .same same⟩
  · obtain ⟨kept, tree⟩ :=
      forkMakes_spec consistent present forks isPid later
    refine ⟨kept, ?_⟩
    have living : process.member.stage = .living := by
      rcases forks.shape with ⟨booting, _⟩ | ⟨user, _⟩
      · simp only [Process.member, Process.stage, booting]
      · simp only [Process.member, Process.stage, user]
    have stepped :
        Tree.Step 1 (.bears slot child) state.tree
          (state.tree.bear child pid process.member.pid page') := by
      refine .bears (tree_member present) living ?_ ?_ free
      · simp only [State.tree, empty, Option.map_none]
      · exact mt hasPid_tree.mp fresh
    rcases forks.shape with ⟨booting, _⟩ | ⟨user, _⟩
    · have first : slot = 0 :=
        (consistent.busy present).mp (by rw [booting]; rfl)
      subst first
      obtain ⟨zero, others⟩ := consistent.boots present booting
      obtain ⟨idle, here, idlePid⟩ := consistent.idle
      cases present.symm.trans here
      have idleTask : state.table 0 = some process.toTask := by
        simp only [State.table, present, Option.map_some]
      have nobody : ∀ slot, slot ≠ 0 → state.table slot = none := by
        intro slot later
        simp only [State.table, others slot later, Option.map_none]
      rw [zero, findEmptyProcess_boot idleTask idlePid nobody] at found
      cases found
      refine .boots ⟨⟨process.member, tree_member present, idlePid, living⟩, ?_⟩
        (tree_member present) (tree ▸ stepped) tree
      intro slot later
      simp only [State.tree, others slot later, Option.map_none]
    · refine .moves (tree ▸ stepped) ?_
      intro _
      exact consistent.later present (by rw [user]; rfl)

theorem mayExit_spec
    (mayExit : process.point.mayExit = true) :
    process.point.ofIdle = false ∧ process.member.stage.Runs := by
  cases shape : process.point with
  | user =>
    simp only [Process.member, Process.stage, shape]
    exact ⟨rfl, trivial⟩
  | reporting exit =>
    simp only [Process.member, Process.stage, shape]
    exact ⟨rfl, trivial⟩
  | _ =>
    rw [shape] at mayExit
    cases mayExit

theorem Consistent.exit
    {code : Int}
    (consistent : Consistent state)
    (present : state.process slot = some process)
    (running : process.state = .running)
    (mayExit : process.point.mayExit = true) :
    Consistent (state.doExit slot process code) ∧
      TreeStep (.exit slot code) state (state.doExit slot process code) := by
  obtain ⟨kept, tree⟩ := doExit_spec consistent present running mayExit
  obtain ⟨busy, runs⟩ := mayExit_spec mayExit
  have stepped :
      Tree.Step 1 (.exits slot) state.tree
        (state.doExit slot process code).tree := by
    rw [tree]
    exact .exits (tree_member present) runs
  refine ⟨kept, .moves stepped ?_⟩
  intro stays
  refine ⟨consistent.later present busy, ?_⟩
  rintro rfl
  exact stays code rfl

theorem Consistent.closed
    {code : Int}
    (consistent : Consistent state)
    (present : state.process slot = some process)
    (closing : process.point = .closing code) :
    Consistent (state.exitClosed slot process code) ∧
      TreeStep (.closed slot) state (state.exitClosed slot process code) := by
  have stage : process.member.stage = .closing code := by
    simp only [Process.member, Process.stage, closing]
  obtain ⟨kept, ⟨father, found, _, there, pid, tree⟩ | ⟨_, fatherless,
    tree⟩⟩ := exitClosed_spec consistent present closing
  · have stepped :
        Tree.Step 1 (.dies slot) state.tree
          (state.exitClosed slot process code).tree := by
      rw [tree]
      exact .dies (tree_member present) stage
        ⟨father, found.member, tree_member there, pid⟩
    exact ⟨kept, .moves stepped fun _ => trivial⟩
  · have stepped :
        Tree.Step 1 (.vanishes slot) state.tree
          (state.exitClosed slot process code).tree := by
      rw [tree]
      exact .vanishes (tree_member present) stage fatherless
    exact ⟨kept, .moves stepped fun _ => trivial⟩

theorem WaitpidEnds.treeStep
    {action : ProcessAction} {current : Process} {pid : Int}
    {options : BitVec 32}
    (ends : WaitpidEnds state slot process current pid options after)
    (consistent : Consistent state)
    (present : state.process slot = some process)
    (waits : Waits process current) :
    Consistent after ∧ TreeStep action state after := by
  obtain ⟨kept, same | ⟨other, child, _, _, moved⟩⟩ :=
    ends.tree consistent present waits
  · exact ⟨kept, .same same⟩
  · exact ⟨kept, .moves moved fun _ => consistent.later present waits.busy⟩

theorem waits_user
    (running : process.state = .running)
    (user : process.point = .user) :
    Waits process process where
  member := rfl
  running := running
  running' := running
  living := by simp only [Process.stage, user]
  busy := by rw [user]; rfl
  alive := by rw [user]; exact Point.noConfusion

theorem waits_resumed
    {pid : Int} {options signal : BitVec 32}
    (running : process.state = .running)
    (waiting : process.point = .waiting pid options) :
    Waits process { process with signal := signal } where
  member := rfl
  running := running
  running' := running
  living := by simp only [Process.stage, waiting]
  busy := by rw [waiting]; rfl
  alive := by rw [waiting]; exact Point.noConfusion

theorem Consistent.report
    {exit : Exit}
    (consistent : Consistent state)
    (present : state.process slot = some process)
    (running : process.state = .running)
    (reporting : process.point = .reporting exit) :
    Consistent
        { state.put slot (process.returns exit.pid) with
          reports := exit :: state.reports } ∧
      TreeStep (.report slot) state
        { state.put slot (process.returns exit.pid) with
          reports := exit :: state.reports } := by
  have later := consistent.later present (by rw [reporting]; rfl)
  have alive : (process.returns exit.pid).state ≠ .zombie := by
    rw [Process.returns]
    simp only [running]
    exact TaskState.noConfusion
  have kept :
      Consistent (state.put slot (process.returns exit.pid)) :=
    consistent.put later (consistent.booted present later)
      (iff_of_false alive Point.noConfusion) rfl
  have stage : process.member.stage = .reporting exit := by
    simp only [Process.member, Process.stage, reporting]
  have stepped :
      Tree.Step 1 (.reports slot) state.tree
        { (state.put slot (process.returns exit.pid)).tree with
          reports := exit :: state.reports } := by
    rw [tree_put]
    exact .reports (tree_member present) stage
  exact ⟨⟨kept.lastPid, kept.zombies, kept.busy, kept.idle, kept.boots⟩,
    .moves stepped fun _ => trivial⟩

/-- The step lemma: every step is one of the tree, or leaves the tree as it is. -/
theorem Consistent.step
    {action : ProcessAction}
    (consistent : Consistent state)
    (stepped : action.Step state after) :
    Consistent after ∧ TreeStep action state after := by
  cases action with
  | fork slot page copied =>
    obtain ⟨process, runs, forked⟩ := Option.bind_eq_some_iff.mp stepped
    obtain ⟨present, running⟩ := running_eq_some.mp runs
    split at forked
    · rename_i booting
      exact consistent.fork present
        ⟨running, Or.inl ⟨booting, rfl⟩⟩ forked
    · rename_i user
      exact consistent.fork present ⟨running, Or.inr ⟨user, rfl⟩⟩ forked
    · cases forked
  | exit slot code =>
    obtain ⟨process, runs, exits⟩ := Option.bind_eq_some_iff.mp stepped
    obtain ⟨present, running⟩ := running_eq_some.mp runs
    split at exits
    · rename_i mayExit
      cases exits
      exact consistent.exit present running mayExit
    · cases exits
  | closed slot =>
    obtain ⟨process, runs, exits⟩ := Option.bind_eq_some_iff.mp stepped
    obtain ⟨present, _⟩ := running_eq_some.mp runs
    split at exits
    · rename_i code closing
      cases exits
      exact consistent.closed present closing
    · cases exits
  | waitpid slot pid options =>
    obtain ⟨current, inUser, rfl⟩ := Option.map_eq_some_iff.mp stepped
    obtain ⟨present, running, user⟩ := inUser_eq_some.mp inUser
    exact (sysWaitpid_spec consistent).treeStep consistent present
      (waits_user running user)
  | resume slot =>
    obtain ⟨process, runs, resumed⟩ := Option.bind_eq_some_iff.mp stepped
    obtain ⟨present, running⟩ := running_eq_some.mp runs
    split at resumed
    · rename_i pid options waiting
      cases resumed
      have waits :
          Waits process
            { process with
              signal := process.signal &&& ~~~(bit sigChld) } :=
        waits_resumed running waiting
      simp only [State.waitpidResumed]
      split
      · exact (sysWaitpid_spec consistent).treeStep consistent present waits
      · have quietly := quietly_put present (waits.quiet (-eintr))
        exact ⟨quietly.consistent consistent, .same quietly.tree⟩
    · cases resumed
  | report slot =>
    obtain ⟨process, runs, reports⟩ := Option.bind_eq_some_iff.mp stepped
    obtain ⟨present, running⟩ := running_eq_some.mp runs
    split at reports
    · rename_i exit reporting
      cases reports
      exact consistent.report present running reporting
    · cases reports
  | _ =>
    have quietly := ProcessAction.quietly consistent rfl stepped
    exact ⟨quietly.consistent consistent, .same quietly.tree⟩

end TreeSteps

end Tasks

end HitOs
