import HitOs.Traces
import Mathlib.Data.List.Nodup
import Mathlib.Logic.Function.Basic

namespace HitOs

/-!
# Process trees

What forks, exits and waits are for, without the code: processes are born, leave
their children to an adopter, die, and are reaped by their father, who then reports
the exit.  A process has a serial number of its own that is never used again.
-/

namespace ProcessTree

/-- The process with this serial number and pid has exited with this code. -/
structure Exit where
  serial : Nat
  pid : Int
  code : Int
  deriving Repr, DecidableEq

/-- How far a process is. -/
inductive Stage where
  | living
  | reporting (exit : Exit)
  | closing (code : Int)
  | dead (code : Int)
  deriving Repr, DecidableEq

/-- It has not exited. -/
def Stage.Runs (stage : Stage) : Prop :=
  match stage with
  | .living => True
  | .reporting _ => True
  | .closing _ => False
  | .dead _ => False

structure Member where
  pid : Int
  father : Int
  page : Nat
  serial : Nat
  stage : Stage

def Member.exit (code : Int) (member : Member) : Exit where
  serial := member.serial
  pid := member.pid
  code := code

variable {ι : Type}

/-- The processes, the pages they hold, and what has happened so far. -/
structure Tree (ι : Type) where
  member : ι → Option Member
  held : Nat → Bool
  born : Nat
  exits : List Exit
  reports : List Exit

/-- What happens to one process. -/
inductive Event (ι : Type) where
  | bears (parent child : ι)
  | exits (slot : ι)
  | dies (slot : ι)
  | vanishes (slot : ι)
  | reaps (slot child : ι)
  | reports (slot : ι)

namespace Tree

section Operations

variable [DecidableEq ι]

def put (slot : ι) (member : Member) (tree : Tree ι) : Tree ι :=
  { tree with member := Function.update tree.member slot (some member) }

def release (slot : ι) (member : Member) (tree : Tree ι) : Tree ι :=
  { tree with
    member := Function.update tree.member slot none
    held := Function.update tree.held member.page false }

/-- A child of the process with the given number. -/
def bear
    (child : ι)
    (pid father : Int)
    (page : Nat)
    (tree : Tree ι) : Tree ι :=
  { tree with
    member :=
      Function.update tree.member child
        (some
          { pid := pid
            father := father
            page := page
            serial := tree.born
            stage := .living })
    held := Function.update tree.held page true
    born := tree.born + 1 }

/-- The children of `parent` get a new father. -/
def adopted (adopter parent : Int) (member : Member) : Member :=
  { member with
    father := if member.father = parent then adopter else member.father }

/-- The process in this slot leaves its children and closes what it has open. -/
def leave
    (adopter : Int)
    (slot : ι)
    (member : Member)
    (code : Int)
    (tree : Tree ι) : Tree ι :=
  { tree with
    member := fun other =>
      (tree.member other).map fun child =>
        { adopted adopter member.pid child with
          stage := if other = slot then .closing code else child.stage }
    exits := member.exit code :: tree.exits }

end Operations

/-- Some process has this number. -/
def HasPid (pid : Int) (tree : Tree ι) : Prop :=
  ∃ slot member, tree.member slot = some member ∧ member.pid = pid

/-- The steps of a tree whose orphans are adopted by the given process. -/
inductive Step
    [DecidableEq ι]
    (adopter : Int) :
    Event ι → Tree ι → Tree ι → Prop where
  | bears
      {tree : Tree ι} {parent child : ι} {member : Member}
      {pid : Int} {page : Nat}
      (present : tree.member parent = some member)
      (living : member.stage = .living)
      (empty : tree.member child = none)
      (fresh : ¬ tree.HasPid pid)
      (free : tree.held page = false) :
      Step adopter (.bears parent child) tree
        (tree.bear child pid member.pid page)
  | exits
      {tree : Tree ι} {slot : ι} {member : Member} {code : Int}
      (present : tree.member slot = some member)
      (runs : member.stage.Runs) :
      Step adopter (.exits slot) tree (tree.leave adopter slot member code)
  | dies
      {tree : Tree ι} {slot : ι} {member : Member} {code : Int}
      (present : tree.member slot = some member)
      (closing : member.stage = .closing code)
      (father : tree.HasPid member.father) :
      Step adopter (.dies slot) tree
        (tree.put slot { member with stage := .dead code })
  | vanishes
      {tree : Tree ι} {slot : ι} {member : Member} {code : Int}
      (present : tree.member slot = some member)
      (closing : member.stage = .closing code)
      (fatherless : member.father = 0 ∨ ¬ tree.HasPid member.father) :
      Step adopter (.vanishes slot) tree (tree.release slot member)
  | reaps
      {tree : Tree ι} {slot child : ι} {member zombie : Member} {code : Int}
      (present : tree.member slot = some member)
      (living : member.stage = .living)
      (exited : tree.member child = some zombie)
      (dead : zombie.stage = .dead code)
      (father : zombie.father = member.pid) :
      Step adopter (.reaps slot child) tree
        ((tree.release child zombie).put slot
          { member with stage := .reporting (zombie.exit code) })
  | reports
      {tree : Tree ι} {slot : ι} {member : Member} {exit : Exit}
      (present : tree.member slot = some member)
      (reporting : member.stage = .reporting exit) :
      Step adopter (.reports slot) tree
        { tree.put slot { member with stage := .living } with
          reports := exit :: tree.reports }

/-! ## Distinct processes -/

/-- Numbers, serial numbers and pages are not shared. -/
structure Distinct (tree : Tree ι) : Prop where
  pids :
    ∀ {first second : ι} {member other : Member},
      tree.member first = some member → tree.member second = some other →
      member.pid = other.pid → first = second
  serials :
    ∀ {first second : ι} {member other : Member},
      tree.member first = some member → tree.member second = some other →
      member.serial = other.serial → first = second
  pages :
    ∀ {first second : ι} {member other : Member},
      tree.member first = some member → tree.member second = some other →
      member.page = other.page → first = second
  held :
    ∀ {slot : ι} {member : Member},
      tree.member slot = some member → tree.held member.page = true
  older :
    ∀ {slot : ι} {member : Member},
      tree.member slot = some member → member.serial < tree.born

/-- Every process was there before, in the same slot. -/
def From (before after : Tree ι) : Prop :=
  ∀ slot member, after.member slot = some member →
    ∃ was, before.member slot = some was ∧ member.pid = was.pid ∧
      member.serial = was.serial ∧ member.page = was.page

theorem Distinct.of_from
    {before after : Tree ι}
    (distinct : Distinct before)
    (origin : From before after)
    (born : before.born = after.born)
    (held :
      ∀ slot member, after.member slot = some member → after.held member.page = true) :
    Distinct after where
  pids := by
    intro first second member other here there same
    obtain ⟨was, present, pid, _⟩ := origin first member here
    obtain ⟨was', present', pid', _⟩ := origin second other there
    exact distinct.pids present present' (pid ▸ pid' ▸ same)
  serials := by
    intro first second member other here there same
    obtain ⟨was, present, _, serial, _⟩ := origin first member here
    obtain ⟨was', present', _, serial', _⟩ := origin second other there
    exact distinct.serials present present' (serial ▸ serial' ▸ same)
  pages := by
    intro first second member other here there same
    obtain ⟨was, present, _, _, page⟩ := origin first member here
    obtain ⟨was', present', _, _, page'⟩ := origin second other there
    exact distinct.pages present present' (page ▸ page' ▸ same)
  held := held _ _
  older := by
    intro slot member here
    obtain ⟨was, present, _, serial, _⟩ := origin slot member here
    rw [serial, ← born]
    exact distinct.older present

section Steps

variable [DecidableEq ι] {tree after : Tree ι} {slot : ι} {member : Member}

theorem member_put
    {other : ι} {new found : Member}
    (present : (tree.put slot new).member other = some found) :
    (other = slot ∧ found = new) ∨
      (other ≠ slot ∧ tree.member other = some found) := by
  by_cases same : other = slot
  · subst same
    simp only [put, Function.update_self] at present
    cases present
    exact Or.inl ⟨rfl, rfl⟩
  · simp only [put, Function.update_of_ne same] at present
    exact Or.inr ⟨same, present⟩

theorem member_release
    {other : ι} {gone found : Member}
    (present : (tree.release slot gone).member other = some found) :
    other ≠ slot ∧ tree.member other = some found := by
  by_cases same : other = slot
  · subst same
    simp only [release, Function.update_self] at present
    cases present
  · simp only [release, Function.update_of_ne same] at present
    exact ⟨same, present⟩

/-- A living process is not the one that is reaped. -/
theorem present_release
    {child : ι} {zombie : Member} {code : Int}
    (exited : tree.member child = some zombie)
    (dead : zombie.stage = .dead code)
    (present : tree.member slot = some member)
    (living : member.stage = .living) :
    (tree.release child zombie).member slot = some member := by
  have different : slot ≠ child := by
    rintro rfl
    cases exited.symm.trans present
    rw [living] at dead
    cases dead
  simp only [release, Function.update_of_ne different]
  exact present

theorem member_bear
    {child other : ι} {pid father : Int} {page : Nat} {found : Member}
    (present : (tree.bear child pid father page).member other = some found) :
    (other = child ∧
        found =
          { pid := pid
            father := father
            page := page
            serial := tree.born
            stage := .living }) ∨
      (other ≠ child ∧ tree.member other = some found) := by
  by_cases same : other = child
  · subst same
    simp only [bear, Function.update_self] at present
    cases present
    exact Or.inl ⟨rfl, rfl⟩
  · simp only [bear, Function.update_of_ne same] at present
    exact Or.inr ⟨same, present⟩

theorem member_leave
    {adopter code : Int} {other : ι} {found : Member}
    (present : (tree.leave adopter slot member code).member other = some found) :
    ∃ was, tree.member other = some was ∧
      found.pid = was.pid ∧ found.serial = was.serial ∧
      found.page = was.page ∧
      found.father = (if was.father = member.pid then adopter else was.father) ∧
      found.stage = if other = slot then .closing code else was.stage := by
  obtain ⟨was, earlier, rfl⟩ := Option.map_eq_some_iff.mp present
  exact ⟨was, earlier, rfl, rfl, rfl, rfl, rfl⟩

theorem hasPid_put
    {pid : Int} {stage : Stage}
    (present : tree.member slot = some member)
    (has : tree.HasPid pid) :
    (tree.put slot { member with stage := stage }).HasPid pid := by
  obtain ⟨other, found, there, same⟩ := has
  by_cases here : other = slot
  · subst here
    cases present.symm.trans there
    exact ⟨other, _, Function.update_self _ _ _, same⟩
  · exact ⟨other, found, (Function.update_of_ne here _ _).trans there, same⟩

theorem Distinct.put
    (distinct : Distinct tree)
    (present : tree.member slot = some member)
    (stage : Stage) :
    Distinct (tree.put slot { member with stage := stage }) := by
  refine distinct.of_from ?_ rfl ?_
  · intro other found here
    rcases member_put here with ⟨rfl, rfl⟩ | ⟨_, was⟩
    · exact ⟨member, present, rfl, rfl, rfl⟩
    · exact ⟨found, was, rfl, rfl, rfl⟩
  · intro other found here
    rcases member_put here with ⟨rfl, rfl⟩ | ⟨_, was⟩
    · have kept := distinct.held present
      exact kept
    · exact distinct.held was

theorem Distinct.release
    (distinct : Distinct tree)
    (present : tree.member slot = some member) :
    Distinct (tree.release slot member) := by
  refine distinct.of_from ?_ rfl ?_
  · intro other found here
    exact ⟨found, (member_release here).2, rfl, rfl, rfl⟩
  · intro other found here
    obtain ⟨different, was⟩ := member_release here
    have elsewhere : found.page ≠ member.page :=
      fun same => different (distinct.pages was present same)
    simp only [Tree.release, Function.update_of_ne elsewhere]
    exact distinct.held was

theorem Distinct.bear
    {child : ι} {pid father : Int} {page : Nat}
    (distinct : Distinct tree)
    (fresh : ¬ tree.HasPid pid)
    (free : tree.held page = false) :
    Distinct (tree.bear child pid father page) := by
  have unused :
      ∀ {other : ι} {found : Member}, tree.member other = some found →
        found.page ≠ page := by
    intro other found was same
    rw [← same, distinct.held was] at free
    cases free
  constructor
  · intro first second one two here there same
    rcases member_bear here with ⟨rfl, rfl⟩ | ⟨_, was⟩
    · rcases member_bear there with ⟨rfl, rfl⟩ | ⟨_, was'⟩
      · rfl
      · exact absurd ⟨second, two, was', same.symm⟩ fresh
    · rcases member_bear there with ⟨rfl, rfl⟩ | ⟨_, was'⟩
      · exact absurd ⟨first, one, was, same⟩ fresh
      · exact distinct.pids was was' same
  · intro first second one two here there same
    rcases member_bear here with ⟨rfl, rfl⟩ | ⟨_, was⟩
    · rcases member_bear there with ⟨rfl, rfl⟩ | ⟨_, was'⟩
      · rfl
      · exact absurd same.symm (Nat.ne_of_lt (distinct.older was'))
    · rcases member_bear there with ⟨rfl, rfl⟩ | ⟨_, was'⟩
      · exact absurd same (Nat.ne_of_lt (distinct.older was))
      · exact distinct.serials was was' same
  · intro first second one two here there same
    rcases member_bear here with ⟨rfl, rfl⟩ | ⟨_, was⟩
    · rcases member_bear there with ⟨rfl, rfl⟩ | ⟨_, was'⟩
      · rfl
      · exact absurd same.symm (unused was')
    · rcases member_bear there with ⟨rfl, rfl⟩ | ⟨_, was'⟩
      · exact absurd same (unused was)
      · exact distinct.pages was was' same
  · intro other found here
    rcases member_bear here with ⟨rfl, rfl⟩ | ⟨_, was⟩
    · exact Function.update_self _ _ _
    · simp only [Tree.bear, Function.update_of_ne (unused was)]
      exact distinct.held was
  · intro other found here
    rcases member_bear here with ⟨rfl, rfl⟩ | ⟨_, was⟩
    · exact Nat.lt_succ_self _
    · exact Nat.lt_succ_of_lt (distinct.older was)

/-- The step lemma: processes stay distinct. -/
theorem Distinct.step
    {adopter : Int} {event : Event ι}
    (distinct : Distinct tree)
    (stepped : Step adopter event tree after) :
    Distinct after := by
  cases stepped with
  | bears present living empty fresh free =>
    exact distinct.bear fresh free
  | exits present runs =>
    refine distinct.of_from ?_ rfl ?_
    · intro other found here
      obtain ⟨was, present, pid, serial, page, _⟩ := member_leave here
      exact ⟨was, present, pid, serial, page⟩
    · intro other found here
      obtain ⟨was, present, _, _, page, _⟩ := member_leave here
      rw [page]
      exact distinct.held present
  | dies present closing father =>
    exact distinct.put present _
  | vanishes present closing fatherless =>
    exact distinct.release present
  | reaps present living exited dead father =>
    exact (distinct.release exited).put
      (present_release exited dead present living) _
  | reports present reporting =>
    have moved := distinct.put present .living
    exact ⟨moved.pids, moved.serials, moved.pages, moved.held, moved.older⟩

end Steps

/-! ## What has been reported -/

/-- A father has reaped a process and has not reported it. -/
def Pending (slot : ι) (exit : Exit) (tree : Tree ι) : Prop :=
  ∃ member, tree.member slot = some member ∧ member.stage = .reporting exit

/-- Every process exits once, and every exit is reported at most once. -/
structure Logged (tree : Tree ι) : Prop where
  exits : (tree.exits.map Exit.serial).Nodup
  exited : ∀ exit ∈ tree.exits, exit.serial < tree.born
  running :
    ∀ {slot : ι} {member : Member},
      tree.member slot = some member → member.stage.Runs →
        ∀ exit ∈ tree.exits, exit.serial ≠ member.serial
  ending :
    ∀ {slot : ι} {member : Member} {code : Int},
      tree.member slot = some member →
      member.stage = .closing code ∨ member.stage = .dead code →
        member.exit code ∈ tree.exits
  pending :
    ∀ {slot : ι} {exit : Exit},
      tree.Pending slot exit → exit ∈ tree.exits ∧ exit ∉ tree.reports
  reported : ∀ exit ∈ tree.reports, exit ∈ tree.exits
  gone :
    ∀ {exit : Exit},
      exit ∈ tree.reports ∨ (∃ slot, tree.Pending slot exit) →
        ∀ {slot : ι} {member : Member},
          tree.member slot = some member → member.serial ≠ exit.serial
  once : tree.reports.Nodup
  single :
    ∀ {first second : ι} {exit : Exit},
      tree.Pending first exit → tree.Pending second exit → first = second

/-- Fewer processes, none of which is at an earlier stage. -/
structure Fades (before after : Tree ι) : Prop where
  exits : before.exits = after.exits
  reports : before.reports = after.reports
  born : before.born = after.born
  later :
    ∀ {slot : ι} {member : Member},
      after.member slot = some member →
        ∃ was, before.member slot = some was ∧
          member.serial = was.serial ∧ member.pid = was.pid ∧
          (member.stage = was.stage ∨
            ∃ code, was.stage = .closing code ∧ member.stage = .dead code)

theorem Fades.pending
    {before after : Tree ι}
    (fades : Fades before after)
    {slot : ι} {exit : Exit}
    (pending : after.Pending slot exit) :
    before.Pending slot exit := by
  obtain ⟨member, present, reporting⟩ := pending
  obtain ⟨was, present', _, _, same | ⟨code, _, dead⟩⟩ := fades.later present
  · exact ⟨was, present', same ▸ reporting⟩
  · cases reporting.symm.trans dead

theorem Logged.fades
    {before after : Tree ι}
    (logged : Logged before)
    (fades : Fades before after) :
    Logged after where
  exits := fades.exits ▸ logged.exits
  exited := fades.exits ▸ fades.born ▸ logged.exited
  running := by
    intro slot member present runs exit exited
    obtain ⟨was, present', serial, _, same | ⟨code, _, dead⟩⟩ :=
      fades.later present
    · rw [serial]
      exact logged.running present' (same ▸ runs) exit (fades.exits ▸ exited)
    · rw [dead] at runs
      exact runs.elim
  ending := by
    intro slot member code present ends
    obtain ⟨was, present', serial, pid, same | ⟨code', closing, dead⟩⟩ :=
      fades.later present
    · have exited := logged.ending present' (same ▸ ends)
      rw [← fades.exits, Member.exit, serial, pid]
      exact exited
    · rw [dead] at ends
      rcases ends with never | same
      · cases never
      · cases same
        have exited := logged.ending present' (Or.inl closing)
        rw [← fades.exits, Member.exit, serial, pid]
        exact exited
  pending := by
    intro slot exit pending
    rw [← fades.exits, ← fades.reports]
    exact logged.pending (fades.pending pending)
  reported := fades.exits ▸ fades.reports ▸ logged.reported
  gone := by
    intro exit seen slot member present
    obtain ⟨was, present', serial, _⟩ := fades.later present
    rw [serial]
    refine logged.gone ?_ present'
    rcases seen with reported | ⟨other, pending⟩
    · exact Or.inl (fades.reports ▸ reported)
    · exact Or.inr ⟨other, fades.pending pending⟩
  once := fades.reports ▸ logged.once
  single := fun first second =>
    logged.single (fades.pending first) (fades.pending second)

section LogSteps

variable [DecidableEq ι] {tree after : Tree ι} {slot : ι} {member : Member}

theorem fades_release :
    Fades tree (tree.release slot member) where
  exits := rfl
  reports := rfl
  born := rfl
  later := by
    intro other found here
    exact ⟨found, (member_release here).2, rfl, rfl, Or.inl rfl⟩

theorem fades_dies
    {code : Int}
    (present : tree.member slot = some member)
    (closing : member.stage = .closing code) :
    Fades tree (tree.put slot { member with stage := .dead code }) where
  exits := rfl
  reports := rfl
  born := rfl
  later := by
    intro other found here
    rcases member_put here with ⟨rfl, rfl⟩ | ⟨_, was⟩
    · exact ⟨member, present, rfl, rfl, Or.inr ⟨code, closing, rfl⟩⟩
    · exact ⟨found, was, rfl, rfl, Or.inl rfl⟩

theorem pending_put
    {stage : Stage} {other : ι} {exit : Exit}
    (pending : (tree.put slot { member with stage := stage }).Pending other exit) :
    (other = slot ∧ stage = .reporting exit) ∨
      (other ≠ slot ∧ tree.Pending other exit) := by
  obtain ⟨found, here, reporting⟩ := pending
  rcases member_put here with ⟨rfl, rfl⟩ | ⟨different, was⟩
  · exact Or.inl ⟨rfl, reporting⟩
  · exact Or.inr ⟨different, found, was, reporting⟩

theorem pending_bear
    {child other : ι} {pid father : Int} {page : Nat} {exit : Exit}
    (pending : (tree.bear child pid father page).Pending other exit) :
    tree.Pending other exit := by
  obtain ⟨found, here, reporting⟩ := pending
  rcases member_bear here with ⟨rfl, rfl⟩ | ⟨_, was⟩
  · cases reporting
  · exact ⟨found, was, reporting⟩

theorem pending_leave
    {adopter code : Int} {other : ι} {exit : Exit}
    (pending : (tree.leave adopter slot member code).Pending other exit) :
    other ≠ slot ∧ tree.Pending other exit := by
  obtain ⟨found, here, reporting⟩ := pending
  obtain ⟨was, present, _, _, _, _, stage⟩ := member_leave here
  rw [stage] at reporting
  split at reporting
  · cases reporting
  · rename_i different
    exact ⟨different, was, present, reporting⟩

theorem Logged.bear
    {child : ι} {pid father : Int} {page : Nat}
    (logged : Logged tree) :
    Logged (tree.bear child pid father page) where
  exits := logged.exits
  exited exit exited := Nat.lt_succ_of_lt (logged.exited exit exited)
  running := by
    intro other found here runs exit exited
    rcases member_bear here with ⟨rfl, rfl⟩ | ⟨_, was⟩
    · exact Nat.ne_of_lt (logged.exited exit exited)
    · exact logged.running was runs exit exited
  ending := by
    intro other found code here ends
    rcases member_bear here with ⟨rfl, rfl⟩ | ⟨_, was⟩
    · rcases ends with never | never
      · cases never
      · cases never
    · exact logged.ending was ends
  pending pending := logged.pending (pending_bear pending)
  reported := logged.reported
  gone := by
    intro exit seen other found here
    have before :
        exit ∈ tree.reports ∨ ∃ slot, tree.Pending slot exit :=
      seen.imp_right fun ⟨slot, pending⟩ => ⟨slot, pending_bear pending⟩
    rcases member_bear here with ⟨rfl, rfl⟩ | ⟨_, was⟩
    · have exited : exit ∈ tree.exits := by
        rcases before with reported | ⟨slot, pending⟩
        · exact logged.reported exit reported
        · exact (logged.pending pending).1
      exact Nat.ne_of_gt (logged.exited exit exited)
    · exact logged.gone before was
  once := logged.once
  single first second :=
    logged.single (pending_bear first) (pending_bear second)

theorem Logged.leave
    {adopter code : Int}
    (logged : Logged tree)
    (distinct : Distinct tree)
    (present : tree.member slot = some member)
    (runs : member.stage.Runs) :
    Logged (tree.leave adopter slot member code) where
  exits := by
    refine List.nodup_cons.mpr ⟨?_, logged.exits⟩
    intro again
    obtain ⟨exit, exited, same⟩ := List.mem_map.mp again
    exact logged.running present runs exit exited same
  exited exit exited := by
    rcases List.mem_cons.mp exited with rfl | earlier
    · exact distinct.older present
    · exact logged.exited exit earlier
  running := by
    intro other found here runs' exit exited
    obtain ⟨was, present', _, serial, _, _, stage⟩ := member_leave here
    rw [stage] at runs'
    split at runs'
    · exact runs'.elim
    · rename_i different
      rw [serial]
      rcases List.mem_cons.mp exited with rfl | earlier
      · intro same
        exact different (distinct.serials present' present same.symm)
      · exact logged.running present' runs' exit earlier
  ending := by
    intro other found code' here ends
    obtain ⟨was, present', pid, serial, _, _, stage⟩ := member_leave here
    rw [Member.exit, pid, serial]
    rw [stage] at ends
    split at ends
    · rename_i same
      subst same
      cases present.symm.trans present'
      rcases ends with same | never
      · cases same
        exact List.mem_cons_self
      · cases never
    · exact List.mem_cons_of_mem _ (logged.ending present' ends)
  pending := by
    intro other exit pending
    have before := logged.pending (pending_leave pending).2
    exact ⟨List.mem_cons_of_mem _ before.1, before.2⟩
  reported exit reported :=
    List.mem_cons_of_mem _ (logged.reported exit reported)
  gone := by
    intro exit seen other found here
    obtain ⟨was, present', _, serial, _⟩ := member_leave here
    rw [serial]
    exact logged.gone
      (seen.imp_right fun ⟨slot, pending⟩ =>
        ⟨slot, (pending_leave pending).2⟩) present'
  once := logged.once
  single first second :=
    logged.single (pending_leave first).2 (pending_leave second).2

theorem Logged.awaits
    {exit : Exit}
    (logged : Logged tree)
    (present : tree.member slot = some member)
    (living : member.stage = .living)
    (exited : exit ∈ tree.exits)
    (unreported : exit ∉ tree.reports)
    (nobody : ∀ other, ¬ tree.Pending other exit)
    (absent :
      ∀ other found, tree.member other = some found → found.serial ≠ exit.serial) :
    Logged (tree.put slot { member with stage := .reporting exit }) where
  exits := logged.exits
  exited := logged.exited
  running := by
    intro other found here runs
    rcases member_put here with ⟨rfl, rfl⟩ | ⟨_, was⟩
    · have before := logged.running present (living ▸ trivial)
      exact before
    · exact logged.running was runs
  ending := by
    intro other found code here ends
    rcases member_put here with ⟨rfl, rfl⟩ | ⟨_, was⟩
    · rcases ends with never | never
      · cases never
      · cases never
    · exact logged.ending was ends
  pending := by
    intro other other' pending
    rcases pending_put pending with ⟨_, same⟩ | ⟨_, before⟩
    · cases same
      exact ⟨exited, unreported⟩
    · exact logged.pending before
  reported := logged.reported
  gone := by
    intro exit' seen other found here
    have kept :
        ∃ was, tree.member other = some was ∧ found.serial = was.serial := by
      rcases member_put here with ⟨rfl, rfl⟩ | ⟨_, was⟩
      · exact ⟨member, present, rfl⟩
      · exact ⟨found, was, rfl⟩
    obtain ⟨was, present', serial⟩ := kept
    rw [serial]
    rcases seen with reported | ⟨user, pending⟩
    · exact logged.gone (Or.inl reported) present'
    · rcases pending_put pending with ⟨_, same⟩ | ⟨_, before⟩
      · cases same
        exact absent other was present'
      · exact logged.gone (Or.inr ⟨user, before⟩) present'
  once := logged.once
  single := by
    intro first second exit' here there
    rcases pending_put here with ⟨rfl, same⟩ | ⟨_, before⟩
    · cases same
      rcases pending_put there with ⟨rfl, _⟩ | ⟨_, before⟩
      · rfl
      · exact absurd before (nobody second)
    · rcases pending_put there with ⟨rfl, same⟩ | ⟨_, before'⟩
      · cases same
        exact absurd before (nobody first)
      · exact logged.single before before'

theorem Logged.reaps
    {child : ι} {zombie : Member} {code : Int}
    (logged : Logged tree)
    (distinct : Distinct tree)
    (present : tree.member slot = some member)
    (living : member.stage = .living)
    (exited : tree.member child = some zombie)
    (dead : zombie.stage = .dead code) :
    Logged
      ((tree.release child zombie).put slot
        { member with stage := .reporting (zombie.exit code) }) := by
  have fewer : Fades tree (tree.release child zombie) := fades_release
  refine (logged.fades fewer).awaits
    (present_release exited dead present living) living
    (logged.ending exited (Or.inr dead)) ?_ ?_ ?_
  · intro reported
    exact logged.gone (Or.inl reported) exited rfl
  · intro other pending
    exact logged.gone (Or.inr ⟨other, fewer.pending pending⟩) exited rfl
  · intro other found here same
    obtain ⟨different, was⟩ := member_release here
    exact different (distinct.serials was exited same)

theorem Logged.reports
    {exit : Exit}
    (logged : Logged tree)
    (present : tree.member slot = some member)
    (reporting : member.stage = .reporting exit) :
    Logged
      { tree.put slot { member with stage := .living } with
        reports := exit :: tree.reports } := by
  have pends : tree.Pending slot exit := ⟨member, present, reporting⟩
  have left :
      ∀ {other : ι} {exit' : Exit},
        (tree.put slot { member with stage := .living }).Pending other exit' →
          other ≠ slot ∧ tree.Pending other exit' := by
    intro other exit' pending
    rcases pending_put pending with ⟨_, never⟩ | before
    · cases never
    · exact before
  have kept :
      ∀ {other : ι} {found : Member},
        (tree.put slot { member with stage := .living }).member other =
            some found →
          ∃ was, tree.member other = some was ∧
            found.serial = was.serial ∧ found.pid = was.pid ∧
            (found.stage = was.stage ∨
              found.stage = .living ∧ was.stage = .reporting exit) := by
    intro other found here
    rcases member_put here with ⟨rfl, rfl⟩ | ⟨_, was⟩
    · exact ⟨member, present, rfl, rfl, Or.inr ⟨rfl, reporting⟩⟩
    · exact ⟨found, was, rfl, rfl, Or.inl rfl⟩
  constructor
  · exact logged.exits
  · exact logged.exited
  · intro other found here runs exit' exited
    obtain ⟨was, present', serial, _, same | ⟨_, was'⟩⟩ := kept here
    · rw [serial]
      exact logged.running present' (same ▸ runs) exit' exited
    · rw [serial]
      exact logged.running present' (was' ▸ trivial) exit' exited
  · intro other found code here ends
    obtain ⟨was, present', serial, pid, same | ⟨living, _⟩⟩ := kept here
    · rw [Member.exit, serial, pid]
      exact logged.ending present' (same ▸ ends)
    · rw [living] at ends
      rcases ends with never | never
      · cases never
      · cases never
  · intro other exit' pending
    obtain ⟨different, before⟩ := left pending
    refine ⟨(logged.pending before).1, ?_⟩
    intro reported
    rcases List.mem_cons.mp reported with rfl | earlier
    · exact different (logged.single before pends)
    · exact (logged.pending before).2 earlier
  · intro exit' reported
    rcases List.mem_cons.mp reported with rfl | earlier
    · exact (logged.pending pends).1
    · exact logged.reported exit' earlier
  · intro exit' seen other found here
    obtain ⟨was, present', serial, _⟩ := kept here
    rw [serial]
    refine logged.gone ?_ present'
    rcases seen with reported | ⟨user, pending⟩
    · rcases List.mem_cons.mp reported with rfl | earlier
      · exact Or.inr ⟨slot, pends⟩
      · exact Or.inl earlier
    · exact Or.inr ⟨user, (left pending).2⟩
  · exact List.nodup_cons.mpr ⟨(logged.pending pends).2, logged.once⟩
  · intro first second exit' here there
    exact logged.single (left here).2 (left there).2

/-- The step lemma: exits are reported at most once. -/
theorem Logged.step
    {adopter : Int} {event : Event ι}
    (logged : Logged tree)
    (distinct : Distinct tree)
    (stepped : Step adopter event tree after) :
    Logged after := by
  cases stepped with
  | bears present living empty fresh free =>
    exact logged.bear
  | exits present runs =>
    exact logged.leave distinct present runs
  | dies present closing father =>
    exact logged.fades (fades_dies present closing)
  | vanishes present closing fatherless =>
    exact logged.fades fades_release
  | reaps present living exited dead father =>
    exact logged.reaps distinct present living exited dead
  | reports present reporting =>
    exact logged.reports present reporting

end LogSteps

/-- The serial numbers of the reports are different. -/
theorem Logged.serials
    {tree : Tree ι}
    (logged : Logged tree) :
    (tree.reports.map Exit.serial).Nodup := by
  refine List.Nodup.map_on ?_ logged.once
  intro first reported second reported' same
  exact List.inj_on_of_nodup_map logged.exits
    (logged.reported first reported) (logged.reported second reported') same

/-! ## Slots and pages -/

section Slots

variable [DecidableEq ι] {adopter : Int} {tree after : Tree ι}
variable {slot : ι} {member : Member}

/-- A father reaps the process in this slot. -/
structure Reaped
    (father slot : ι)
    (member : Member)
    (tree after : Tree ι) : Prop where
  dead : ∃ code, member.stage = .dead code ∧ after.Pending father (member.exit code)
  father :
    ∃ found, tree.member father = some found ∧ member.father = found.pid
  empty : after.member slot = none
  free : after.held member.page = false

theorem reaped_of_reaps
    {father : ι} {found : Member} {code : Int}
    (present : tree.member father = some found)
    (living : found.stage = .living)
    (exited : tree.member slot = some member)
    (dead : member.stage = .dead code)
    (child : member.father = found.pid) :
    Reaped father slot member tree
      ((tree.release slot member).put father
        { found with stage := .reporting (member.exit code) }) where
  dead := ⟨code, dead, _, Function.update_self _ _ _, rfl⟩
  father := ⟨found, present, child⟩
  empty := by
    have different : slot ≠ father := by
      rintro rfl
      cases present.symm.trans exited
      rw [living] at dead
      cases dead
    simp only [put, Function.update_of_ne different, release, Function.update_self]
  free := Function.update_self _ _ _

/-- A process keeps its slot until it vanishes or is reaped. -/
theorem Step.kept_or_reaped
    {event : Event ι}
    (stepped : Step adopter event tree after)
    (found : tree.member slot = some member) :
    (∃ now, after.member slot = some now ∧ now.serial = member.serial ∧
      now.page = member.page) ∨
    event = .vanishes slot ∨
    ∃ father, Reaped father slot member tree after := by
  have kept_put :
      ∀ {other : ι} {was : Member} {stage : Stage},
        tree.member other = some was →
          ∃ now, (tree.put other { was with stage := stage }).member slot =
              some now ∧
            now.serial = member.serial ∧ now.page = member.page := by
    intro other was stage present
    by_cases same : slot = other
    · subst same
      cases present.symm.trans found
      exact ⟨_, Function.update_self _ _ _, rfl, rfl⟩
    · exact ⟨member, (Function.update_of_ne same _ _).trans found, rfl, rfl⟩
  cases stepped with
  | @bears _ _ child _ _ _ present living empty fresh free =>
    have different : slot ≠ child := by
      rintro rfl
      cases empty.symm.trans found
    exact Or.inl ⟨member, (Function.update_of_ne different _ _).trans found, rfl, rfl⟩
  | exits present runs =>
    exact Or.inl ⟨_, congrArg (Option.map _) found, rfl, rfl⟩
  | dies present closing father =>
    exact Or.inl (kept_put present)
  | @vanishes _ other _ _ present closing fatherless =>
    by_cases same : slot = other
    · subst same
      exact Or.inr (Or.inl rfl)
    · exact Or.inl ⟨member, (Function.update_of_ne same _ _).trans found, rfl, rfl⟩
  | @reaps _ father child _ zombie code present living exited dead fathered =>
    by_cases same : slot = child
    · subst same
      cases exited.symm.trans found
      exact Or.inr (Or.inr ⟨father,
        reaped_of_reaps present living exited dead fathered⟩)
    · refine Or.inl ?_
      by_cases self : slot = father
      · subst self
        cases present.symm.trans found
        exact ⟨_, Function.update_self _ _ _, rfl, rfl⟩
      · refine ⟨member, ?_, rfl, rfl⟩
        simp only [put, Function.update_of_ne self, release, Function.update_of_ne same]
        exact found
  | reports present reporting =>
    exact Or.inl (kept_put present)

/-- What a father has to report it has reaped. -/
theorem Step.pending
    {event : Event ι} {exit : Exit}
    (stepped : Step adopter event tree after)
    (pending : after.Pending slot exit) :
    tree.Pending slot exit ∨
      ∃ child zombie code, tree.member child = some zombie ∧
        Reaped slot child zombie tree after ∧ exit = zombie.exit code ∧
        zombie.stage = .dead code := by
  cases stepped with
  | bears present living empty fresh free =>
    exact Or.inl (pending_bear pending)
  | exits present runs =>
    exact Or.inl (pending_leave pending).2
  | dies present closing father =>
    exact Or.inl ((fades_dies present closing).pending pending)
  | vanishes present closing fatherless =>
    exact Or.inl (fades_release.pending pending)
  | @reaps _ _ child _ zombie code present living exited dead father =>
    rcases pending_put pending with ⟨rfl, same⟩ | ⟨_, before⟩
    · cases same
      exact Or.inr ⟨child, zombie, code, exited,
        reaped_of_reaps present living exited dead father, rfl, dead⟩
    · exact Or.inl (fades_release.pending before)
  | reports present reporting =>
    rcases pending_put pending with ⟨_, never⟩ | ⟨_, before⟩
    · cases never
    · exact Or.inl before

end Slots

/-! ## Fathers -/

/-- The process with this number runs, in another slot than `idle`. -/
def HasFather (idle : ι) (father : Int) (tree : Tree ι) : Prop :=
  ∃ slot member, tree.member slot = some member ∧ slot ≠ idle ∧
    member.pid = father ∧ member.stage.Runs

/-- The idle process is there. -/
def HasIdle (idle : ι) (tree : Tree ι) : Prop :=
  ∃ member, tree.member idle = some member ∧ member.pid = 0 ∧ member.stage = .living

/--
The process in slot `init` has the number `adopter` and is a child of the idle one,
and all others have a father that runs.
-/
structure Rooted (idle init : ι) (adopter : Int) (tree : Tree ι) : Prop where
  apart : init ≠ idle
  hasIdle : tree.HasIdle idle
  root :
    ∃ member, tree.member init = some member ∧ member.pid = adopter ∧
      member.father = 0 ∧ member.stage.Runs
  fathers :
    ∀ {slot : ι} {member : Member},
      tree.member slot = some member → slot ≠ idle → slot ≠ init →
        tree.HasFather idle member.father

/-- There is the idle process only. -/
structure Alone (idle : ι) (tree : Tree ι) : Prop where
  hasIdle : tree.HasIdle idle
  empty : ∀ {slot : ι}, slot ≠ idle → tree.member slot = none

namespace Rooted

variable {idle init slot : ι} {adopter : Int} {tree after : Tree ι}
variable {member : Member}

/-- The root adopts. -/
theorem adopts
    (rooted : Rooted idle init adopter tree) :
    tree.HasFather idle adopter := by
  obtain ⟨member, present, pid, _, runs⟩ := rooted.root
  exact ⟨init, member, present, rooted.apart, pid, runs⟩

theorem pid_ne_zero
    (rooted : Rooted idle init adopter tree)
    (distinct : Distinct tree)
    (present : tree.member slot = some member)
    (busy : slot ≠ idle) :
    member.pid ≠ 0 := by
  intro zero
  obtain ⟨other, there, pid, _⟩ := rooted.hasIdle
  exact busy (distinct.pids present there (zero.trans pid.symm))

/-- An exited process is neither the idle one nor the root. -/
theorem exited_slot
    (rooted : Rooted idle init adopter tree)
    (present : tree.member slot = some member)
    (exited : ¬ member.stage.Runs) :
    slot ≠ idle ∧ slot ≠ init := by
  constructor
  · rintro rfl
    obtain ⟨other, there, _, living⟩ := rooted.hasIdle
    cases there.symm.trans present
    exact exited (living ▸ trivial)
  · rintro rfl
    obtain ⟨other, there, _, _, runs⟩ := rooted.root
    cases there.symm.trans present
    exact exited runs

/-- The branch in which no father is found. -/
theorem father_found
    (rooted : Rooted idle init adopter tree)
    (distinct : Distinct tree)
    (present : tree.member slot = some member)
    (exited : ¬ member.stage.Runs) :
    member.father ≠ 0 ∧ tree.HasPid member.father := by
  obtain ⟨busy, notInit⟩ := rooted.exited_slot present exited
  obtain ⟨other, father, there, busy', pid, _⟩ :=
    rooted.fathers present busy notInit
  refine ⟨?_, other, father, there, pid⟩
  rw [← pid]
  exact rooted.pid_ne_zero distinct there busy'

/-- No process vanishes. -/
theorem not_vanishes
    [DecidableEq ι]
    (rooted : Rooted idle init adopter tree)
    (distinct : Distinct tree)
    (stepped : Step adopter (.vanishes slot) tree after) :
    False := by
  cases stepped with
  | @vanishes _ _ member code present closing fatherless =>
    have exited : ¬ member.stage.Runs := by
      rw [closing]
      exact id
    obtain ⟨child, has⟩ := rooted.father_found distinct present exited
    rcases fatherless with zero | nobody
    · exact child zero
    · exact nobody has

/-- What has to be shown of a step that no running process exits in. -/
theorem of_kept
    (rooted : Rooted idle init adopter tree)
    (runs :
      ∀ other found, tree.member other = some found → found.stage.Runs →
        ∃ now, after.member other = some now ∧ now.pid = found.pid ∧
          now.father = found.father ∧ now.stage.Runs)
    (hasIdle : after.HasIdle idle)
    (fathers :
      ∀ other found, after.member other = some found → other ≠ idle →
        other ≠ init → tree.HasFather idle found.father) :
    Rooted idle init adopter after where
  apart := rooted.apart
  hasIdle := hasIdle
  root := by
    obtain ⟨member, present, pid, father, running⟩ := rooted.root
    obtain ⟨now, here, pid', father', running'⟩ :=
      runs init member present running
    exact ⟨now, here, pid'.trans pid, father'.trans father, running'⟩
  fathers := by
    intro other found here busy notInit
    obtain ⟨place, father, there, busy', pid, running⟩ :=
      fathers other found here busy notInit
    obtain ⟨now, here', pid', _, running'⟩ := runs place father there running
    exact ⟨place, now, here', busy', pid'.trans pid, running'⟩

section Steps

variable [DecidableEq ι]

/-- A process other than the idle one goes on to another stage. -/
theorem put
    (rooted : Rooted idle init adopter tree)
    (present : tree.member slot = some member)
    (busy : slot ≠ idle)
    (stage : Stage)
    (running : member.stage.Runs → stage.Runs) :
    Rooted idle init adopter
      (tree.put slot { member with stage := stage }) := by
  refine rooted.of_kept ?_ ?_ ?_
  · intro other found there runs
    by_cases same : other = slot
    · subst same
      cases present.symm.trans there
      exact ⟨_, Function.update_self _ _ _, rfl, rfl, running runs⟩
    · exact ⟨found, (Function.update_of_ne same _ _).trans there, rfl, rfl, runs⟩
  · obtain ⟨other, there, rest⟩ := rooted.hasIdle
    exact ⟨other, (Function.update_of_ne busy.symm _ _).trans there, rest⟩
  · intro other found here busy' notInit
    rcases member_put here with ⟨rfl, rfl⟩ | ⟨_, was⟩
    · have father := rooted.fathers present busy notInit
      exact father
    · exact rooted.fathers was busy' notInit

theorem release
    (rooted : Rooted idle init adopter tree)
    (present : tree.member slot = some member)
    (exited : ¬ member.stage.Runs) :
    Rooted idle init adopter (tree.release slot member) := by
  refine rooted.of_kept ?_ ?_ ?_
  · intro other found there runs
    have different : other ≠ slot := by
      rintro rfl
      cases present.symm.trans there
      exact exited runs
    exact ⟨found, (Function.update_of_ne different _ _).trans there, rfl, rfl, runs⟩
  · obtain ⟨other, there, rest⟩ := rooted.hasIdle
    have busy := (rooted.exited_slot present exited).1
    exact ⟨other, (Function.update_of_ne busy.symm _ _).trans there, rest⟩
  · intro other found here busy notInit
    exact rooted.fathers (member_release here).2 busy notInit

theorem bear
    {child : ι} {pid : Int} {page : Nat}
    (rooted : Rooted idle init adopter tree)
    (present : tree.member slot = some member)
    (busy : slot ≠ idle)
    (runs : member.stage.Runs)
    (empty : tree.member child = none) :
    Rooted idle init adopter (tree.bear child pid member.pid page) := by
  have kept :
      ∀ other found, tree.member other = some found →
        (tree.bear child pid member.pid page).member other = some found := by
    intro other found there
    have different : other ≠ child := by
      rintro rfl
      cases empty.symm.trans there
    exact (Function.update_of_ne different _ _).trans there
  refine rooted.of_kept ?_ ?_ ?_
  · intro other found there runs
    exact ⟨found, kept other found there, rfl, rfl, runs⟩
  · obtain ⟨other, there, rest⟩ := rooted.hasIdle
    exact ⟨other, kept idle other there, rest⟩
  · intro other found here busy' notInit
    rcases member_bear here with ⟨rfl, rfl⟩ | ⟨_, was⟩
    · exact ⟨slot, member, present, busy, rfl, runs⟩
    · exact rooted.fathers was busy' notInit

/-- The children of a process that exits are adopted before it dies. -/
theorem leave
    {code : Int}
    (rooted : Rooted idle init adopter tree)
    (distinct : Distinct tree)
    (present : tree.member slot = some member)
    (busy : slot ≠ idle)
    (notInit : slot ≠ init) :
    Rooted idle init adopter (tree.leave adopter slot member code) := by
  have others :
      ∀ other found, tree.member other = some found → other ≠ slot →
        ∃ now, (tree.leave adopter slot member code).member other = some now ∧
          now.pid = found.pid ∧ now.stage = found.stage ∧
          (found.father ≠ member.pid → now.father = found.father) := by
    intro other found there different
    refine ⟨_, congrArg (Option.map _) there, rfl, if_neg different, ?_⟩
    intro foreign
    exact if_neg foreign
  have fathered :
      ∀ father, tree.HasFather idle father → father ≠ member.pid →
        (tree.leave adopter slot member code).HasFather idle father := by
    rintro father ⟨other, found, there, busy', pid, runs⟩ foreign
    have different : other ≠ slot := by
      rintro rfl
      cases present.symm.trans there
      exact foreign pid.symm
    obtain ⟨now, here, pid', stage, _⟩ := others other found there different
    exact ⟨other, now, here, busy', pid'.trans pid, stage ▸ runs⟩
  have adopterPid : adopter ≠ member.pid := by
    obtain ⟨root, there, pid, _⟩ := rooted.root
    intro same
    exact notInit (distinct.pids present there (same ▸ pid.symm))
  constructor
  · exact rooted.apart
  · obtain ⟨found, there, pid, living⟩ := rooted.hasIdle
    obtain ⟨now, here, pid', stage, _⟩ := others idle found there busy.symm
    exact ⟨now, here, pid'.trans pid, stage.trans living⟩
  · obtain ⟨found, there, pid, father, runs⟩ := rooted.root
    obtain ⟨now, here, pid', stage, kept⟩ :=
      others init found there notInit.symm
    have foreign : found.father ≠ member.pid := by
      rw [father]
      exact (rooted.pid_ne_zero distinct present busy).symm
    exact ⟨now, here, pid'.trans pid, (kept foreign).trans father, stage ▸ runs⟩
  · intro other found here busy' notInit'
    obtain ⟨was, there, _, _, _, father, _⟩ := member_leave here
    rw [father]
    split
    · exact fathered adopter rooted.adopts adopterPid
    · rename_i foreign
      exact fathered _ (rooted.fathers there busy' notInit') foreign

/-- The idle process does not fork, and the root does not exit. -/
def Allowed (idle init : ι) (event : Event ι) : Prop :=
  match event with
  | .bears parent _ => parent ≠ idle
  | .exits slot => slot ≠ idle ∧ slot ≠ init
  | .reaps slot _ => slot ≠ idle
  | _ => True

/-- The step lemma: every process keeps a father that runs. -/
theorem step
    {event : Event ι}
    (rooted : Rooted idle init adopter tree)
    (distinct : Distinct tree)
    (stepped : Step adopter event tree after)
    (allowed : Allowed idle init event) :
    Rooted idle init adopter after := by
  cases stepped with
  | bears present living empty fresh free =>
    exact rooted.bear present allowed (living ▸ trivial) empty
  | exits present runs =>
    exact rooted.leave distinct present allowed.1 allowed.2
  | @dies _ _ member code present closing father =>
    have exited : ¬ member.stage.Runs := by
      rw [closing]
      exact id
    exact rooted.put present (rooted.exited_slot present exited).1 _
      fun runs => absurd runs exited
  | @vanishes _ _ member code present closing fatherless =>
    have exited : ¬ member.stage.Runs := by
      rw [closing]
      exact id
    exact rooted.release present exited
  | @reaps _ _ child member zombie code present living exited dead father =>
    have ended : ¬ zombie.stage.Runs := by
      rw [dead]
      exact id
    exact (rooted.release exited ended).put
      (present_release exited dead present living) allowed _
        fun _ => trivial
  | @reports _ slot member exit present reporting =>
    have busy : slot ≠ idle := by
      rintro rfl
      obtain ⟨other, there, _, living⟩ := rooted.hasIdle
      cases there.symm.trans present
      rw [living] at reporting
      cases reporting
    have moved := rooted.put present busy .living fun _ => trivial
    exact ⟨moved.apart, moved.hasIdle, moved.root, moved.fathers⟩

end Steps

end Rooted

/-- The idle process does nothing but fork. -/
theorem Alone.no_step
    [DecidableEq ι]
    {idle init : ι} {adopter : Int} {tree after : Tree ι} {event : Event ι}
    (alone : Alone idle tree)
    (stepped : Step adopter event tree after)
    (allowed : Rooted.Allowed idle init event) :
    False := by
  have only :
      ∀ {slot : ι} {member : Member}, tree.member slot = some member →
        slot = idle ∧ member.stage = .living := by
    intro slot member present
    by_cases same : slot = idle
    · subst same
      obtain ⟨found, there, _, living⟩ := alone.hasIdle
      cases there.symm.trans present
      exact ⟨rfl, living⟩
    · cases (alone.empty same).symm.trans present
  cases stepped with
  | bears present living empty fresh free =>
    exact allowed (only present).1
  | exits present runs =>
    exact allowed.1 (only present).1
  | dies present closing father =>
    cases closing.symm.trans (only present).2
  | vanishes present closing fatherless =>
    cases closing.symm.trans (only present).2
  | reaps present living exited dead father =>
    cases dead.symm.trans (only exited).2
  | reports present reporting =>
    cases reporting.symm.trans (only present).2

/-- The first process makes a rooted tree. -/
theorem Alone.bear
    [DecidableEq ι]
    {idle init : ι} {adopter : Int} {page : Nat} {tree : Tree ι}
    {member : Member}
    (alone : Alone idle tree)
    (present : tree.member idle = some member)
    (apart : init ≠ idle) :
    Rooted idle init adopter (tree.bear init adopter member.pid page) := by
  obtain ⟨found, there, pid, living⟩ := alone.hasIdle
  cases there.symm.trans present
  constructor
  · exact apart
  · exact ⟨member, (Function.update_of_ne apart.symm _ _).trans present, pid, living⟩
  · exact ⟨_, Function.update_self _ _ _, rfl, pid, trivial⟩
  · intro slot member here busy notInit
    rcases member_bear here with ⟨rfl, _⟩ | ⟨_, was⟩
    · exact absurd rfl notInit
    · cases (alone.empty busy).symm.trans was

end Tree

end ProcessTree

end HitOs
