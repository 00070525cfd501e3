import HitOs.PathResolution

namespace HitOs

/-!
# The tree below the root

`sys_chdir` keeps what the kernel shows, and `namei` finds nothing that is not below
`current->root`, whatever is mounted there and wherever `sys_chdir` has led the process.
-/

namespace Paths

open Routine
open Zones (nameLen matchEntry entryInode isDir)
open Inodes (Index rootIno)

namespace Graph

/-- A directory has an entry other than `.` and `..` for an inode. -/
def Entry (g : Graph) (dir child : Key) : Prop :=
  isDir (g.inode dir).mode = true ∧
    ∃ name de, 0 ∉ name ∧ name ≠ dot ∧ name ≠ dotDot ∧
      matchEntry name (g.data dir) de = true ∧
        child = (dir.1, entryInode (g.data dir) de)

/-- Such an entry leads to an inode, perhaps through a mount point. -/
def Leads (g : Graph) (dir next : Key) : Prop :=
  ∃ child, g.Entry dir child ∧ g.arrive (nrSuper + 1) child = some next

/-- What such entries lead to from the root. -/
def Below (g : Graph) : Key → Prop :=
  Relation.ReflTransGen g.Leads g.root

/--
The `..` of a directory names the only one with an entry for it, and devices are mounted
on directories other than roots.
-/
structure Tree (g : Graph) : Prop where
  self :
    ∀ dir de, isDir (g.inode dir).mode = true →
      matchEntry dot (g.data dir) de = true → entryInode (g.data dir) de = dir.2
  parent :
    ∀ dir child, g.Entry dir child → isDir (g.inode child).mode = true →
      child.2 ≠ rootIno ∧
        ∀ de, matchEntry dotDot (g.data child) de = true →
          entryInode (g.data child) de = dir.2
  mounted :
    ∀ key dev, g.covers key = some dev →
      isDir (g.inode key).mode = true ∧ key.2 ≠ rootIno ∧ g.covered dev = some key
  root :
    g.covers g.root = none

variable {g : Graph} {key next : Key} {name path : List UInt8}

/-! ## One lookup -/

theorem arrive_uncovered
    (uncovered : g.covers key = none) :
    g.arrive (nrSuper + 1) key = some key := by
  rw [arrive, uncovered]

/-- No device is mounted on a root, so there is one mount point at most. -/
theorem Tree.arrive
    (tree : g.Tree)
    (arrives : g.arrive (nrSuper + 1) key = some next) :
    g.covers next = none ∧
      (next = key ∨
        ∃ dev, g.covers key = some dev ∧ next = (dev, rootIno)) := by
  cases covers : g.covers key with
  | none =>
    cases (arrive_uncovered covers).symm.trans arrives
    exact ⟨covers, Or.inl rfl⟩
  | some dev =>
    have top : g.covers (dev, rootIno) = none := by
      by_contra again
      obtain ⟨other, covers⟩ := Option.ne_none_iff_exists'.mp again
      exact (tree.mounted _ other covers).2.1 rfl
    rw [Graph.arrive, covers] at arrives
    simp only [Graph.arrive, top] at arrives
    cases arrives
    exact ⟨top, Or.inr ⟨dev, rfl, rfl⟩⟩

/-- A name is looked up in the directory itself, or `..` in the one that it covers. -/
theorem Below.searched
    (tree : g.Tree)
    (below : g.Below key)
    (directory : isDir (g.inode key).mode = true)
    (noZero : 0 ∉ name) :
    (∃ name', name' ≠ dotDot ∧ 0 ∉ name' ∧ g.searched key name = (key, name')) ∨
      ∃ dir child, g.Below dir ∧ g.Entry dir child ∧
        isDir (g.inode child).mode = true ∧
          g.searched key name = (child, dotDot) := by
  unfold Graph.searched
  by_cases up : name = dotDot
  · rw [if_pos up, up]
    by_cases isRoot : key = g.root
    · rw [if_pos isRoot]
      exact Or.inl ⟨dot, by decide, by decide, rfl⟩
    rw [if_neg isRoot]
    cases below with
    | refl =>
      exact absurd rfl isRoot
    | @tail dir _ below leads =>
      obtain ⟨child, entry, arrives⟩ := leads
      refine Or.inr ⟨dir, child, below, entry, ?_⟩
      rcases (tree.arrive arrives).2 with rfl | ⟨dev, covers, rfl⟩
      · rw [if_neg (tree.parent dir key entry directory).1]
        exact ⟨directory, rfl⟩
      · obtain ⟨mountPoint, _, covered⟩ := tree.mounted child dev covers
        rw [if_pos rfl, covered]
        exact ⟨mountPoint, rfl⟩
  · rw [if_neg up]
    exact Or.inl ⟨name, up, noZero, rfl⟩

theorem Below.arrive
    (tree : g.Tree)
    (below : g.Below key)
    (arrives : g.arrive (nrSuper + 1) key = some next) :
    g.Below next := by
  have uncovered : g.covers key = none := by
    cases below with
    | refl =>
      exact tree.root
    | tail _ leads =>
      exact (tree.arrive leads.choose_spec.2).1
  cases (arrive_uncovered uncovered).symm.trans arrives
  exact below

/-- One lookup does not lead out of the tree. -/
theorem Below.lookup
    (tree : g.Tree)
    (below : g.Below key)
    (directory : isDir (g.inode key).mode = true)
    (noZero : 0 ∉ name)
    (found : g.lookup key name = some next) :
    g.Below next := by
  unfold Graph.lookup at found
  obtain ⟨de, entry, arrives⟩ := Option.bind_eq_some_iff.mp found
  unfold Graph.entry at entry
  unfold follow at arrives
  rcases below.searched tree directory (mt List.mem_of_mem_take noZero) with
    ⟨name', up, noZero, searched⟩ | ⟨dir, child, below, isEntry, isDir', searched⟩
  all_goals
    rw [searched] at entry arrives
    simp only at entry arrives
    split_ifs at entry
    have matched := List.find?_some entry
  · by_cases self : name' = dot
    · rw [tree.self key de directory (self ▸ matched)] at arrives
      exact below.arrive tree arrives
    · exact .tail below
        ⟨_, ⟨directory, name', de, noZero, self, up, matched, rfl⟩, arrives⟩
  · rw [(tree.parent dir child isEntry isDir').2 de matched] at arrives
    obtain ⟨_, _, _, _, _, _, _, rfl⟩ := isEntry
    exact below.arrive tree arrives

/-! ## Paths -/

theorem Below.walk
    (tree : g.Tree)
    {names : List (List UInt8)}
    (below : g.Below key)
    (noZero : ∀ name ∈ names, 0 ∉ name)
    (found : g.walk key names = some next) :
    g.Below next ∧ g.searchable next = true := by
  induction names generalizing key with
  | nil =>
    rw [walk_nil] at found
    split_ifs at found with allowed
    cases found
    exact ⟨below, allowed⟩
  | cons name names inductionHypothesis =>
    rw [walk_cons] at found
    split_ifs at found with allowed
    obtain ⟨middle, looked, rest⟩ := Option.bind_eq_some_iff.mp found
    obtain ⟨first, others⟩ := List.forall_mem_cons.mp noZero
    exact inductionHypothesis
      (below.lookup tree (Bool.and_eq_true_iff.mp allowed).1 first looked) others
      rest

theorem noZero_pieces
    (noZero : 0 ∉ path)
    (member : name ∈ pieces path) :
    0 ∉ name := by
  have whole : [slash].intercalate (pieces path) = path :=
    List.intercalate_splitOn slash
  obtain ⟨i, there⟩ := List.mem_iff_getElem?.mp member
  rw [← List.getElem?_intersperse_two_mul] at there
  rw [← whole] at noZero
  exact fun zero =>
    noZero (List.mem_flatten.mpr ⟨name, List.mem_of_getElem? there, zero⟩)

/-- The names of a path have no zeros. -/
theorem noZero_start
    (g : Graph)
    (noZero : 0 ∉ path) :
    (∀ name ∈ dirNames (g.start path).2, 0 ∉ name) ∧ 0 ∉ baseName path := by
  have all : ∀ name ∈ pieces (g.start path).2, 0 ∉ name := by
    intro name
    apply noZero_pieces
    unfold Graph.start
    split_ifs
    · exact mt List.mem_of_mem_tail noZero
    · exact noZero
  rw [← dirNames_append, List.forall_mem_append] at all
  exact ⟨all.1, all.2 _ List.mem_cons_self⟩

theorem Below.resolve
    (tree : g.Tree)
    (pwd : g.Below g.pwd)
    (noZero : 0 ∉ path)
    (found : g.resolve path = some next) :
    g.Below next := by
  obtain ⟨names, base⟩ := noZero_start g noZero
  have start : g.Below (g.start path).1 := by
    unfold Graph.start
    split_ifs
    · exact .refl
    · exact pwd
  obtain ⟨dir, directory, last⟩ := Option.bind_eq_some_iff.mp found
  unfold Graph.directory at directory
  split_ifs at directory
  obtain ⟨below, allowed⟩ := start.walk tree names directory
  split_ifs at last
  · cases last
    exact below
  · exact below.lookup tree (Bool.and_eq_true_iff.mp allowed).1 base last

theorem links_of_searchable
    (allowed : g.searchable key = true) :
    (g.inode key).nlinks ≠ 0 := by
  unfold searchable mayEnter at allowed
  rw [Bool.and_eq_true, Bool.and_eq_true] at allowed
  exact bne_iff_ne.mp allowed.2.1

/-- What a path leads to has links. -/
theorem Linked.resolve
    (linked : g.Linked)
    (found : g.resolve path = some next) :
    (g.inode next).nlinks ≠ 0 := by
  obtain ⟨dir, directory, last⟩ := Option.bind_eq_some_iff.mp found
  by_cases empty : baseName path = []
  · rw [if_pos empty] at last
    cases last
    unfold Graph.directory at directory
    split_ifs at directory
    unfold Graph.walk at directory
    exact links_of_searchable (Option.filter_eq_some_iff.mp directory).2
  · rw [if_neg empty] at last
    exact linked _ _ _ last

/-- What `sys_chdir` returns, and what it makes of `pwd`. -/
def chdir (g : Graph) (path : List UInt8) : Int × Key :=
  match g.resolve path with
  | none => (-2, g.pwd)
  | some key => if isDir (g.inode key).mode then (0, key) else (-20, g.pwd)

end Graph

/-! ## `pwd` and `iput` -/

/-- A routine that neither reads `pwd` nor changes it. -/
def IgnoresPwd {α : Type} (routine : Routine Kernel α) : Prop :=
  ∀ kernel pwd returned abandoned,
    routine.Satisfies (kernel.setPwd pwd) returned abandoned →
      routine.Satisfies kernel
        (fun value after => returned value (after.setPwd pwd))
        (fun after => abandoned (after.setPwd pwd))

section Ignores

variable {α β : Type} {index : Index}

theorem ignoresPwd_pure
    (value : α) :
    IgnoresPwd (pure value) :=
  fun _ _ _ _ satisfied => satisfied

theorem ignoresPwd_panic
    (message : String) :
    IgnoresPwd (Routine.panic message : Routine Kernel α) :=
  fun _ _ _ _ satisfied => satisfied

theorem ignoresPwd_update
    {change : Kernel → Kernel}
    (same :
      ∀ kernel pwd, change (kernel.setPwd pwd) = (change kernel).setPwd pwd) :
    IgnoresPwd (update change) := by
  intro kernel pwd returned abandoned satisfied
  rw [satisfies_update] at satisfied ⊢
  rwa [same] at satisfied

theorem IgnoresPwd.bind
    {first : Routine Kernel α} {next : α → Routine Kernel β}
    (ignores : IgnoresPwd first)
    (rest : ∀ value, IgnoresPwd (next value)) :
    IgnoresPwd (first >>= next) := by
  intro kernel pwd returned abandoned satisfied
  rw [satisfies_bind] at satisfied ⊢
  exact (ignores _ _ _ _ satisfied).mono
    (fun value after => rest value after pwd returned abandoned) (fun _ => id)

theorem ignoresPwd_read
    {next : Kernel → Routine Kernel β}
    (same : ∀ kernel pwd, next (kernel.setPwd pwd) = next kernel)
    (rest : ∀ kernel, IgnoresPwd (next kernel)) :
    IgnoresPwd (read >>= next) := by
  intro kernel pwd returned abandoned satisfied
  rw [satisfies_bind, satisfies_read] at satisfied ⊢
  rw [same] at satisfied
  exact rest kernel kernel pwd returned abandoned satisfied

theorem ignoresPwd_writeInode : IgnoresPwd (writeInode index) := by
  unfold writeInode
  refine ignoresPwd_read (fun _ _ => rfl) fun kernel => ?_
  dsimp only
  split_ifs
  · exact ignoresPwd_pure _
  · split
    · exact ignoresPwd_panic _
    · exact ignoresPwd_update fun _ _ => rfl

theorem ignoresPwd_syncEach
    (indices : List Index) :
    IgnoresPwd (syncEach indices) := by
  induction indices with
  | nil =>
    exact ignoresPwd_pure _
  | cons index rest inductionHypothesis =>
    refine ignoresPwd_read (fun _ _ => rfl) fun kernel => ?_
    split
    · exact ignoresPwd_writeInode.bind fun _ => inductionHypothesis
    · exact inductionHypothesis

theorem ignoresPwd_truncate : IgnoresPwd (truncate index) := by
  refine ignoresPwd_read (fun _ _ => rfl) fun kernel => ?_
  split
  · exact ignoresPwd_update fun _ _ => rfl
  · exact ignoresPwd_pure _

theorem ignoresPwd_freeInode : IgnoresPwd (freeInode index) := by
  refine ignoresPwd_read (fun _ _ => rfl) fun kernel => ?_
  have clears : IgnoresPwd (update (Kernel.set index .zero)) :=
    ignoresPwd_update fun _ _ => rfl
  dsimp only
  split_ifs
  · exact clears
  · exact ignoresPwd_panic _
  · exact ignoresPwd_panic _
  · split
    · exact ignoresPwd_panic _
    · split_ifs
      · exact ignoresPwd_panic _
      · exact ignoresPwd_panic _
      · exact clears

theorem ignoresPwd_repeatPut : IgnoresPwd (repeatPut index) := by
  refine ignoresPwd_read (fun _ _ => rfl) fun kernel => ?_
  have lowers : IgnoresPwd (update (Kernel.lower index)) :=
    ignoresPwd_update fun _ _ => rfl
  dsimp only
  split_ifs
  · exact lowers
  · exact ignoresPwd_truncate.bind fun _ => ignoresPwd_freeInode
  · exact ignoresPwd_writeInode.bind fun _ => lowers

theorem ignoresPwd_iput : IgnoresPwd (iput index) := by
  refine ignoresPwd_read (fun _ _ => rfl) fun kernel => ?_
  have lowers : IgnoresPwd (update (Kernel.lower index)) :=
    ignoresPwd_update fun _ _ => rfl
  dsimp only
  split_ifs
  · exact ignoresPwd_panic _
  · exact ignoresPwd_update fun _ _ => rfl
  · exact lowers
  · exact lowers
  · exact (ignoresPwd_syncEach _).bind fun _ => ignoresPwd_repeatPut
  · exact ignoresPwd_repeatPut

end Ignores

/-! ## `sys_chdir` -/

variable {g : Graph} {kernel kernel' : Kernel} {path : List UInt8}

/--
The kernel shows the graph, and what `pwd` refers to is there to be given back: it has
links, and the references of `root` and of the mount point, if it is one, are others.
-/
structure Stands (g : Graph) (kernel : Kernel) : Prop where
  shows :
    Shows g kernel
  links :
    (g.inode g.pwd).nlinks ≠ 0
  own :
    (kernel.root = kernel.pwd ∨ ∃ slot, (kernel.super slot).imount = some kernel.pwd) →
      1 < (kernel.inode kernel.pwd).count

/-- More references are no harm. -/
theorem At.stands
    {extra : List Index}
    (moment : At g kernel extra kernel')
    (stands : Stands g kernel) :
    Stands g kernel' where
  shows := moment.shows
  links := stands.links
  own := by
    obtain ⟨super, root, pwd⟩ := moment.steady
    rw [super, root, pwd, moment.count]
    exact fun others => Nat.lt_of_lt_of_le (stands.own others) (Nat.le_add_right _ _)

/-- A reference that is there can be taken for one that is held. -/
theorem Shows.holding
    {index : Index}
    (shows : Shows g kernel)
    (used : 0 < (kernel.inode index).count)
    (several : kernel.Pinned index → 1 < (kernel.inode index).count) :
    At g (kernel.lower index) [index] kernel where
  shows := shows
  count other := by
    rw [Kernel.lower, setCount_count, List.count_singleton]
    by_cases this : other = index
    · rw [if_pos this, this, beq_self_eq_true, if_pos rfl]
      omega
    · rw [if_neg this, beq_false_of_ne (Ne.symm this), if_neg Bool.false_ne_true,
        Nat.add_zero]
  kept other _ := (same_setCount.key other).symm
  pinned other pinned := by
    rw [Kernel.lower, setCount_count]
    by_cases this : other = index
    · rw [if_pos this]
      have := several (this ▸ pinned)
      omega
    · rw [if_neg this]
      exact shows.at.pinned other pinned
  steady := ⟨rfl, rfl, rfl⟩

/-- The places that were free are free, but perhaps for the one that `pwd` has taken. -/
def Free (kernel after : Kernel) : Prop :=
  ∀ index, (kernel.inode index).count = 0 → index ≠ after.pwd →
    (after.inode index).count = 0

theorem At.free
    (moment : At g kernel [] kernel') :
    Free kernel kernel' :=
  fun index free _ => (moment.count index).trans free

/-- No reference is taken for a mount flag alone. -/
theorem Shows.imount_of_mount
    {index : Index}
    (shows : Shows g kernel)
    (mount : (kernel.inode index).mount = true) :
    ∃ slot, (kernel.super slot).imount = some index := by
  obtain ⟨_, _, slot, found, _⟩ := shows.mount index mount
  have holds := List.find?_some found
  exact ⟨slot, eq_of_beq holds⟩

section Leave

variable {index : Index}
variable (stands : Stands g kernel) (moment : At g kernel [index] kernel')
include stands moment

/-- Others that refer to `pwd` have references of their own, beside the new one. -/
theorem At.others_pwd
    (others :
      index = kernel'.pwd ∨ kernel'.root = kernel'.pwd ∨
        ∃ slot, (kernel'.super slot).imount = some kernel'.pwd) :
    1 < (kernel'.inode kernel'.pwd).count := by
  have own := stands.own
  have used := stands.shows.pwd.2.2
  obtain ⟨super, root, pwd⟩ := moment.steady
  rw [← super, ← root, ← pwd] at own
  rw [← pwd] at used
  rw [moment.count]
  rcases others with rfl | others
  · rw [List.count_cons_self]
    omega
  · have := own others
    omega

/-- So it is of the inode that was found, whether or not `pwd` is given back. -/
theorem At.others_found
    (others :
      kernel'.root = index ∨ ∃ slot, (kernel'.super slot).imount = some index) :
    1 < ((kernel'.lower kernel'.pwd).inode index).count := by
  rw [Kernel.lower, setCount_count]
  by_cases this : index = kernel'.pwd
  · subst this
    have own := stands.own
    obtain ⟨super, root, pwd⟩ := moment.steady
    rw [← super, ← root, ← pwd] at own
    have := own others
    rw [if_pos rfl, moment.count, List.count_cons_self]
    omega
  · have before :=
      moment.pinned index
        (Or.inr (others.elim (fun same => Or.inr (Or.inl same)) Or.inl))
    rw [if_neg this, moment.count, List.count_cons_self]
    omega

/-- The old directory is given back as if the new one had taken its place already. -/
theorem At.leave
    (dev : (kernel'.inode index).dev ≠ 0)
    (links : (g.inode (kernel'.inode index).key).nlinks ≠ 0) :
    (iput kernel'.pwd).Satisfies kernel'
      (fun _ after =>
        Stands { g with pwd := (kernel'.inode index).key } (after.setPwd index) ∧
          Free kernel (after.setPwd index))
      (fun _ => False) := by
  have shows := moment.shows
  have used : 0 < (kernel'.inode index).count := by
    rw [moment.count, List.count_cons_self]
    omega
  have shows' :
      Shows { g with pwd := (kernel'.inode index).key } (kernel'.setPwd index) :=
    { shows with pwd := ⟨rfl, dev, used⟩ }
  have moment' :=
    shows'.holding shows.pwd.2.2 fun (pinned : (kernel'.setPwd index).Pinned kernel'.pwd) => by
      apply moment.others_pwd stands
      rcases pinned with mount | imount | root | pwd
      · exact Or.inr (Or.inr (shows.imount_of_mount mount))
      · exact Or.inr (Or.inr imount)
      · exact Or.inr (Or.inl root)
      · exact Or.inl pwd
  have held :
      Held { g with pwd := (kernel'.inode index).key } (kernel'.setPwd index)
        kernel'.pwd := by
    refine ⟨shows.pwd.2.1, Or.inl ?_⟩
    have linked := stands.links
    rwa [← shows.pwd.1] at linked
  refine (ignoresPwd_iput _ index _ _ (moment'.put held)).mono ?_ (fun _ => id)
  rintro _ after ⟨moment'', same⟩
  refine ⟨⟨moment''.shows, links, ?own⟩, ?free⟩
  case own =>
    intro others
    rw [same.root, same.super, same.pwd] at others
    rw [same.pwd, moment''.count]
    exact Nat.lt_of_lt_of_le (moment.others_found stands others) (Nat.le_add_right _ _)
  case free =>
    intro other free new
    have different : index ≠ other := by
      rintro rfl
      exact new same.pwd.symm
    have zero : (kernel'.inode other).count = 0 := by
      rw [moment.count, free, List.count_cons_of_ne different]
      rfl
    rw [moment''.count, Kernel.lower, setCount_count]
    by_cases this : other = kernel'.pwd
    · rw [if_pos this]
      change (kernel'.inode kernel'.pwd).count - 1 + 0 = 0
      rw [← this, zero]
    · rw [if_neg this]
      exact zero

end Leave

/-- `sys_chdir` does what its name says, and no place is lost. -/
theorem satisfies_sysChdir
    (stands : Stands g kernel)
    (ends : g.Ends)
    (linked : g.Linked)
    (room : ∃ index, (kernel.inode index).count = 0)
    (noZero : 0 ∉ path) :
    (sysChdir path).Satisfies kernel
      (fun result after =>
        result = (g.chdir path).1 ∧
          Stands { g with pwd := (g.chdir path).2 } after ∧ Free kernel after)
      (fun _ => False) := by
  unfold sysChdir
  refine (satisfies_namei stands.shows ends linked room noZero).andThen ?_
  rintro (_ | index) middle ⟨moment, found, held⟩
  · have nowhere : g.chdir path = (-2, g.pwd) := by
      rw [Graph.chdir, ← found]
      rfl
    rw [nowhere]
    exact ⟨rfl, moment.stands stands, moment.free⟩
  · have held := held index rfl
    have result :
        g.chdir path =
          if isDir (middle.inode index).mode then (0, (middle.inode index).key)
          else (-20, g.pwd) := by
      rw [Graph.chdir, ← found, moment.shows.inode index held.dev]
      rfl
    rw [satisfies_bind, satisfies_read, result]
    by_cases directory : isDir (middle.inode index).mode = true
    · rw [directory, Bool.not_true, if_neg Bool.false_ne_true, if_pos rfl]
      refine (moment.leave stands held.dev (linked.resolve found.symm)).andThen ?_
      intro _ after left
      exact ⟨rfl, left⟩
    · rw [Bool.not_eq_true] at directory
      rw [directory, Bool.not_false, if_pos rfl, if_neg Bool.false_ne_true]
      refine (moment.put held).andThen ?_
      rintro _ after ⟨moment', _⟩
      exact ⟨rfl, moment'.stands stands, moment'.free⟩

/-- A path leads to the tree from every `pwd` in it. -/
theorem below_resolve
    {pwd next : Key}
    (tree : g.Tree)
    (below : g.Below pwd)
    (noZero : 0 ∉ path)
    (found : { g with pwd := pwd }.resolve path = some next) :
    g.Below next :=
  Graph.Below.resolve (g := { g with pwd := pwd })
    ⟨tree.self, tree.parent, tree.mounted, tree.root⟩ below noZero found

/-! ## Runs of calls -/

/-- A call, or a search whose reference is kept. -/
inductive Call where
  | chdir (path : List UInt8)
  | namei (path : List UInt8)

/-- A call returns; its path has no zeros, and there is a place in the table. -/
def Call.Runs (call : Call) (before after : Kernel) : Prop :=
  (∃ index, (before.inode index).count = 0) ∧
    match call with
    | .chdir path => 0 ∉ path ∧ ∃ result, sysChdir path before = .ret result after
    | .namei path => 0 ∉ path ∧ ∃ found, Paths.namei path before = .ret found after

/-- The kernel stands with the graph, but perhaps with another `pwd` in the tree. -/
def Stays (g : Graph) (kernel : Kernel) : Prop :=
  ∃ pwd, g.Below pwd ∧ Stands { g with pwd := pwd } kernel

/-- What `namei` finds, if anything, is below the root. -/
def FindsBelow (g : Graph) (path : List UInt8) (kernel : Kernel) : Prop :=
  ∃ found after, namei path kernel = .ret found after ∧
    ∀ index, found = some index → g.Below (after.inode index).key

theorem Graph.Below.chdir
    {pwd : Key}
    (tree : g.Tree)
    (below : g.Below pwd)
    (noZero : 0 ∉ path) :
    g.Below ({ g with pwd := pwd }.chdir path).2 := by
  unfold Graph.chdir
  cases found : { g with pwd := pwd }.resolve path with
  | none =>
    exact below
  | some next =>
    dsimp only
    split_ifs
    · exact below_resolve tree below noZero found
    · exact below

section Calls

variable (tree : g.Tree) (ends : g.Ends) (linked : g.Linked)
include tree ends linked

theorem Stays.finds
    (stays : Stays g kernel)
    (noZero : 0 ∉ path)
    (room : ∃ index, (kernel.inode index).count = 0) :
    FindsBelow g path kernel := by
  obtain ⟨pwd, below, stands⟩ := stays
  obtain ⟨found, after, returned, finds⟩ :=
    (satisfies_namei stands.shows ends linked room noZero).returns
  refine ⟨found, after, returned, ?_⟩
  rintro index rfl
  exact below_resolve tree below noZero finds.2.1.symm

theorem Stays.call
    {call : Call}
    (stays : Stays g kernel)
    (runs : call.Runs kernel kernel') :
    Stays g kernel' := by
  obtain ⟨pwd, below, stands⟩ := stays
  obtain ⟨room, runs⟩ := runs
  cases call with
  | chdir path =>
    obtain ⟨noZero, result, returned⟩ := runs
    have spec := (satisfies_sysChdir stands ends linked room noZero).of_ret returned
    exact ⟨_, Graph.Below.chdir tree below noZero, spec.2.1⟩
  | namei path =>
    obtain ⟨noZero, found, returned⟩ := runs
    have finds := (satisfies_namei stands.shows ends linked room noZero).of_ret returned
    exact ⟨pwd, below, finds.1.stands stands⟩

end Calls

end Paths

end HitOs
