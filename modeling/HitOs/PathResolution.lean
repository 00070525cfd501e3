import HitOs.PathInodes

namespace HitOs

/-!
# Path resolution

`namei` is the fold of the lookups of the names in a path, and leaves no reference
but the one that it returns.
-/

namespace Paths

open Routine
open Zones (nameLen entrySize entryInode isDir)
open Inodes (Index nrInode rootIno)
open scoped Inodes

variable {g : Graph} {kernel first after : Kernel}
variable {index dir : Index} {extra : List Index} {key : Key}
variable {path name : List UInt8}

/-! ## References that may be given back -/

/-- `iput` does not free the inode: it has links, or another reference is left. -/
structure Held
    (g : Graph)
    (kernel : Kernel)
    (index : Index) : Prop where
  dev :
    (kernel.inode index).dev ≠ 0
  stays :
    (g.inode (kernel.inode index).key).nlinks ≠ 0 ∨ 1 < (kernel.inode index).count

theorem At.put
    (moment : At g first (index :: extra) kernel)
    (held : Held g kernel index) :
    (iput index).Satisfies kernel
      (fun _ after => At g first extra after ∧ Same kernel after)
      (fun _ => False) :=
  satisfies_iput moment (moment.shows.files index held.dev)
    (fun _ => held.stays)

theorem At.super
    (moment : At g first (index :: extra) kernel)
    (held : Held g kernel index) :
    kernel.getSuper (kernel.inode index).dev ≠ none := by
  apply moment.shows.used index ?_ held.dev
  rw [moment.count, List.count_cons_self]
  exact Nat.succ_pos _

/-- Another reference to an inode that the kernel itself refers to. -/
theorem At.raise_pinned
    (moment : At g first extra kernel)
    (pinned : kernel.Pinned index)
    (dev : (kernel.inode index).dev ≠ 0) :
    At g first (index :: extra) (kernel.raise index) ∧
      Held g (kernel.raise index) index := by
  have used := moment.pinned index pinned
  have positive : 0 < (kernel.inode index).count := by
    rw [moment.count]
    exact Nat.lt_of_lt_of_le used (Nat.le_add_right _ _)
  have same : Same kernel (kernel.raise index) := same_setCount
  have moment' :=
    moment.raise (moment.shows.used index positive)
  refine ⟨moment', ?_, Or.inr ?_⟩
  · rw [same.dev]
    exact dev
  · rw [moment'.count, List.count_cons_self]
    omega

/-! ## What is seen of a directory -/

theorem mayEnter_eq
    (shows : Shows g kernel)
    (dev : (kernel.inode dir).dev ≠ 0) :
    permission (kernel.inode dir) mayExec kernel =
      g.mayEnter (g.inode (kernel.inode dir).key) := by
  unfold permission Graph.mayEnter
  rw [← shows.inode dir dev, shows.process.1, shows.process.2]
  by_cases links : (kernel.inode dir).nlinks = 0
  · rw [if_pos ⟨dev, links⟩, links]
    rfl
  · rw [if_neg (fun both => links both.2), bne_iff_ne.mpr links, Bool.true_and]

/-- The test of `get_dir`. -/
theorem searchable_eq
    (shows : Shows g kernel)
    (dev : (kernel.inode dir).dev ≠ 0) :
    (!isDir (kernel.inode dir).mode ||
        !permission (kernel.inode dir) mayExec kernel) =
      !g.searchable (kernel.inode dir).key := by
  unfold Graph.searchable
  rw [mayEnter_eq shows dev, ← Bool.not_and, ← shows.inode dir dev]

/-! ## `find_entry` -/

theorem satisfies_goUp
    (moment : At g first [dir] kernel)
    (held : Held g kernel dir) :
    (goUp dir dotDot).Satisfies kernel
      (fun found after =>
        At g first [found.1] after ∧ Held g after found.1 ∧
          ((after.inode found.1).key, found.2) =
            g.searched (kernel.inode dir).key dotDot)
      (fun _ => False) := by
  have shows := moment.shows
  unfold goUp Graph.searched
  rw [satisfies_bind, satisfies_read, if_pos rfl]
  by_cases isRoot : dir = kernel.root
  · have isRoot' : (kernel.inode dir).key = g.root := by
      rw [isRoot]
      exact shows.root.1
    rw [if_pos isRoot, if_pos isRoot']
    exact ⟨moment, held, rfl⟩
  have isRoot' : (kernel.inode dir).key ≠ g.root := by
    rw [← shows.root.1]
    intro same
    exact isRoot (shows.unique dir kernel.root held.dev same)
  rw [if_neg isRoot, if_neg isRoot']
  by_cases top : (kernel.inode dir).num = rootIno
  swap
  · have top' : (kernel.inode dir).key.2 ≠ rootIno := top
    rw [if_neg top, if_neg top']
    exact ⟨moment, held, rfl⟩
  have top' : (kernel.inode dir).key.2 = rootIno := top
  rw [if_pos top, if_pos top']
  cases found : kernel.getSuper (kernel.inode dir).dev with
  | none =>
    exact absurd found (moment.super held)
  | some slot =>
    have covered :
        g.covered (kernel.inode dir).key.1 =
          (kernel.super slot).imount.map
            fun index => (kernel.inode index).key :=
      shows.covered _ slot found
    cases there : (kernel.super slot).imount with
    | none =>
      rw [there] at covered
      rw [covered]
      simp only [there]
      exact ⟨moment, held, rfl⟩
    | some mounted =>
      rw [there] at covered
      rw [covered]
      simp only [there]
      refine (moment.put held).andThen ?_
      rintro _ middle ⟨moment', same⟩
      have pinned : kernel.Pinned mounted :=
        Or.inr (Or.inl ⟨slot, there⟩)
      have dev : (middle.inode mounted).dev ≠ 0 := by
        rw [same.dev]
        exact (shows.imount slot mounted there).1
      obtain ⟨raised, held'⟩ :=
        moment'.raise_pinned (same.pinned.mpr pinned) dev
      have same' : Same middle (middle.raise mounted) := same_setCount
      refine ⟨raised, held', ?_⟩
      rw [same'.key, same.key]
      rfl

/-- The entries of one directory. -/
theorem satisfies_search
    {entries : Nat}
    (moment : At g first extra kernel)
    (dev : (kernel.inode dir).dev ≠ 0) :
    (do
      let kernel ← read
      if (kernel.inode dir).zone = 0 then
        pure (dir, none)
      else
        pure (dir, lookUp (kernel.data (kernel.inode dir).key) entries name) :
      Routine Kernel (Index × Option Nat)).Satisfies kernel
      (fun found after =>
        after = kernel ∧ found.1 = dir ∧
          found.2 =
            if (g.inode (kernel.inode dir).key).zone = 0 then none
            else lookUp (g.data (kernel.inode dir).key) entries name)
      (fun _ => False) := by
  rw [satisfies_bind, satisfies_read, ← moment.shows.inode dir dev, moment.shows.data]
  by_cases nothing : (kernel.inode dir).zone = 0
  · rw [if_pos nothing, if_pos nothing]
    exact ⟨rfl, rfl, rfl⟩
  · rw [if_neg nothing, if_neg nothing]
    exact ⟨rfl, rfl, rfl⟩

/-- The directory is exchanged as in the graph, and searched. -/
theorem satisfies_findEntry
    (moment : At g first [dir] kernel)
    (held : Held g kernel dir) :
    (findEntry dir name).Satisfies kernel
      (fun found after =>
        At g first [found.1] after ∧ Held g after found.1 ∧
          (after.inode found.1).key =
            (g.searched (kernel.inode dir).key (name.take nameLen)).1 ∧
          found.2 = g.entry (kernel.inode dir).key (name.take nameLen))
      (fun _ => False) := by
  have size :
      (kernel.inode dir).size = (g.inode (kernel.inode dir).key).size :=
    congrArg DInode.size (moment.shows.inode dir held.dev)
  unfold findEntry Graph.entry
  rw [satisfies_bind, satisfies_read]
  simp only
  by_cases empty : name.take nameLen = []
  · rw [if_pos empty, if_pos empty, empty]
    exact ⟨moment, held, rfl, rfl⟩
  rw [if_neg empty, if_neg empty, size]
  by_cases up : name.take nameLen = dotDot
  · rw [if_pos up, up]
    refine (satisfies_goUp moment held).andThen ?_
    rintro ⟨found, name'⟩ middle ⟨moment', held', same⟩
    refine (satisfies_search moment' held'.dev).mono ?_ (fun _ => id)
    rintro ⟨_, de⟩ _ ⟨rfl, rfl, result⟩
    rw [← same]
    exact ⟨moment', held', rfl, result⟩
  · rw [if_neg up, show g.searched (kernel.inode dir).key _ = _ from if_neg up]
    refine (satisfies_search moment held.dev).mono ?_ (fun _ => id)
    rintro ⟨_, de⟩ _ ⟨rfl, rfl, result⟩
    exact ⟨moment, held, rfl, result⟩

/-! ## One name -/

/--
What a call has found, which is the only reference that it has taken since `first`.
-/
def Finds
    (g : Graph)
    (first : Kernel)
    (expected : Option Key)
    (found : Option Index)
    (after : Kernel) : Prop :=
  At g first found.toList after ∧
    found.map (fun index => (after.inode index).key) = expected ∧
    ∀ index, found = some index → Held g after index

theorem finds_some
    (moment : At g first [index] kernel)
    (held : Held g kernel index) :
    Finds g first (some (kernel.inode index).key) (some index) kernel := by
  refine ⟨moment, rfl, ?_⟩
  rintro _ ⟨⟩
  exact held

theorem finds_none
    (moment : At g first [] kernel) :
    Finds g first none none kernel :=
  ⟨moment, rfl, fun _ => nofun⟩

/-- Nothing is found, and the reference to the directory is given back. -/
theorem satisfies_giveUp
    (moment : At g first [dir] kernel)
    (held : Held g kernel dir) :
    (do
      iput dir
      pure none :
      Routine Kernel (Option Index)).Satisfies kernel
      (Finds g first none)
      (fun _ => False) := by
  refine (moment.put held).andThen ?_
  rintro _ middle ⟨moment', _⟩
  exact finds_none moment'

/--
`get_dir` and `namei` do the same for a name: the entry is found, and the directory
is exchanged for the inode in it.
-/
theorem satisfies_follow
    {next : Index → Routine Kernel (Option Index)}
    {expected : Key → Option Key}
    (ends : g.Ends)
    (linked : g.Linked)
    (room : ∃ index, (first.inode index).count = 0)
    (moment : At g first [dir] kernel)
    (held : Held g kernel dir)
    (goesOn :
      ∀ {index : Index} {middle : Kernel},
        At g first [index] middle → Held g middle index →
          (next index).Satisfies middle
            (Finds g first (expected (middle.inode index).key))
            (fun _ => False)) :
    (do
      match ← findEntry dir name with
      | (dir, none) =>
        iput dir
        pure none
      | (dir, some de) =>
        let kernel ← read
        let inr := entryOf dir de kernel
        let idev := (kernel.inode dir).dev
        iput dir
        let inode ← iget (idev, inr)
        next inode :
      Routine Kernel (Option Index)).Satisfies kernel
      (Finds g first ((g.lookup (kernel.inode dir).key name).bind expected))
      (fun _ => False) := by
  have nextOf := linked (kernel.inode dir).key name
  unfold Graph.lookup at nextOf ⊢
  refine (satisfies_findEntry moment held).andThen ?_
  rintro ⟨dir', de⟩ middle ⟨moment', held', same, rfl⟩
  cases found : g.entry (kernel.inode dir).key (name.take nameLen) with
  | none =>
    exact satisfies_giveUp moment' held'
  | some de =>
    rw [found, Option.bind_some] at nextOf
    rw [Option.bind_some]
    cases arrives :
        g.follow
          (g.searched (kernel.inode dir).key (name.take nameLen)).1 de with
    | none =>
      exact absurd arrives (ends _)
    | some final =>
      rw [satisfies_bind, satisfies_read]
      refine (moment'.put held').andThen ?_
      rintro _ last ⟨moment'', same'⟩
      have room' : ∃ index, (last.inode index).count = 0 := by
        obtain ⟨index, unused⟩ := room
        exact ⟨index, by rw [moment''.count, unused]; rfl⟩
      have super :
          last.getSuper (middle.inode dir').dev ≠ none := by
        rw [getSuper_congr same'.super]
        exact moment'.super held'
      have arrives' :
          g.arrive (nrSuper + 1)
              ((middle.inode dir').dev, entryOf dir' de middle) =
            some final := by
        rw [← arrives, ← same]
        unfold Graph.follow entryOf
        rw [moment'.shows.data]
        rfl
      refine (satisfies_iget moment'' room' super arrives').andThen ?_
      rintro index here ⟨moment3, reached, dev⟩
      rw [Option.bind_some, ← reached]
      refine goesOn moment3 ⟨?_, Or.inl ?_⟩
      · rw [← reached] at dev
        exact dev
      · rw [reached]
        exact nextOf final arrives

/-! ## `get_dir` and `namei` -/

theorem satisfies_getDirLoop
    (ends : g.Ends)
    (linked : g.Linked)
    (room : ∃ index, (first.inode index).count = 0)
    (noZero : 0 ∉ path)
    (moment : At g first [dir] kernel)
    (held : Held g kernel dir) :
    (getDirLoop dir path).Satisfies kernel
      (Finds g first (g.walk (kernel.inode dir).key (dirNames path)))
      (fun _ => False) := by
  -- The next turn has a shorter path.
  induction length : path.length using Nat.strong_induction_on
    generalizing path dir kernel with
  | _ length inductionHypothesis =>
    rw [getDirLoop, satisfies_bind, satisfies_read]
    simp only
    rw [searchable_eq moment.shows held.dev]
    by_cases allowed : g.searchable (kernel.inode dir).key = true
    swap
    · rw [Bool.not_eq_true] at allowed
      rw [allowed, Bool.not_false, if_pos rfl]
      have nowhere :
          g.walk (kernel.inode dir).key (dirNames path) = none := by
        cases dirNames path with
        | nil =>
          rw [Graph.walk_nil, allowed, if_neg Bool.false_ne_true]
        | cons name names =>
          rw [Graph.walk_cons, allowed, if_neg Bool.false_ne_true]
      rw [nowhere]
      exact satisfies_giveUp moment held
    rw [allowed, Bool.not_true, if_neg Bool.false_ne_true]
    rcases pieces_cases path with ⟨noSlash, alone⟩ |
      ⟨name, rest, rfl, noSlash, more⟩
    · have whole := scanName_of_last noZero noSlash
      rw [dif_pos (by rw [whole]), dirNames_of_last alone,
        Graph.walk_nil, if_pos allowed]
      exact finds_some moment held
    · rw [List.mem_append, List.mem_cons, not_or, not_or] at noZero
      have scanned :
          scanName (name ++ slash :: rest) = (name.length, slash, rest) :=
        scanName_of_slash noZero.1 noSlash
      have goesOn : (scanName (name ++ slash :: rest)).2.1 ≠ 0 := by
        rw [scanned]
        exact (by decide : slash ≠ 0)
      rw [dif_neg goesOn, scanned, List.take_left, dirNames_of_slash more, Graph.walk_cons,
        if_pos allowed]
      refine satisfies_follow ends linked room moment held ?_
      intro index middle moment' held'
      refine inductionHypothesis rest.length ?_ noZero.2.2 moment' held'
        rfl
      rw [← length, List.length_append, List.length_cons]
      omega

theorem satisfies_getDir
    (shows : Shows g kernel)
    (ends : g.Ends)
    (linked : g.Linked)
    (room : ∃ index, (kernel.inode index).count = 0)
    (noZero : 0 ∉ path) :
    (getDir path).Satisfies kernel
      (Finds g kernel (g.directory path))
      (fun _ => False) := by
  unfold getDir Graph.directory Graph.start
  rw [satisfies_bind, satisfies_read,
    if_neg (Nat.ne_of_gt shows.root.2.2),
    if_neg (Nat.ne_of_gt shows.pwd.2.2)]
  cases path with
  | nil =>
    exact finds_none shows.at
  | cons c path =>
    rw [List.mem_cons, not_or] at noZero
    rw [if_neg (List.cons_ne_nil c path), List.headD_cons]
    by_cases absolute : c = slash
    · rw [if_pos absolute, if_pos absolute, satisfies_bind,
        satisfies_update]
      obtain ⟨moment, held⟩ :=
        shows.at.raise_pinned (Or.inr (Or.inr (Or.inl rfl)))
          shows.root.2.1
      have same : Same kernel (kernel.raise kernel.root) := same_setCount
      have found :=
        satisfies_getDirLoop ends linked room noZero.2 moment held
      rw [same.key, shows.root.1] at found
      exact found
    · rw [if_neg absolute, if_neg absolute, if_pos (Ne.symm noZero.1),
        satisfies_bind, satisfies_update]
      obtain ⟨moment, held⟩ :=
        shows.at.raise_pinned (Or.inr (Or.inr (Or.inr rfl)))
          shows.pwd.2.1
      have same : Same kernel (kernel.raise kernel.pwd) := same_setCount
      have noZero' : 0 ∉ c :: path := by
        rw [List.mem_cons, not_or]
        exact noZero
      have found :=
        satisfies_getDirLoop ends linked room noZero' moment held
      rw [same.key, shows.pwd.1] at found
      exact found

theorem satisfies_dirNamei
    (shows : Shows g kernel)
    (ends : g.Ends)
    (linked : g.Linked)
    (room : ∃ index, (kernel.inode index).count = 0)
    (noZero : 0 ∉ path) :
    (dirNamei path).Satisfies kernel
      (fun found after =>
        Finds g kernel (g.directory path) (found.map Prod.fst) after ∧
          ∀ dir name, found = some (dir, name) → name = baseName path)
      (fun _ => False) := by
  unfold dirNamei
  refine (satisfies_getDir shows ends linked room noZero).andThen ?_
  rintro (_ | dir) middle found
  · exact ⟨found, fun _ _ => nofun⟩
  · rw [scanBase_eq noZero]
    refine ⟨found, ?_⟩
    rintro _ _ ⟨⟩
    exact List.take_length

theorem satisfies_namei
    (shows : Shows g kernel)
    (ends : g.Ends)
    (linked : g.Linked)
    (room : ∃ index, (kernel.inode index).count = 0)
    (noZero : 0 ∉ path) :
    (namei path).Satisfies kernel
      (Finds g kernel (g.resolve path))
      (fun _ => False) := by
  unfold namei Graph.resolve
  refine (satisfies_dirNamei shows ends linked room noZero).andThen ?_
  rintro (_ | ⟨dir, name⟩) middle ⟨found, base⟩
  · rw [← found.2.1]
    exact finds_none found.1
  obtain ⟨moment, reached, held⟩ := found
  obtain rfl := base dir name rfl
  replace held := held dir rfl
  rw [← reached]
  simp only [Option.map_some, Option.bind_some]
  by_cases empty : baseName path = []
  · rw [if_pos empty, if_pos empty]
    exact finds_some moment held
  rw [if_neg empty, if_neg empty]
  rw [← Option.bind_fun_some (g.lookup _ _)]
  refine satisfies_follow ends linked room moment held ?_
  intro index after moment' held'
  rw [satisfies_bind, satisfies_update]
  have same : Same after (after.setDirt index true) := same_setDirt
  have held'' : Held g (after.setDirt index true) index := by
    refine ⟨by rw [same.dev]; exact held'.dev, ?_⟩
    rw [same.key, setDirt_count]
    exact held'.stays
  rw [← same.key]
  exact finds_some (moment'.markDirty (moment'.super held')) held''

/-- The names that `get_dir` goes through and the base name are the whole path. -/
theorem dirNames_append
    (g : Graph)
    (path : List UInt8) :
    dirNames (g.start path).2 ++ [baseName path] =
      pieces (g.start path).2 := by
  have whole :
      ∀ path, dirNames path ++ [baseName path] = pieces path := by
    intro path
    unfold dirNames baseName
    rw [List.getLastD_eq_getLast?, List.getLast?_eq_some_getLast pieces_ne_nil,
      Option.getD_some]
    exact List.dropLast_append_getLast pieces_ne_nil
  unfold Graph.start
  by_cases absolute : path.headD 0 = slash
  · rw [if_pos absolute]
    cases path with
    | nil =>
      exact absurd absolute (by decide)
    | cons c path =>
      obtain rfl : c = slash := absolute
      have more : pieces (slash :: path) = [] :: pieces path := by
        unfold pieces List.splitOn
        rw [List.splitOnP_cons_eq_if_modifyHead]
        rfl
      rw [baseName_of_slash more]
      exact whole path
  · rw [if_neg absolute]
    exact whole path

/--
No count has changed but that of the inode that was found, and every inode in use is
where it was.
-/
def Balanced
    (kernel : Kernel)
    (found : Option Index)
    (after : Kernel) : Prop :=
  ∀ index,
    (after.inode index).count =
        (kernel.inode index).count + (if found = some index then 1 else 0) ∧
      (0 < (kernel.inode index).count →
        (after.inode index).key = (kernel.inode index).key)

theorem Finds.balanced
    {expected : Option Key} {found : Option Index}
    (finds : Finds g kernel expected found after) :
    Balanced kernel found after := by
  intro index
  refine ⟨?_, finds.1.kept index⟩
  rw [finds.1.count]
  cases found with
  | none =>
    rfl
  | some other =>
    rw [Option.toList_some, List.count_singleton]
    by_cases this : other = index
    · rw [if_pos (beq_iff_eq.mpr this), if_pos (congrArg some this)]
    · rw [if_neg (by rwa [beq_iff_eq]),
        if_neg (fun same => this (Option.some_inj.mp same))]

/--
`get_dir` goes through the names before the last slash and `dir_namei` returns the
one behind it; `namei` finds the inode that the fold of the lookups gives, and holds
nothing else.
-/
theorem namei_resolves
    (shows : Shows g kernel)
    (ends : g.Ends)
    (linked : g.Linked)
    (room : ∃ index, (kernel.inode index).count = 0)
    (noZero : 0 ∉ path) :
    dirNames (g.start path).2 ++ [baseName path] =
        pieces (g.start path).2 ∧
      (∃ dir after,
        getDir path kernel = .ret dir after ∧
          dir.map (fun index => (after.inode index).key) = g.directory path ∧
          Balanced kernel dir after ∧
          dirNamei path kernel =
            .ret (dir.map fun index => (index, baseName path)) after) ∧
      ∃ found after,
        namei path kernel = .ret found after ∧
          found.map (fun index => (after.inode index).key) = g.resolve path ∧
          Balanced kernel found after := by
  refine ⟨dirNames_append g path, ?_, ?_⟩
  · obtain ⟨dir, after, returned, finds⟩ :=
      (satisfies_getDir shows ends linked room noZero).returns
    refine ⟨dir, after, returned, finds.2.1, finds.balanced, ?_⟩
    unfold dirNamei
    rw [bind_of_ret returned]
    cases dir with
    | none =>
      rfl
    | some dir =>
      simp only
      rw [scanBase_eq noZero, List.take_length]
      rfl
  · obtain ⟨found, after, returned, finds⟩ :=
      (satisfies_namei shows ends linked room noZero).returns
    exact ⟨found, after, returned, finds.2.1, finds.balanced⟩

/-! ## A mounted device -/

/-- The entry `..` of both roots, and of the directory that is covered. -/
def upOnly : Block := fun place =>
  if place = 0 then 1 else if place = 2 ∨ place = 3 then 46 else 0

/-- A directory that only its owner may enter, or one that all may. -/
def folder (mode : Nat) : DInode where
  mode := mode
  uid := 0
  size := 16
  gid := 0
  nlinks := 2
  zone := 7

/-- The inodes: `(0x301, 2)` is the directory that is covered. -/
def folders (key : Key) : DInode :=
  folder (if key = (0x301, 2) then 0o040700 else 0o040755)

/-- A process in the root of a device that is mounted on `(0x301, 2)`. -/
def insideMounted : Kernel where
  inode := fun index =>
    if index.val = 0 then
      { folders (0x301, 1) with
        dev := 0x301, num := 1, count := 1, dirt := false, pipe := false,
        mount := false }
    else if index.val = 1 then
      { folders (0x301, 2) with
        dev := 0x301, num := 2, count := 1, dirt := false, pipe := false,
        mount := true }
    else if index.val = 2 then
      { folders (0x302, 1) with
        dev := 0x302, num := 1, count := 1, dirt := false, pipe := false,
        mount := false }
    else
      .zero
  last := 0
  super := fun slot =>
    if slot.val = 0 then
      { dev := 0x301, ninodes := 100, imapBlocks := 1, imount := none }
    else if slot.val = 1 then
      { dev := 0x302, ninodes := 100, imapBlocks := 1, imount := some 1 }
    else
      { dev := 0, ninodes := 0, imapBlocks := 0, imount := none }
  root := 0
  pwd := 2
  euid := 5
  egid := 5
  disk := folders
  data := fun _ => upOnly

def insideGraph : Graph where
  inode := folders
  data := fun _ => upOnly
  covers := fun key => if key = (0x301, 2) then some 0x302 else none
  covered := fun dev => if dev = 0x302 then some (0x301, 2) else none
  root := (0x301, 1)
  pwd := (0x302, 1)
  euid := 5
  egid := 5

theorem shows_insideMounted : Shows insideGraph insideMounted where
  inode := by decide
  disk _ _ := rfl
  unique := by decide
  dirty := by decide
  used := by decide
  files := by decide
  mount := by decide
  uncovered key uncovered := by
    apply if_neg
    rintro rfl
    exact absurd (uncovered 1 rfl) (by decide)
  covered dev slot found := by
    have each :
        ∀ slot, insideGraph.covered (insideMounted.super slot).dev =
          (insideMounted.super slot).imount.map
            fun index => (insideMounted.inode index).key := by
      decide
    rw [← each slot]
    unfold Kernel.getSuper at found
    by_cases isZero : dev = 0
    · rw [if_pos isZero] at found
      cases found
    · rw [if_neg isZero] at found
      have holds := List.find?_some found
      rw [eq_of_beq holds]
  imount := by decide
  root := by decide
  pwd := by decide
  process := ⟨rfl, rfl⟩
  data := rfl

theorem ends_insideGraph : insideGraph.Ends := by
  intro key
  by_cases covered : key = (0x301, 2)
  · rw [covered]
    decide
  · have top : insideGraph.covers key = none := if_neg covered
    rw [Graph.arrive, top]
    exact Option.some_ne_none key

theorem linked_insideGraph : insideGraph.Linked :=
  fun _ _ _ _ => (by decide : 2 ≠ 0)

theorem namei_resolves_insideMounted :
    0 ∉ dotDot ∧
      (∃ index, (insideMounted.inode index).count = 0) ∧
      insideGraph.resolve dotDot = some (0x301, 1) ∧
      ∃ found after,
        namei dotDot insideMounted = .ret found after ∧
          found.map (fun index => (after.inode index).key) = some (0x301, 1) ∧
          Balanced insideMounted found after := by
  refine ⟨by decide, ⟨3, by decide⟩, by decide, ?_⟩
  exact (namei_resolves shows_insideMounted ends_insideGraph
    linked_insideGraph ⟨3, by decide⟩ (by decide)).2.2

/-! ## The directory that a device covers -/

namespace Graph

variable (g : Graph)

/-- A lookup that checks every directory that it searches. -/
def checkedLookup (key : Key) (name : List UInt8) : Option Key :=
  if g.searchable (g.searched key (name.take nameLen)).1 then
    g.lookup key name
  else
    none

/-- `resolve`, if every directory that is searched had to pass the check. -/
def checkedResolve (path : List UInt8) : Option Key :=
  if path = [] then
    none
  else
    let directory :=
      ((dirNames (g.start path).2).foldlM
        (fun key name =>
          if g.searchable key then g.checkedLookup key name else none)
        (g.start path).1).filter g.searchable
    directory.bind fun dir =>
      if baseName path = [] then some dir
      else g.checkedLookup dir (baseName path)

end Graph

/-- `..` leads through a directory that the process may not enter. -/
theorem namei_skips_check :
    Shows insideGraph insideMounted ∧ insideGraph.Ends ∧
      insideGraph.Linked ∧
      insideGraph.checkedResolve dotDot = none ∧
      ∃ found after,
        namei dotDot insideMounted = .ret (some found) after ∧
          (after.inode found).key = (0x301, 1) := by
  refine ⟨shows_insideMounted, ends_insideGraph, linked_insideGraph,
    by decide, ?_⟩
  obtain ⟨found, after, returned, finds⟩ :=
    (satisfies_namei shows_insideMounted ends_insideGraph
      linked_insideGraph ⟨3, by decide⟩
      (by decide : 0 ∉ dotDot)).returns
  have result : insideGraph.resolve dotDot = some (0x301, 1) := by decide
  rw [result] at finds
  obtain ⟨_, reached, _⟩ := finds
  cases found with
  | none =>
    cases reached
  | some found =>
    exact ⟨found, after, returned, Option.some_inj.mp reached⟩

end Paths

end HitOs
