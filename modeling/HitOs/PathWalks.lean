import HitOs.PathNames

namespace HitOs

/-!
# The graph of directories

What the routines on path names find, as a graph of inodes, and the states in which
the inodes in memory show it.
-/

namespace Paths

open Routine
open Zones (nameLen entrySize matchEntry entryInode isReg isDir)
open Inodes (Index nrInode rootIno)

/-! ## Path names as folds -/

/-- The inodes, the mounted devices, and the process that looks at them. -/
structure Graph where
  inode : Key → DInode
  data : Key → Block
  /-- The device that is mounted on an inode. -/
  covers : Key → Option Nat
  /-- The directory that a device is mounted on. -/
  covered : Nat → Option Key
  root : Key
  pwd : Key
  euid : Nat
  egid : Nat

namespace Graph

variable (g : Graph)

/-- `MAY_EXEC`, for an inode of a device -/
def mayEnter (inode : DInode) : Bool :=
  let mode :=
    if g.euid = inode.uid then inode.mode >>> 6
    else if g.egid = inode.gid then inode.mode >>> 3
    else inode.mode
  inode.nlinks != 0 &&
    (mode &&& mayExec &&& 0o7 == mayExec || g.euid == 0)

/-- The directory may be searched. -/
def searchable (key : Key) : Bool :=
  isDir (g.inode key).mode && g.mayEnter (g.inode key)

/-- Through mount points to the root of the device on top. -/
def arrive : Nat → Key → Option Key
  | 0, _ => none
  | turns + 1, key =>
    match g.covers key with
    | none => some key
    | some dev => arrive turns (dev, rootIno)

/-- The directory in which a name is looked up, and the name to look for. -/
def searched (key : Key) (name : List UInt8) : Key × List UInt8 :=
  if name = dotDot then
    if key = g.root then
      (key, dot)
    else if key.2 = rootIno then
      ((g.covered key.1).getD key, name)
    else
      (key, name)
  else
    (key, name)

/-- The entry with a name, among as many as the directory itself has. -/
def entry (key : Key) (name : List UInt8) : Option Nat :=
  if name = [] then
    none
  else
    let (dir, name) := g.searched key name
    if (g.inode dir).zone = 0 then
      none
    else
      lookUp (g.data dir) ((g.inode key).size / entrySize) name

/-- Where the entry of a directory leads to. -/
def follow (dir : Key) (de : Nat) : Option Key :=
  g.arrive (nrSuper + 1) (dir.1, entryInode (g.data dir) de)

/-- The inode with a name, of which `NAME_LEN` characters count. -/
def lookup (key : Key) (name : List UInt8) : Option Key :=
  (g.entry key (name.take nameLen)).bind
    (g.follow (g.searched key (name.take nameLen)).1)

/-- One component: the directory is checked and then searched. -/
def step (key : Key) (name : List UInt8) : Option Key :=
  if g.searchable key then g.lookup key name else none

/-- All components, and the check of the last directory. -/
def walk (start : Key) (names : List (List UInt8)) : Option Key :=
  (names.foldlM g.step start).filter g.searchable

/-- Where a path starts, and what is behind a slash at its beginning. -/
def start (path : List UInt8) : Key × List UInt8 :=
  if path.headD 0 = slash then (g.root, path.tail) else (g.pwd, path)

/-- The directory of a path: the fold of what is before the last slash. -/
def directory (path : List UInt8) : Option Key :=
  if path = [] then none
  else g.walk (g.start path).1 (dirNames (g.start path).2)

/-- The inode of a path: the base name is looked up in its directory. -/
def resolve (path : List UInt8) : Option Key :=
  (g.directory path).bind fun dir =>
    if baseName path = [] then some dir else g.lookup dir (baseName path)

/-- No device is mounted on itself, not even through other ones. -/
def Ends : Prop :=
  ∀ key, g.arrive (nrSuper + 1) key ≠ none

/-- The entries lead to inodes with links. -/
def Linked : Prop :=
  ∀ key name next, g.lookup key name = some next → (g.inode next).nlinks ≠ 0

variable {g}

theorem walk_nil
    {start : Key} :
    g.walk start [] = if g.searchable start then some start else none :=
  rfl

theorem walk_cons
    {start : Key} {name : List UInt8} {names : List (List UInt8)} :
    g.walk start (name :: names) =
      if g.searchable start then
        (g.lookup start name).bind fun next => g.walk next names
      else
        none := by
  unfold walk
  rw [List.foldlM_cons]
  unfold step
  by_cases allowed : g.searchable start = true
  · rw [if_pos allowed, if_pos allowed]
    cases g.lookup start name <;> rfl
  · rw [if_neg allowed, if_neg allowed]
    rfl

end Graph

/-! ## Inodes in memory -/

/--
A kernel has the graph.  Pipes are in memory only, and a device in use has a super
block.
-/
structure Shows (g : Graph) (kernel : Kernel) : Prop where
  inode :
    ∀ index, (kernel.inode index).dev ≠ 0 →
      (kernel.inode index).toDInode = g.inode (kernel.inode index).key
  disk :
    ∀ key,
      (∀ index, (kernel.inode index).key = key → (kernel.inode index).dirt = false) →
      kernel.disk key = g.inode key
  unique :
    ∀ index other, (kernel.inode index).dev ≠ 0 →
      (kernel.inode index).key = (kernel.inode other).key → index = other
  dirty :
    ∀ index, (kernel.inode index).dirt = true →
      kernel.getSuper (kernel.inode index).dev ≠ none
  used :
    ∀ index, 0 < (kernel.inode index).count →
      (kernel.inode index).dev ≠ 0 → kernel.getSuper (kernel.inode index).dev ≠ none
  files :
    ∀ index, (kernel.inode index).dev ≠ 0 → (kernel.inode index).pipe = false
  mount :
    ∀ index, (kernel.inode index).mount = true →
      (kernel.inode index).dev ≠ 0 ∧ 0 < (kernel.inode index).count ∧
        ∃ slot, kernel.mountedOn index = some slot ∧
          g.covers (kernel.inode index).key = some (kernel.super slot).dev ∧
          kernel.getSuper (kernel.super slot).dev ≠ none
  uncovered :
    ∀ key,
      (∀ index, (kernel.inode index).key = key → (kernel.inode index).mount = false) →
      g.covers key = none
  covered :
    ∀ dev slot, kernel.getSuper dev = some slot →
      g.covered dev =
        (kernel.super slot).imount.map fun index => (kernel.inode index).key
  imount :
    ∀ slot index, (kernel.super slot).imount = some index →
      (kernel.inode index).dev ≠ 0 ∧ 0 < (kernel.inode index).count
  root :
    (kernel.inode kernel.root).key = g.root ∧
      (kernel.inode kernel.root).dev ≠ 0 ∧
      0 < (kernel.inode kernel.root).count
  pwd :
    (kernel.inode kernel.pwd).key = g.pwd ∧
      (kernel.inode kernel.pwd).dev ≠ 0 ∧
      0 < (kernel.inode kernel.pwd).count
  process :
    kernel.euid = g.euid ∧ kernel.egid = g.egid
  data :
    kernel.data = g.data

variable {g : Graph} {kernel first after : Kernel}
variable {index other : Index} {extra extra' : List Index}

/-- The kernel itself refers to the inode. -/
def Kernel.Pinned (kernel : Kernel) (index : Index) : Prop :=
  (kernel.inode index).mount = true ∨
    (∃ slot, (kernel.super slot).imount = some index) ∨
      kernel.root = index ∨ kernel.pwd = index

/--
A moment of a call that has begun with `first` and holds some more references:
the inodes that were in use are where they were.
-/
structure At
    (g : Graph)
    (first : Kernel)
    (extra : List Index)
    (kernel : Kernel) : Prop where
  shows :
    Shows g kernel
  count :
    ∀ index,
      (kernel.inode index).count = (first.inode index).count + extra.count index
  kept :
    ∀ index, 0 < (first.inode index).count →
      (kernel.inode index).key = (first.inode index).key
  pinned :
    ∀ index, kernel.Pinned index → 0 < (first.inode index).count
  steady :
    kernel.super = first.super ∧ kernel.root = first.root ∧ kernel.pwd = first.pwd

theorem Shows.at
    (shows : Shows g kernel) :
    At g kernel [] kernel where
  shows := shows
  count _ := rfl
  kept _ _ := rfl
  pinned index pinned := by
    rcases pinned with mount | ⟨slot, found⟩ | rfl | rfl
    · exact (shows.mount index mount).2.1
    · exact (shows.imount slot index found).2
    · exact shows.root.2.2
    · exact shows.pwd.2.2
  steady := ⟨rfl, rfl, rfl⟩

/-- Only counts, dirty bits and the inodes on the devices may differ. -/
structure Same (kernel after : Kernel) : Prop where
  inode :
    ∀ index, (after.inode index).toDInode = (kernel.inode index).toDInode
  key :
    ∀ index, (after.inode index).key = (kernel.inode index).key
  pipe :
    ∀ index, (after.inode index).pipe = (kernel.inode index).pipe
  mount :
    ∀ index, (after.inode index).mount = (kernel.inode index).mount
  super :
    after.super = kernel.super
  root :
    after.root = kernel.root
  pwd :
    after.pwd = kernel.pwd
  process :
    after.euid = kernel.euid ∧ after.egid = kernel.egid
  data :
    after.data = kernel.data

theorem Same.dev
    (same : Same kernel after)
    (index : Index) :
    (after.inode index).dev = (kernel.inode index).dev :=
  congrArg Prod.fst (same.key index)

theorem Same.refl : Same kernel kernel :=
  ⟨fun _ => rfl, fun _ => rfl, fun _ => rfl, fun _ => rfl, rfl, rfl, rfl,
    ⟨rfl, rfl⟩, rfl⟩

theorem Same.trans
    {middle : Kernel}
    (head : Same kernel middle)
    (rest : Same middle after) :
    Same kernel after where
  inode index := (rest.inode index).trans (head.inode index)
  key index := (rest.key index).trans (head.key index)
  pipe index := (rest.pipe index).trans (head.pipe index)
  mount index := (rest.mount index).trans (head.mount index)
  super := rest.super.trans head.super
  root := rest.root.trans head.root
  pwd := rest.pwd.trans head.pwd
  process :=
    ⟨rest.process.1.trans head.process.1, rest.process.2.trans head.process.2⟩
  data := rest.data.trans head.data

theorem getSuper_congr
    (super : after.super = kernel.super)
    (dev : Nat) :
    after.getSuper dev = kernel.getSuper dev := by
  unfold Kernel.getSuper
  rw [super]

theorem mountedOn_congr
    (super : after.super = kernel.super)
    (index : Index) :
    after.mountedOn index = kernel.mountedOn index := by
  unfold Kernel.mountedOn
  rw [super]

theorem getSuper_ne_none
    {dev : Nat}
    (there : kernel.getSuper dev ≠ none) :
    dev ≠ 0 := by
  rintro rfl
  exact there rfl

theorem Same.pinned
    (same : Same kernel after) :
    after.Pinned index ↔ kernel.Pinned index := by
  unfold Kernel.Pinned
  rw [same.mount, same.super, same.root, same.pwd]

/-- What is to be seen when only counts, dirty bits and devices differ. -/
theorem Shows.congr
    (shows : Shows g kernel)
    (same : Same kernel after)
    (pinned :
      ∀ index, kernel.Pinned index → 0 < (after.inode index).count)
    (used :
      ∀ index, 0 < (after.inode index).count →
        (kernel.inode index).dev ≠ 0 → kernel.getSuper (kernel.inode index).dev ≠ none)
    (dirty :
      ∀ index, (after.inode index).dirt = true →
        kernel.getSuper (kernel.inode index).dev ≠ none)
    (disk :
      ∀ key,
        (∀ index, (kernel.inode index).key = key → (after.inode index).dirt = false) →
        after.disk key = g.inode key) :
    Shows g after where
  inode index := by
    rw [same.dev, same.inode, same.key]
    exact shows.inode index
  disk key clean := by
    apply disk key
    intro index holds
    exact clean index ((same.key index).trans holds)
  unique index other := by
    rw [same.dev, same.key, same.key]
    exact shows.unique index other
  dirty index := by
    rw [same.dev, getSuper_congr same.super]
    exact dirty index
  used index := by
    rw [same.dev, getSuper_congr same.super]
    exact used index
  files index := by
    rw [same.dev, same.pipe]
    exact shows.files index
  mount index := by
    rw [same.mount, same.dev, same.key, mountedOn_congr same.super, same.super]
    intro mount
    obtain ⟨dev, _, slot, found, covers, super⟩ := shows.mount index mount
    refine ⟨dev, pinned index (Or.inl mount), slot, found, covers, ?_⟩
    rwa [getSuper_congr same.super]
  uncovered key uncovered := by
    apply shows.uncovered key
    intro index holds
    rw [← same.mount]
    exact uncovered index ((same.key index).trans holds)
  covered dev slot := by
    rw [getSuper_congr same.super, same.super]
    intro found
    rw [shows.covered dev slot found]
    congr 1
    funext index
    exact (same.key index).symm
  imount slot index := by
    rw [same.super, same.dev]
    intro found
    exact ⟨(shows.imount slot index found).1,
      pinned index (Or.inr (Or.inl ⟨slot, found⟩))⟩
  root := by
    rw [same.root, same.key, same.dev]
    exact ⟨shows.root.1, shows.root.2.1, pinned _ (Or.inr (Or.inr (Or.inl rfl)))⟩
  pwd := by
    rw [same.pwd, same.key, same.dev]
    exact ⟨shows.pwd.1, shows.pwd.2.1, pinned _ (Or.inr (Or.inr (Or.inr rfl)))⟩
  process := by
    rw [same.process.1, same.process.2]
    exact shows.process
  data := same.data.trans shows.data

theorem At.congr
    (moment : At g first extra kernel)
    (same : Same kernel after)
    (count :
      ∀ index,
        (after.inode index).count = (first.inode index).count + extra'.count index)
    (used :
      ∀ index, 0 < (after.inode index).count →
        (kernel.inode index).dev ≠ 0 → kernel.getSuper (kernel.inode index).dev ≠ none)
    (dirty :
      ∀ index, (after.inode index).dirt = true →
        kernel.getSuper (kernel.inode index).dev ≠ none)
    (disk :
      ∀ key,
        (∀ index, (kernel.inode index).key = key → (after.inode index).dirt = false) →
        after.disk key = g.inode key) :
    At g first extra' after where
  shows := by
    refine moment.shows.congr same ?_ used dirty disk
    intro index pinned
    rw [count]
    exact Nat.lt_of_lt_of_le (moment.pinned index pinned)
      (Nat.le_add_right _ _)
  count := count
  kept index used := by
    rw [same.key]
    exact moment.kept index used
  pinned index := by
    rw [same.pinned]
    exact moment.pinned index
  steady := by
    rw [same.super, same.root, same.pwd]
    exact moment.steady

/-! ## Small steps -/

/-- A store into an inode that changes none of what stays the same. -/
theorem same_set
    {changed : MInode}
    (disk : changed.toDInode = (kernel.inode index).toDInode)
    (key : changed.key = (kernel.inode index).key)
    (pipe : changed.pipe = (kernel.inode index).pipe)
    (mount : changed.mount = (kernel.inode index).mount) :
    Same kernel (kernel.set index changed) := by
  have each :
      ∀ other,
        ((kernel.set index changed).inode other).toDInode =
            (kernel.inode other).toDInode ∧
          ((kernel.set index changed).inode other).key = (kernel.inode other).key ∧
          ((kernel.set index changed).inode other).pipe = (kernel.inode other).pipe ∧
          ((kernel.set index changed).inode other).mount =
            (kernel.inode other).mount := by
    intro other
    unfold Kernel.set
    dsimp only
    by_cases this : other = index
    · rw [this, Function.update_self]
      exact ⟨disk, key, pipe, mount⟩
    · rw [Function.update_of_ne this]
      exact ⟨rfl, rfl, rfl, rfl⟩
  exact ⟨fun other => (each other).1, fun other => (each other).2.1,
    fun other => (each other).2.2.1, fun other => (each other).2.2.2, rfl,
    rfl, rfl, ⟨rfl, rfl⟩, rfl⟩

section SetCount

variable {value : Nat}

theorem setCount_inode_self :
    (kernel.setCount index value).inode index =
      { kernel.inode index with count := value } :=
  Function.update_self ..

theorem setCount_inode_of_ne
    (different : other ≠ index) :
    (kernel.setCount index value).inode other = kernel.inode other :=
  Function.update_of_ne different ..

theorem setCount_count :
    ((kernel.setCount index value).inode other).count =
      if other = index then value else (kernel.inode other).count := by
  by_cases this : other = index
  · rw [if_pos this, this, setCount_inode_self]
  · rw [if_neg this, setCount_inode_of_ne this]

theorem setCount_dirt :
    ((kernel.setCount index value).inode other).dirt =
      (kernel.inode other).dirt := by
  by_cases this : other = index
  · rw [this, setCount_inode_self]
  · rw [setCount_inode_of_ne this]

theorem same_setCount : Same kernel (kernel.setCount index value) :=
  same_set rfl rfl rfl rfl

end SetCount

/-- Another count, for a device that has a super block. -/
theorem At.setCount
    {value : Nat}
    (moment : At g first extra kernel)
    (count :
      ∀ other,
        (if other = index then value else (kernel.inode other).count) =
          (first.inode other).count + extra'.count other)
    (used :
      0 < value → (kernel.inode index).dev ≠ 0 →
        kernel.getSuper (kernel.inode index).dev ≠ none) :
    At g first extra' (kernel.setCount index value) := by
  refine moment.congr same_setCount ?_ ?_ ?_ ?_
  · intro other
    rw [setCount_count]
    exact count other
  · intro other
    rw [setCount_count]
    by_cases this : other = index
    · rw [if_pos this, this]
      exact used
    · rw [if_neg this]
      exact moment.shows.used other
  · intro other
    rw [setCount_dirt]
    exact moment.shows.dirty other
  · intro key clean
    apply moment.shows.disk key
    intro other holds
    rw [← setCount_dirt]
    exact clean other holds

theorem At.raise
    (moment : At g first extra kernel)
    (used :
      (kernel.inode index).dev ≠ 0 → kernel.getSuper (kernel.inode index).dev ≠ none) :
    At g first (index :: extra) (kernel.raise index) := by
  refine moment.setCount ?_ (fun _ => used)
  intro other
  rw [List.count_cons, moment.count other]
  by_cases this : other = index
  · rw [this, if_pos rfl, moment.count index, beq_self_eq_true, if_pos rfl,
      Nat.add_assoc]
  · rw [if_neg this, beq_false_of_ne (Ne.symm this),
      if_neg Bool.false_ne_true, Nat.add_zero]

theorem At.lower
    (moment : At g first (index :: extra) kernel) :
    At g first extra (kernel.lower index) := by
  refine moment.setCount ?_ ?_
  · intro other
    have counts := moment.count other
    rw [List.count_cons] at counts
    by_cases this : other = index
    · rw [this, beq_self_eq_true, if_pos rfl] at counts
      rw [if_pos this, this]
      omega
    · rw [beq_false_of_ne (Ne.symm this), if_neg Bool.false_ne_true,
        Nat.add_zero] at counts
      rw [if_neg this, counts]
  · intro positive
    exact moment.shows.used index (by omega)

section SetDirt

variable {value : Bool}

theorem setDirt_inode_self :
    (kernel.setDirt index value).inode index =
      { kernel.inode index with dirt := value } :=
  Function.update_self ..

theorem setDirt_inode_of_ne
    (different : other ≠ index) :
    (kernel.setDirt index value).inode other = kernel.inode other :=
  Function.update_of_ne different ..

theorem setDirt_count :
    ((kernel.setDirt index value).inode other).count =
      (kernel.inode other).count := by
  by_cases this : other = index
  · rw [this, setDirt_inode_self]
  · rw [setDirt_inode_of_ne this]

theorem same_setDirt : Same kernel (kernel.setDirt index value) :=
  same_set rfl rfl rfl rfl

end SetDirt

theorem At.markDirty
    (moment : At g first extra kernel)
    (super : kernel.getSuper (kernel.inode index).dev ≠ none) :
    At g first extra (kernel.setDirt index true) := by
  refine moment.congr same_setDirt ?_ ?_ ?_ ?_
  · intro other
    rw [setDirt_count]
    exact moment.count other
  · intro other
    rw [setDirt_count]
    exact moment.shows.used other
  · intro other
    by_cases this : other = index
    · rw [this]
      exact fun _ => super
    · rw [setDirt_inode_of_ne this]
      exact moment.shows.dirty other
  · intro key clean
    apply moment.shows.disk key
    intro other holds
    by_cases this : other = index
    · have dirty := clean other holds
      rw [this, setDirt_inode_self] at dirty
      cases dirty
    · rw [← setDirt_inode_of_ne this]
      exact clean other holds

/-- An inode is written to its place on the device. -/
theorem At.written
    (moment : At g first extra kernel)
    (dev : (kernel.inode index).dev ≠ 0) :
    At g first extra
      { kernel.setDirt index false with
        disk :=
          Function.update kernel.disk (kernel.inode index).key
            (kernel.inode index).toDInode } := by
  have same : Same kernel (kernel.setDirt index false) := same_setDirt
  refine moment.congr ⟨same.inode, same.key, same.pipe, same.mount, rfl, rfl,
    rfl, ⟨rfl, rfl⟩, rfl⟩ ?_ ?_ ?_ ?_
  · intro other
    change ((kernel.setDirt index false).inode other).count = _
    rw [setDirt_count]
    exact moment.count other
  · intro other
    change 0 < ((kernel.setDirt index false).inode other).count → _
    rw [setDirt_count]
    exact moment.shows.used other
  · intro other
    change ((kernel.setDirt index false).inode other).dirt = true → _
    by_cases this : other = index
    · rw [this, setDirt_inode_self]
      exact fun dirty => nomatch dirty
    · rw [setDirt_inode_of_ne this]
      exact moment.shows.dirty other
  · intro key clean
    change Function.update kernel.disk _ _ key = _
    by_cases this : key = (kernel.inode index).key
    · rw [this, Function.update_self]
      exact moment.shows.inode index dev
    · rw [Function.update_of_ne this]
      apply moment.shows.disk key
      intro other holds
      have elsewhere : other ≠ index := by
        rintro rfl
        exact this holds.symm
      rw [← setDirt_inode_of_ne elsewhere]
      exact clean other holds

theorem satisfies_writeInode
    (moment : At g first extra kernel) :
    (writeInode index).Satisfies kernel
      (fun _ after =>
        At g first extra after ∧ Same kernel after ∧ (after.inode index).dirt = false)
      (fun _ => False) := by
  unfold writeInode
  rw [satisfies_bind, satisfies_read]
  simp only
  by_cases dirty : (kernel.inode index).dirt = true
  · have super := moment.shows.dirty index dirty
    have dev := getSuper_ne_none super
    have test :
        (!(kernel.inode index).dirt || (kernel.inode index).dev == 0) =
          false := by
      rw [dirty]
      simpa using dev
    rw [test, if_neg Bool.false_ne_true]
    cases found : kernel.getSuper (kernel.inode index).dev with
    | none =>
      exact absurd found super
    | some slot =>
      rw [satisfies_update]
      have same : Same kernel (kernel.setDirt index false) :=
        same_setDirt
      refine ⟨moment.written dev,
        ⟨same.inode, same.key, same.pipe, same.mount, rfl, rfl, rfl,
          ⟨rfl, rfl⟩, rfl⟩, ?_⟩
      change ((kernel.setDirt index false).inode index).dirt = false
      rw [setDirt_inode_self]
  · rw [Bool.not_eq_true] at dirty
    rw [dirty]
    exact ⟨moment, .refl, dirty⟩

theorem satisfies_syncEach
    {indices : List Index}
    (moment : At g first extra kernel) :
    (syncEach indices).Satisfies kernel
      (fun _ after => At g first extra after ∧ Same kernel after)
      (fun _ => False) := by
  induction indices generalizing kernel with
  | nil =>
    exact ⟨moment, .refl⟩
  | cons index rest inductionHypothesis =>
    rw [syncEach, satisfies_bind, satisfies_read]
    by_cases needed :
        ((kernel.inode index).dirt && !(kernel.inode index).pipe) = true
    · rw [if_pos needed]
      refine (satisfies_writeInode moment).andThen ?_
      rintro _ middle ⟨moment', same, _⟩
      refine (inductionHypothesis moment').mono ?_ (fun _ => id)
      rintro _ last ⟨moment'', same'⟩
      exact ⟨moment'', same.trans same'⟩
    · rw [if_neg needed]
      exact inductionHypothesis moment

/-- A reference is given back; the last one of an inode with links only. -/
theorem satisfies_iput
    (moment : At g first (index :: extra) kernel)
    (noPipe : (kernel.inode index).pipe = false)
    (stays :
      (kernel.inode index).dev ≠ 0 →
        (g.inode (kernel.inode index).key).nlinks ≠ 0 ∨
          1 < (kernel.inode index).count) :
    (iput index).Satisfies kernel
      (fun _ after => At g first extra after ∧ Same kernel after)
      (fun _ => False) := by
  have positive : (kernel.inode index).count ≠ 0 := by
    rw [moment.count, List.count_cons_self]
    omega
  unfold iput
  rw [satisfies_bind, satisfies_read]
  simp only
  rw [if_neg positive, noPipe, if_neg Bool.false_ne_true]
  by_cases dev : (kernel.inode index).dev = 0
  · rw [if_pos dev]
    exact ⟨moment.lower, same_setCount⟩
  rw [if_neg dev]
  have rest :
      ∀ {middle : Kernel}, At g first (index :: extra) middle →
        Same kernel middle →
          (repeatPut index).Satisfies middle
            (fun _ after => At g first extra after ∧ Same kernel after)
            (fun _ => False) := by
    intro middle moment' same
    unfold repeatPut
    rw [satisfies_bind, satisfies_read]
    simp only
    by_cases several : 1 < (middle.inode index).count
    · rw [if_pos several]
      exact ⟨moment'.lower, same.trans same_setCount⟩
    · rw [if_neg several]
      have counts :
          (middle.inode index).count = (kernel.inode index).count := by
        rw [moment'.count, moment.count]
      have links : (middle.inode index).nlinks ≠ 0 := by
        have linked :=
          (stays dev).resolve_right (by rw [← counts]; exact several)
        rw [← moment.shows.inode index dev, ← same.inode] at linked
        exact linked
      rw [if_neg links]
      refine (satisfies_writeInode moment').andThen ?_
      rintro _ last ⟨moment'', same', _⟩
      exact ⟨moment''.lower, (same.trans same').trans same_setCount⟩
  by_cases block : isBlk (kernel.inode index).mode = true
  · rw [if_pos block]
    refine (satisfies_syncEach moment).andThen ?_
    rintro _ middle ⟨moment', same⟩
    exact rest moment' same
  · rw [if_neg block]
    exact rest moment .refl

end Paths

end HitOs
