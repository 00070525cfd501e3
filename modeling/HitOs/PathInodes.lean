import HitOs.PathWalks

namespace HitOs

/-!
# The inodes on the way

`get_empty_inode` and `iget` in a kernel that shows a graph, and `iput` in the table of
`Inodes` (`iput_table`).
-/

namespace Paths

open Routine
open Inodes (Index nrInode rootIno following)

/-! ## The search for a free place -/

theorem iterate_following
    (turns : Nat)
    (index : Index) :
    (following^[turns] index).val = (index.val + turns) % nrInode := by
  induction turns with
  | zero =>
    exact (Nat.mod_eq_of_lt index.isLt).symm
  | succ turns inductionHypothesis =>
    rw [Function.iterate_succ_apply']
    change ((following^[turns] index).val + 1) % nrInode = _
    rw [inductionHypothesis, Nat.mod_add_mod, Nat.add_assoc]

/-- The search comes to every place. -/
theorem exists_following
    (index other : Index) :
    ∃ turns < nrInode, following^[turns + 1] index = other := by
  have low := index.isLt
  have low' := other.isLt
  refine ⟨(other.val + nrInode - 1 - index.val) % nrInode, Nat.mod_lt _ (by decide), ?_⟩
  apply Fin.ext
  rw [iterate_following]
  change (index.val + ((other.val + 32 - 1 - index.val) % 32 + 1)) % 32 = _
  change index.val < 32 at low
  change other.val < 32 at low'
  omega

theorem search_of_none
    {table : Inodes.Table} {turns : Nat} {last last' : Index}
    {found : Option Index}
    (result : Inodes.search table turns last found = (none, last')) :
    found = none ∧
      ∀ turn < turns, (table.inode (following^[turn + 1] last)).count ≠ 0 := by
  induction turns generalizing last found with
  | zero =>
    cases result
    exact ⟨rfl, fun _ less => absurd less (Nat.not_lt_zero _)⟩
  | succ turns inductionHypothesis =>
    rw [Inodes.search] at result
    by_cases free : (table.inode (following last)).count = 0
    · rw [if_pos free] at result
      split at result
      · cases result
      · exact nomatch (inductionHypothesis result).1
    · rw [if_neg free] at result
      obtain ⟨nothing, used⟩ := inductionHypothesis result
      refine ⟨nothing, ?_⟩
      intro turn less
      cases turn with
      | zero =>
        exact free
      | succ turn =>
        exact used turn (Nat.lt_of_succ_lt_succ less)

theorem search_of_some
    {table : Inodes.Table} {turns : Nat} {last last' index : Index}
    {found : Option Index}
    (free : ∀ other, found = some other → (table.inode other).count = 0)
    (result : Inodes.search table turns last found = (some index, last')) :
    (table.inode index).count = 0 := by
  induction turns generalizing last found with
  | zero =>
    cases result
    exact free index rfl
  | succ turns inductionHypothesis =>
    rw [Inodes.search] at result
    by_cases unused : (table.inode (following last)).count = 0
    · rw [if_pos unused] at result
      split at result
      · cases result
        exact unused
      · refine inductionHypothesis ?_ result
        rintro other ⟨⟩
        exact unused
    · rw [if_neg unused] at result
      exact inductionHypothesis free result

variable {g : Graph} {kernel first after : Kernel}
variable {index other empty : Index} {extra : List Index} {key final : Key}

/-! ## `get_empty_inode` -/

/-- A place that has been cleared. -/
structure Cleared
    (first kernel : Kernel)
    (index : Index) : Prop where
  dev :
    (kernel.inode index).dev = 0
  pipe :
    (kernel.inode index).pipe = false
  mount :
    (kernel.inode index).mount = false
  unused :
    (first.inode index).count = 0

theorem Cleared.congr
    (cleared : Cleared first kernel index)
    (same : Same kernel after) :
    Cleared first after index where
  dev := (same.dev index).trans cleared.dev
  pipe := (same.pipe index).trans cleared.pipe
  mount := (same.mount index).trans cleared.mount
  unused := cleared.unused

/-- A place that is cleared is not one that the kernel refers to. -/
theorem At.not_pinned
    (moment : At g first extra kernel)
    (unused : (first.inode index).count = 0) :
    ¬ kernel.Pinned index := by
  intro pinned
  have used := moment.pinned index pinned
  omega

/-- A clean inode that nobody uses makes room for another one, or for none. -/
theorem At.replace
    {value : MInode} {extra' : List Index}
    (moment : At g first extra kernel)
    (unused : (first.inode index).count = 0)
    (clean : (kernel.inode index).dirt = false)
    (count :
      ∀ other,
        (if other = index then value.count
          else (kernel.inode other).count) =
          (first.inode other).count + extra'.count other)
    (noMount : value.mount = false)
    (noDirt : value.dirt = false)
    (shown :
      value.dev ≠ 0 →
        value.toDInode = g.inode value.key ∧ value.pipe = false ∧
          kernel.getSuper value.dev ≠ none ∧
          ∀ other, (kernel.inode other).key ≠ value.key) :
    At g first extra' (kernel.set index value) := by
  have self : (kernel.set index value).inode index = value :=
    Function.update_self ..
  have others :
      ∀ other, other ≠ index →
        (kernel.set index value).inode other = kernel.inode other :=
    fun other different => Function.update_of_ne different ..
  have notPinned := moment.not_pinned unused
  have elsewhere :
      ∀ other, kernel.Pinned other →
        (kernel.set index value).inode other = kernel.inode other := by
    intro other pinned
    apply others
    rintro rfl
    exact notPinned pinned
  have positive :
      ∀ other, kernel.Pinned other →
        0 < ((kernel.set index value).inode other).count := by
    intro other pinned
    rw [elsewhere other pinned, moment.count]
    exact Nat.lt_of_lt_of_le (moment.pinned other pinned)
      (Nat.le_add_right _ _)
  have shows := moment.shows
  refine ⟨?shows, ?count, ?kept, ?pinned, moment.steady⟩
  case count =>
    intro other
    rw [← count other]
    by_cases this : other = index
    · rw [if_pos this, this, self]
    · rw [if_neg this, others other this]
  case kept =>
    intro other used
    rw [others other (by rintro rfl; omega)]
    exact moment.kept other used
  case pinned =>
    rintro other (mount | rest)
    · by_cases this : other = index
      · rw [this, self, noMount] at mount
        cases mount
      · rw [others other this] at mount
        exact moment.pinned other (Or.inl mount)
    · exact moment.pinned other (Or.inr rest)
  case shows =>
    constructor
    case inode =>
      intro other
      by_cases this : other = index
      · rw [this, self]
        exact fun dev => (shown dev).1
      · rw [others other this]
        exact shows.inode other
    case disk =>
      intro key cleans
      apply shows.disk key
      intro other holds
      by_cases this : other = index
      · rw [this]
        exact clean
      · rw [← others other this] at holds ⊢
        exact cleans other holds
    case unique =>
      intro one two
      by_cases isOne : one = index
      · by_cases isTwo : two = index
        · exact fun _ _ => isOne.trans isTwo.symm
        · rw [isOne, self, others two isTwo]
          exact fun dev same => absurd same.symm ((shown dev).2.2.2 two)
      · by_cases isTwo : two = index
        · rw [isTwo, self, others one isOne]
          intro dev same
          have dev' : value.dev ≠ 0 := by
            rw [← show _ = value.dev from congrArg Prod.fst same]
            exact dev
          exact absurd same ((shown dev').2.2.2 one)
        · rw [others one isOne, others two isTwo]
          exact shows.unique one two
    case dirty =>
      intro other
      by_cases this : other = index
      · rw [this, self, noDirt]
        exact fun dirty => nomatch dirty
      · rw [others other this]
        exact shows.dirty other
    case used =>
      intro other
      by_cases this : other = index
      · rw [this, self]
        exact fun _ dev => (shown dev).2.2.1
      · rw [others other this]
        exact shows.used other
    case files =>
      intro other
      by_cases this : other = index
      · rw [this, self]
        exact fun dev => (shown dev).2.1
      · rw [others other this]
        exact shows.files other
    case mount =>
      intro other
      by_cases this : other = index
      · rw [this, self, noMount]
        exact fun mount => nomatch mount
      · intro mount
        have mount' : (kernel.inode other).mount = true := by
          rwa [others other this] at mount
        have counts := positive other (Or.inl mount')
        rw [others other this] at counts ⊢
        obtain ⟨dev, _, rest⟩ := shows.mount other mount'
        exact ⟨dev, counts, rest⟩
    case uncovered =>
      intro key uncovered
      apply shows.uncovered key
      intro other holds
      by_cases this : other = index
      · by_contra mount
        rw [Bool.not_eq_false, this] at mount
        exact notPinned (Or.inl mount)
      · rw [← others other this] at holds ⊢
        exact uncovered other holds
    case covered =>
      intro dev slot found
      have same := shows.covered dev slot found
      rw [same]
      change ((kernel.super slot).imount.map _) = (kernel.super slot).imount.map _
      cases there : (kernel.super slot).imount with
      | none =>
        rfl
      | some other =>
        rw [Option.map_some, Option.map_some,
          elsewhere other (Or.inr (Or.inl ⟨slot, there⟩))]
    case imount =>
      intro slot other there
      have pinned : kernel.Pinned other := Or.inr (Or.inl ⟨slot, there⟩)
      have counts := positive other pinned
      rw [elsewhere other pinned] at counts ⊢
      exact ⟨(shows.imount slot other there).1, counts⟩
    case root =>
      have pinned : kernel.Pinned kernel.root :=
        Or.inr (Or.inr (Or.inl rfl))
      have counts := positive _ pinned
      change ((kernel.set index value).inode kernel.root).key = _ ∧
        ((kernel.set index value).inode kernel.root).dev ≠ 0 ∧
          0 < ((kernel.set index value).inode kernel.root).count
      rw [elsewhere _ pinned] at counts ⊢
      exact ⟨shows.root.1, shows.root.2.1, counts⟩
    case pwd =>
      have pinned : kernel.Pinned kernel.pwd :=
        Or.inr (Or.inr (Or.inr rfl))
      have counts := positive _ pinned
      change ((kernel.set index value).inode kernel.pwd).key = _ ∧
        ((kernel.set index value).inode kernel.pwd).dev ≠ 0 ∧
          0 < ((kernel.set index value).inode kernel.pwd).count
      rw [elsewhere _ pinned] at counts ⊢
      exact ⟨shows.pwd.1, shows.pwd.2.1, counts⟩
    case process =>
      exact shows.process
    case data =>
      exact shows.data

/-- `memset(inode,0,sizeof(*inode)); inode->i_count = 1;` -/
theorem At.clear
    (moment : At g first extra kernel)
    (free : (kernel.inode index).count = 0)
    (clean : (kernel.inode index).dirt = false) :
    At g first (index :: extra)
      (kernel.set index { MInode.zero with count := 1 }) := by
  have counts := moment.count index
  have unused : (first.inode index).count = 0 := by omega
  have unheld : extra.count index = 0 := by omega
  refine moment.replace unused clean ?_ rfl rfl
    (fun dev => absurd rfl dev)
  intro other
  rw [List.count_cons]
  by_cases this : other = index
  · rw [if_pos this, this, beq_self_eq_true, if_pos rfl, unused, unheld]
  · rw [if_neg this, beq_false_of_ne (Ne.symm this),
      if_neg Bool.false_ne_true, moment.count other, Nat.add_zero]

theorem At.setLast
    {last : Index}
    (moment : At g first extra kernel) :
    At g first extra { kernel with last := last } :=
  moment.congr
    ⟨fun _ => rfl, fun _ => rfl, fun _ => rfl, fun _ => rfl, rfl, rfl, rfl,
      ⟨rfl, rfl⟩, rfl⟩
    moment.count moment.shows.used moment.shows.dirty moment.shows.disk

theorem satisfies_getEmptyInode
    (moment : At g first extra kernel)
    (room : ∃ index, (kernel.inode index).count = 0) :
    getEmptyInode.Satisfies kernel
      (fun index after =>
        At g first (index :: extra) after ∧ Cleared first after index ∧
          after.super = kernel.super)
      (fun _ => False) := by
  unfold getEmptyInode
  rw [satisfies_bind, satisfies_read]
  obtain ⟨free, unused⟩ := room
  cases result : Inodes.search kernel.table nrInode kernel.last none with
  | mk chosen last =>
    cases chosen with
    | none =>
      obtain ⟨turn, less, reached⟩ := exists_following kernel.last free
      have used := (search_of_none result).2 turn less
      rw [reached] at used
      exact absurd unused used
    | some index =>
      have free' : (kernel.inode index).count = 0 :=
        search_of_some (by rintro _ ⟨⟩) result
      have counts := moment.count index
      have test :
          ((kernel.inode index).dirt && (kernel.inode index).dev == 0) =
            false := by
        by_contra both
        rw [Bool.not_eq_false, Bool.and_eq_true, beq_iff_eq] at both
        exact getSuper_ne_none (moment.shows.dirty index both.1) both.2
      simp only
      rw [satisfies_bind, satisfies_update, test, if_neg Bool.false_ne_true]
      refine (satisfies_writeInode moment.setLast).andThen ?_
      rintro _ middle ⟨moment', same, clean⟩
      have free'' : (middle.inode index).count = 0 := by
        rw [moment'.count]
        omega
      have self :
          (middle.set index { MInode.zero with count := 1 }).inode
              index = { MInode.zero with count := 1 } :=
        Function.update_self ..
      exact ⟨moment'.clear free'' clean,
        ⟨congrArg MInode.dev self, congrArg MInode.pipe self,
          congrArg MInode.mount self, by omega⟩,
        same.super⟩

/-! ## `iget` -/

theorem At.perm
    {extra' : List Index}
    (moment : At g first extra kernel)
    (perm : extra.Perm extra') :
    At g first extra' kernel where
  shows := moment.shows
  count index := by
    rw [moment.count, perm.count_eq]
  kept := moment.kept
  pinned := moment.pinned
  steady := moment.steady

theorem find_of_some
    (found : kernel.find key = some index) :
    (kernel.inode index).key = key := by
  have holds := List.find?_some found
  exact eq_of_beq holds

theorem find_of_none
    (nowhere : kernel.find key = none)
    (index : Index) :
    (kernel.inode index).key ≠ key := by
  have different :=
    List.find?_eq_none.mp nowhere index (List.mem_finRange index)
  rwa [beq_iff_eq] at different

theorem Kernel.set_inode_self
    {value : MInode} :
    (kernel.set index value).inode index = value :=
  Function.update_self ..

@[simp] theorem Kernel.getSuper_set
    {value : MInode} {dev : Nat} :
    (kernel.set index value).getSuper dev = kernel.getSuper dev :=
  rfl

theorem Kernel.set_set
    {value value' : MInode} :
    (kernel.set index value).set index value' = kernel.set index value' := by
  unfold Kernel.set
  rw [Function.update_idem]

/-- The inode is read into the place that was cleared for it. -/
theorem At.enter
    (moment : At g first (empty :: extra) kernel)
    (cleared : Cleared first kernel empty)
    (super : kernel.getSuper key.1 ≠ none)
    (nowhere : kernel.find key = none) :
    At g first (empty :: extra)
      (kernel.set empty
        { kernel.inode empty with
          toDInode := kernel.disk key, dev := key.1, num := key.2 }) := by
  have clean : (kernel.inode empty).dirt = false := by
    by_contra dirty
    rw [Bool.not_eq_false] at dirty
    exact getSuper_ne_none (moment.shows.dirty empty dirty) cleared.dev
  have elsewhere := find_of_none nowhere
  refine moment.replace cleared.unused clean ?_ cleared.mount clean ?_
  · intro other
    rw [← moment.count other]
    by_cases this : other = empty
    · rw [if_pos this, this]
    · rw [if_neg this]
  · intro _
    refine ⟨?_, cleared.pipe, super, elsewhere⟩
    exact moment.shows.disk key
      (fun other holds => absurd holds (elsewhere other))

theorem satisfies_igetLoop
    {turns : Nat}
    (moment : At g first (empty :: extra) kernel)
    (cleared : Cleared first kernel empty)
    (super : kernel.getSuper key.1 ≠ none)
    (arrives : g.arrive turns key = some final) :
    (igetLoop turns key empty).Satisfies kernel
      (fun index after =>
        At g first (index :: extra) after ∧
          (after.inode index).key = final ∧ final.1 ≠ 0)
      (fun _ => False) := by
  induction turns generalizing kernel key with
  | zero =>
    cases arrives
  | succ turns inductionHypothesis =>
    have dev := getSuper_ne_none super
    have shows := moment.shows
    rw [Graph.arrive] at arrives
    rw [igetLoop, satisfies_bind, satisfies_read]
    cases found : kernel.find key with
    | none =>
      have uncovered : g.covers key = none :=
        shows.uncovered key
          (fun other holds => absurd holds (find_of_none found other))
      rw [uncovered] at arrives
      cases arrives
      have moment' := moment.enter cleared super found
      rw [satisfies_bind, satisfies_update, satisfies_bind, readInode,
        satisfies_bind, satisfies_read, Kernel.set_inode_self]
      simp only [Kernel.getSuper_set]
      cases there : kernel.getSuper final.1 with
      | none =>
        exact absurd there super
      | some slot =>
        simp only [satisfies_update, satisfies_pure, Kernel.set_set]
        exact ⟨moment', congrArg MInode.key Kernel.set_inode_self, dev⟩
    | some index =>
      have holds := find_of_some found
      have dev' : (kernel.inode index).dev ≠ 0 := by
        rw [show (kernel.inode index).dev = key.1 from
          congrArg Prod.fst holds]
        exact dev
      have raised :
          At g first (index :: empty :: extra) (kernel.raise index) := by
        refine moment.raise ?_
        rw [show (kernel.inode index).dev = key.1 from
          congrArg Prod.fst holds]
        exact fun _ => super
      have same : Same kernel (kernel.raise index) := same_setCount
      have noPipe : ((kernel.raise index).inode index).pipe = false := by
        rw [same.pipe]
        exact shows.files index dev'
      rw [satisfies_bind, satisfies_update]
      by_cases mount : (kernel.inode index).mount = true
      · rw [if_pos mount]
        obtain ⟨_, counts, slot, mounted, covers, super'⟩ :=
          shows.mount index mount
        rw [holds] at covers
        rw [covers] at arrives
        rw [mounted]
        have several : 1 < ((kernel.raise index).inode index).count := by
          rw [raised.count, List.count_cons_self]
          have pinned := moment.pinned index (Or.inl mount)
          omega
        refine (satisfies_iput raised noPipe
          (fun _ => Or.inr several)).andThen ?_
        rintro _ middle ⟨moment', same'⟩
        have both := same.trans same'
        refine inductionHypothesis moment' (cleared.congr both) ?_
          arrives
        rw [getSuper_congr both.super]
        exact super'
      · rw [if_neg mount]
        rw [Bool.not_eq_true] at mount
        have uncovered : g.covers key = none := by
          apply shows.uncovered key
          intro other holds'
          rwa [← shows.unique index other dev'
            (holds.trans holds'.symm)]
        rw [uncovered] at arrives
        cases arrives
        have cleared' := cleared.congr same
        have moment' :
            At g first (empty :: index :: extra)
              (kernel.raise index) :=
          raised.perm (List.Perm.swap ..)
        refine (satisfies_iput moment' cleared'.pipe
          (fun dev => absurd cleared'.dev dev)).andThen ?_
        rintro _ last ⟨moment'', same'⟩
        refine ⟨moment'', ?_, dev⟩
        rw [same'.key, same.key]
        exact holds

/-- The inode of an entry, behind all that is mounted on it. -/
theorem satisfies_iget
    (moment : At g first extra kernel)
    (room : ∃ index, (kernel.inode index).count = 0)
    (super : kernel.getSuper key.1 ≠ none)
    (arrives : g.arrive (nrSuper + 1) key = some final) :
    (iget key).Satisfies kernel
      (fun index after =>
        At g first (index :: extra) after ∧
          (after.inode index).key = final ∧ final.1 ≠ 0)
      (fun _ => False) := by
  unfold iget
  rw [if_neg (getSuper_ne_none super)]
  refine (satisfies_getEmptyInode moment room).andThen ?_
  rintro empty middle ⟨moment', cleared, same⟩
  refine satisfies_igetLoop moment' cleared ?_ arrives
  rwa [getSuper_congr same]

/-! ## One step of the table -/

theorem Kernel.table_set
    (index : Index)
    (value : MInode)
    (kernel : Kernel) :
    (kernel.set index value).table =
      kernel.table.set index ((kernel.set index value).table.inode index) := by
  unfold Kernel.table Inodes.Table.set
  congr 1
  funext other
  by_cases same : other = index
  · rw [same, Function.update_self]
  · rw [Function.update_of_ne same]
    simp only [Kernel.set, Function.update_of_ne same]

/--
An `iput` that neither writes nor frees is one step of the table in which the tasks take
turns.
-/
theorem iput_table
    {kernel : Kernel} {index : Index} {held : List Index}
    (mounts : Index → Option Inodes.Device)
    (used : (kernel.inode index).count ≠ 0)
    (quiet :
      (kernel.inode index).pipe = true ∨ (kernel.inode index).dev = 0 ∨
        isBlk (kernel.inode index).mode = false ∧
          (1 < (kernel.inode index).count ∨
            (kernel.inode index).nlinks ≠ 0 ∧ (kernel.inode index).dirt = false)) :
    ∃ after, iput index kernel = .ret () after ∧
      Inodes.act mounts .go kernel.table ⟨.putting index .task, held⟩ =
        some (after.table, ⟨.idle, held⟩) := by
  have reads : (Routine.read : Routine Kernel Kernel) kernel = .ret kernel kernel := rfl
  have lowers : (kernel.lower index).table = kernel.table.lower index := by
    unfold Kernel.lower Kernel.setCount
    rw [Kernel.table_set]
    simp [Kernel.table, Inodes.Table.lower, Kernel.set]
  have empties :
      (kernel.set index
          { kernel.inode index with count := 0, dirt := false, pipe := false }).table =
        kernel.table.set index
          { kernel.table.inode index with
            count := 0, dirt := false, pipe := false } := by
    rw [Kernel.table_set]
    simp [Kernel.table, Kernel.set]
  unfold iput Inodes.act
  rw [bind_of_ret reads]
  have lock : (kernel.table.inode index).lock = false := rfl
  have count : (kernel.table.inode index).count = (kernel.inode index).count := rfl
  have pipe : (kernel.table.inode index).pipe = (kernel.inode index).pipe := rfl
  have dev : (kernel.table.inode index).dev = (kernel.inode index).dev := rfl
  have blk : (kernel.table.inode index).blk = isBlk (kernel.inode index).mode := rfl
  simp only [lock, count, pipe, dev, blk, if_neg used, Bool.false_or, beq_iff_eq]
  by_cases isPipe : (kernel.inode index).pipe = true
  · simp only [if_pos isPipe]
    split
    · exact ⟨_, rfl, by rw [empties]; rfl⟩
    · exact ⟨_, rfl, by rw [lowers]; rfl⟩
  · simp only [if_neg isPipe]
    by_cases noDevice : (kernel.inode index).dev = 0
    · simp only [if_pos noDevice]
      exact ⟨_, rfl, by rw [lowers]; rfl⟩
    · obtain ⟨notBlk, quiet⟩ := (quiet.resolve_left isPipe).resolve_left noDevice
      have nlinks : (kernel.table.inode index).nlinks = (kernel.inode index).nlinks := rfl
      have dirt : (kernel.table.inode index).dirt = (kernel.inode index).dirt := rfl
      simp only [if_neg noDevice, notBlk, Bool.false_eq_true, if_false]
      unfold repeatPut Inodes.repeatPut
      rw [bind_of_ret reads]
      simp only [count, nlinks, dirt]
      by_cases shared : 1 < (kernel.inode index).count
      · simp only [if_pos shared]
        exact ⟨_, rfl, by rw [lowers]; rfl⟩
      · obtain ⟨links, clean⟩ := quiet.resolve_left shared
        have keeps : writeInode index kernel = .ret () kernel := by
          unfold writeInode
          rw [bind_of_ret reads]
          simp only [clean, Bool.not_false, Bool.true_or, if_true]
          rfl
        simp only [if_neg shared, if_neg links, clean, Bool.false_eq_true, if_false,
          bind_of_ret keeps]
        exact ⟨_, rfl, by rw [lowers]; rfl⟩

end Paths

end HitOs
