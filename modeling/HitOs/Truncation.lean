import HitOs.BlockMap
import Mathlib.Data.Set.Insert
import Mathlib.Data.List.Infix

namespace HitOs

/-!
# Truncation

`truncate` frees the zones of a file, the blocks of the tree after the words in
them.  The loops are followed by the set of slots whose zones they have freed.
-/

namespace Zones

open Routine

/-! ## Paths below a path -/

theorem suffix_iff
    {path below : List Nat} :
    path <:+ below ↔
      below = path ∨ ∃ index, (index :: path) <:+ below := by
  constructor
  · rintro ⟨front, rfl⟩
    rcases List.eq_nil_or_concat front with rfl | ⟨rest, index, rfl⟩
    · exact Or.inl rfl
    · exact Or.inr ⟨index, rest, by simp⟩
  · rintro (rfl | ⟨index, suffix⟩)
    · exact List.suffix_rfl
    · exact (List.suffix_cons index path).trans suffix

theorem IsPath.suffix
    {path below : List Nat}
    (isPath : IsPath below)
    (suffix : path <:+ below)
    (notEmpty : path ≠ []) :
    IsPath path := by
  induction below with
  | nil =>
    exact absurd isPath id
  | cons index parent inductionHypothesis =>
    rcases List.suffix_cons_iff.mp suffix with rfl | inside
    · exact isPath
    · match parent with
      | [] =>
        exact absurd (List.suffix_nil.mp inside) notEmpty
      | next :: rest =>
        exact inductionHypothesis isPath.parent inside

/-- Two words of one block lead to different slots. -/
theorem suffix_index
    {index other : Nat} {path below : List Nat}
    (first : (index :: path) <:+ below)
    (second : (other :: path) <:+ below) :
    index = other := by
  have same :=
    (List.suffix_of_suffix_length_le first second (Nat.le_refl _)).eq_of_length
      rfl
  exact List.head_eq_of_cons_eq same

theorem IsPath.index_lt
    {index next : Nat} {rest : List Nat}
    (isPath : IsPath (index :: next :: rest)) :
    index < 512 := by
  match rest with
  | [] =>
    exact isPath.1
  | [_] =>
    exact isPath.1

variable {sb : SuperBlock} {fs : Fs} {inode : Nat}

/-- Below an empty slot there is nothing. -/
theorem zoneAt_below
    {path below : List Nat}
    (notEmpty : path ≠ [])
    (empty : fs.zoneAt inode path = 0)
    (suffix : path <:+ below) :
    fs.zoneAt inode below = 0 := by
  induction below with
  | nil =>
    rfl
  | cons index parent inductionHypothesis =>
    rcases List.suffix_cons_iff.mp suffix with rfl | inside
    · exact empty
    · match parent with
      | [] =>
        exact absurd (List.suffix_nil.mp inside) notEmpty
      | next :: rest =>
        change fs.entry (fs.zoneAt inode (next :: rest)) index = 0
        rw [inductionHypothesis inside, Fs.entry, if_pos rfl]

/-! ## Zones on their way out -/

/--
From `fs` on, the zones in a set of slots of one file have been freed; the words
of the blocks have not been touched.
-/
structure Releasing
    (sb : SuperBlock)
    (fs : Fs)
    (inode : Nat)
    (nodes : Nat → Inode)
    (counts : Nat → Nat)
    (freed : Set (List Nat))
    (state : Fs) : Prop where
  bits :
    ∀ bit, state.zmap bit = true ↔
      fs.zmap bit = true ∧
        ∀ path ∈ freed, IsPath path → fs.zoneAt inode path ≠ 0 →
          sb.bit (fs.zoneAt inode path) ≠ bit
  data :
    state.data = fs.data
  nodes :
    state.inode = nodes
  counts :
    state.count = counts

section Freeing

variable {nodes : Nat → Inode} {counts : Nat → Nat}
variable {freed other : Set (List Nat)} {state : Fs}
variable {path : List Nat}

/-- Only slots that have a zone count. -/
theorem Releasing.congr
    (releasing : Releasing sb fs inode nodes counts freed state)
    (same :
      ∀ path, IsPath path → fs.zoneAt inode path ≠ 0 → (path ∈ freed ↔ path ∈ other)) :
    Releasing sb fs inode nodes counts other state := by
  refine { releasing with bits := ?_ }
  intro bit
  rw [releasing.bits]
  refine and_congr_right fun _ => ?_
  constructor
  · intro all path member isPath present
    exact all path ((same path isPath present).mpr member) isPath present
  · intro all path member isPath present
    exact all path ((same path isPath present).mp member) isPath present

/-- `free_block` on the zone of a slot that has not been freed yet. -/
theorem Releasing.freeBlock
    (releasing : Releasing sb fs inode nodes counts freed state)
    (consistent : Consistent sb fs)
    (slot : fs.Slot inode path)
    (present : fs.zoneAt inode path ≠ 0)
    (fresh : path ∉ freed)
    (unused : counts (fs.zoneAt inode path) = 0) :
    (Zones.freeBlock sb (fs.zoneAt inode path)).Satisfies state
      (fun _ after =>
        Releasing sb fs inode nodes counts (insert path freed) after)
      (fun _ => False) := by
  have isZone := consistent.inRange inode path slot present
  have stillMarked :
      state.zmap (sb.bit (fs.zoneAt inode path)) = true := by
    rw [releasing.bits]
    refine ⟨consistent.marked inode path slot present, ?_⟩
    intro gone member isPath presentGone sameBit
    have sameZone :=
      SuperBlock.bit_inj
        (consistent.inRange inode gone ⟨slot.1, isPath⟩ presentGone)
        isZone sameBit
    obtain ⟨_, rfl⟩ :=
      consistent.unique _ _ _ _ ⟨slot.1, isPath⟩ slot presentGone sameZone
    exact fresh member
  have inside :
      ¬ (fs.zoneAt inode path < sb.firstDataZone ∨
        sb.nzones ≤ fs.zoneAt inode path) := by
    have range := isZone
    unfold SuperBlock.IsZone at range
    omega
  unfold Zones.freeBlock
  rw [if_neg inside, satisfies_bind, satisfies_read, releasing.counts,
    unused, if_neg (not_not.mpr rfl), if_pos stillMarked,
    satisfies_update]
  refine ⟨?_, releasing.data, releasing.nodes, releasing.counts⟩
  intro bit
  unfold Fs.setBit
  by_cases same : bit = sb.bit (fs.zoneAt inode path)
  · rw [same]
    simp only [Function.update_self, Bool.false_eq_true, false_iff]
    rintro ⟨_, all⟩
    exact all path (Set.mem_insert path freed) slot.2 present rfl
  · simp only [Function.update_of_ne same]
    rw [releasing.bits]
    refine and_congr_right fun _ => ?_
    constructor
    · rintro all gone (rfl | member) isPath presentGone
      · exact Ne.symm same
      · exact all gone member isPath presentGone
    · intro all gone member isPath presentGone
      exact all gone (Set.mem_insert_of_mem path member) isPath presentGone

/-- A slot and the slots below it. -/
def Below (path : List Nat) : Set (List Nat) :=
  {below | path <:+ below}

/-- No buffer of the zones from a slot on is in use. -/
def Unused
    (fs : Fs)
    (inode : Nat)
    (counts : Nat → Nat)
    (path : List Nat) : Prop :=
  ∀ below, path <:+ below → IsPath below → fs.zoneAt inode below ≠ 0 →
    counts (fs.zoneAt inode below) = 0

/-- A routine that frees the zones from a slot on, given the slot's zone. -/
def Frees
    (sb : SuperBlock)
    (fs : Fs)
    (inode : Nat)
    (path : List Nat)
    (free : Nat → Routine Fs Unit) : Prop :=
  ∀ ⦃nodes : Nat → Inode⦄ ⦃counts : Nat → Nat⦄ ⦃freed : Set (List Nat)⦄
      ⦃state : Fs⦄,
    Releasing sb fs inode nodes counts freed state →
    (∀ below, path <:+ below → below ∉ freed) →
    Unused fs inode counts path →
      (free (fs.zoneAt inode path)).Satisfies state
        (fun _ after =>
          Releasing sb fs inode nodes counts (freed ∪ Below path) after)
        (fun _ => False)

/-- A block of the file has nothing below it. -/
theorem frees_freeBlock
    {path : List Nat}
    (consistent : Consistent sb fs)
    (slot : fs.Slot inode path)
    (present : fs.zoneAt inode path ≠ 0)
    (lowest : ∀ index, ¬ IsPath (index :: path)) :
    Frees sb fs inode path (freeBlock sb) := by
  intro nodes counts freed state releasing fresh unused
  refine (releasing.freeBlock consistent slot present
    (fresh path List.suffix_rfl)
    (unused path List.suffix_rfl slot.2 present)).mono ?_ (fun _ => id)
  intro _ after released
  refine released.congr ?_
  intro below isPath _
  rw [Set.union_comm, Set.insert_eq, Set.mem_union, Set.mem_union]
  refine or_congr_left ?_
  rw [Set.mem_singleton_iff, Below, Set.mem_ofPred_eq, suffix_iff]
  refine (or_iff_left ?_).symm
  rintro ⟨index, suffix⟩
  exact lowest index (isPath.suffix suffix (List.cons_ne_nil index path))

/-- The slots from the first words of a block on. -/
def belowWords (path : List Nat) (words : Nat) : Set (List Nat) :=
  {below | ∃ index, index < words ∧ (index :: path) <:+ below}

theorem belowWords_succ
    {path : List Nat} {words : Nat} :
    belowWords path (words + 1) =
      belowWords path words ∪ Below (words :: path) := by
  ext below
  constructor
  · rintro ⟨index, lower, suffix⟩
    rcases Nat.lt_succ_iff_lt_or_eq.mp lower with earlier | rfl
    · exact Or.inl ⟨index, earlier, suffix⟩
    · exact Or.inr suffix
  · rintro (⟨index, lower, suffix⟩ | suffix)
    · exact ⟨index, Nat.lt_succ_of_lt lower, suffix⟩
    · exact ⟨words, Nat.lt_succ_self words, suffix⟩

/-- All words of a block and the block itself. -/
theorem mem_below_iff
    {path below : List Nat}
    (notEmpty : path ≠ [])
    (isPath : IsPath below) :
    below ∈ insert path (freed ∪ belowWords path (0 + 512)) ↔
      below ∈ freed ∪ Below path := by
  have words :
      below ∈ belowWords path (0 + 512) ↔
        ∃ index, (index :: path) <:+ below := by
    constructor
    · rintro ⟨index, _, suffix⟩
      exact ⟨index, suffix⟩
    · rintro ⟨index, suffix⟩
      obtain ⟨next, rest, rfl⟩ := List.exists_cons_of_ne_nil notEmpty
      have inner := isPath.suffix suffix (List.cons_ne_nil _ _)
      exact ⟨index, inner.index_lt, suffix⟩
  rw [Set.mem_insert_iff, Set.mem_union, Set.mem_union, words, Below,
    Set.mem_ofPred_eq, suffix_iff]
  exact or_left_comm

/-- What the loop of `free_ind` does with one word. -/
theorem frees_word
    {path : List Nat} {index : Nat} {free : Nat → Routine Fs Unit}
    (consistent : Consistent sb fs)
    (slot : fs.Slot inode path)
    (present : fs.zoneAt inode path ≠ 0)
    (child : IsPath (index :: path))
    (frees :
      fs.zoneAt inode (index :: path) ≠ 0 → Frees sb fs inode (index :: path) free)
    (releasing :
      Releasing sb fs inode nodes
        (Function.update counts (fs.zoneAt inode path) 1)
        (freed ∪ belowWords path index) state)
    (fresh : ∀ below, path <:+ below → below ∉ freed)
    (unused : Unused fs inode counts path) :
    Satisfies
      (do
        let fs' ← read
        if (fs'.data (fs.zoneAt inode path)).word index ≠ 0 then
          free ((fs'.data (fs.zoneAt inode path)).word index))
      state
      (fun _ after =>
        Releasing sb fs inode nodes
          (Function.update counts (fs.zoneAt inode path) 1)
          (freed ∪ belowWords path (index + 1)) after)
      (fun _ => False) := by
  have notEmpty : path ≠ [] := by
    rintro rfl
    exact slot.2
  have found :
      (state.data (fs.zoneAt inode path)).word index =
        fs.zoneAt inode (index :: path) := by
    obtain ⟨next, rest, rfl⟩ := List.exists_cons_of_ne_nil notEmpty
    change _ = fs.entry (fs.zoneAt inode (next :: rest)) index
    rw [releasing.data, Fs.entry, if_neg present]
  rw [belowWords_succ, ← Set.union_assoc, satisfies_bind, satisfies_read, found]
  by_cases empty : fs.zoneAt inode (index :: path) = 0
  · rw [if_neg (not_not.mpr empty), satisfies_pure]
    refine releasing.congr ?_
    intro below _ presentBelow
    refine (or_iff_left ?_).symm
    intro suffix
    exact presentBelow (zoneAt_below (List.cons_ne_nil _ _) empty suffix)
  · rw [if_pos empty]
    apply frees empty releasing
    · rintro below suffix (member | ⟨earlier, lower, other⟩)
      · exact fresh below ((List.suffix_cons index path).trans suffix)
          member
      · exact Nat.ne_of_lt lower (suffix_index other suffix)
    · intro below suffix isPath presentBelow
      have different :
          fs.zoneAt inode below ≠ fs.zoneAt inode path := by
        intro same
        obtain ⟨_, rfl⟩ :=
          consistent.unique _ _ _ _ ⟨slot.1, isPath⟩ slot presentBelow same
        exact absurd suffix.length_le (Nat.not_succ_le_self _)
      rw [Function.update_of_ne different]
      exact unused below ((List.suffix_cons index path).trans suffix)
        isPath presentBelow

/-- `free_ind` and `free_dind`, for what they do with a word. -/
theorem frees_freeWords
    {path : List Nat} {free : Nat → Routine Fs Unit}
    (consistent : Consistent sb fs)
    (slot : fs.Slot inode path)
    (children : ∀ index, index < 512 → IsPath (index :: path))
    (frees :
      ∀ index, fs.zoneAt inode (index :: path) ≠ 0 →
        index < 512 → Frees sb fs inode (index :: path) free) :
    Frees sb fs inode path (freeWords sb free) := by
  intro nodes counts freed state releasing fresh unused
  have notEmpty : path ≠ [] := by
    rintro rfl
    exact slot.2
  unfold freeWords
  by_cases absent : fs.zoneAt inode path = 0
  · rw [if_pos absent, satisfies_pure]
    refine releasing.congr ?_
    intro below isPath present
    refine (or_iff_left ?_).symm
    intro suffix
    exact present (zoneAt_below notEmpty absent suffix)
  · have zeroCount := unused path List.suffix_rfl slot.2 absent
    rw [if_neg absent, bread, satisfies_bind, satisfies_update]
    have held :
        Releasing sb fs inode nodes
          (Function.update counts (fs.zoneAt inode path) 1) freed
          (state.setCount (fs.zoneAt inode path)
            (state.count (fs.zoneAt inode path) + 1)) := by
      refine ⟨releasing.bits, releasing.data, releasing.nodes, ?_⟩
      unfold Fs.setCount
      rw [releasing.counts, zeroCount]
    -- Before word `k` the slots below the words before it are freed.
    refine (satisfies_forUp
      (fun k after =>
        Releasing sb fs inode nodes
          (Function.update counts (fs.zoneAt inode path) 1)
          (freed ∪ belowWords path k) after)
      (held.congr (by simp [belowWords])) ?_).andThen ?_
    · intro k before _ upper releasing'
      rw [Nat.zero_add] at upper
      exact frees_word consistent slot absent (children k upper)
        (fun present => frees k present upper) releasing' fresh unused
    · intro _ after released
      have one :
          after.count (fs.zoneAt inode path) = 0 + 1 := by
        rw [released.counts, Function.update_self]
      rw [satisfies_bind_of_ret (brelse_of_succ one)]
      have dropped :
          Releasing sb fs inode nodes counts
            (freed ∪ belowWords path (0 + 512))
            (after.setCount (fs.zoneAt inode path) 0) := by
        refine ⟨released.bits, released.data, released.nodes, ?_⟩
        unfold Fs.setCount
        rw [released.counts, Function.update_idem, ← zeroCount, Function.update_eq_self]
      refine (dropped.freeBlock consistent slot absent ?_ zeroCount).mono
        ?_ (fun _ => id)
      · rintro (member | ⟨index, _, suffix⟩)
        · exact fresh path List.suffix_rfl member
        · exact absurd suffix.length_le (Nat.not_succ_le_self _)
      · intro _ last freedAll
        refine freedAll.congr ?_
        intro below isPath _
        exact mem_below_iff notEmpty isPath

end Freeing

/-! ## The whole file -/

/-- The first entries of `i_zone` set to 0. -/
def Fs.clearedZones (fs : Fs) (inode upto : Nat) : Nat → Inode :=
  Function.update fs.inode inode
    { fs.inode inode with
      zone := fun index =>
        if index < upto then 0 else (fs.inode inode).zone index }

theorem clearedZones_zero : fs.clearedZones inode 0 = fs.inode := by
  unfold Fs.clearedZones
  simp

theorem clearedZones_zone
    {upto index : Nat}
    (above : upto ≤ index) :
    ((fs.clearedZones inode upto) inode).zone index =
      fs.zoneAt inode [index] := by
  unfold Fs.clearedZones
  rw [Function.update_self]
  exact if_neg (Nat.not_lt.mpr above)

/-- One more entry of `i_zone` set to 0. -/
theorem clearedZones_succ
    {index : Nat} {state : Fs}
    (nodes : state.inode = fs.clearedZones inode index) :
    (state.setZone inode index 0).inode =
      fs.clearedZones inode (index + 1) := by
  unfold Fs.setZone Fs.setInode
  simp only [nodes]
  unfold Fs.clearedZones
  rw [Function.update_self, Function.update_idem]
  congr 2
  funext other
  by_cases same : other = index
  · simp [same]
  · rw [Function.update_of_ne same]
    have earlier : (other < index + 1) ↔ other < index := by
      omega
    simp only [earlier]

/-- What `truncate` leaves of a file, and of the others. -/
structure Truncated
    (sb : SuperBlock)
    (fs : Fs)
    (inode : Nat)
    (after : Fs) : Prop where
  bits :
    ∀ bit, after.zmap bit = true ↔
      fs.zmap bit = true ∧
        ∀ path, IsPath path → fs.zoneAt inode path ≠ 0 →
          sb.bit (fs.zoneAt inode path) ≠ bit
  data :
    after.data = fs.data
  count :
    after.count = fs.count
  others :
    ∀ other, other ≠ inode → after.inode other = fs.inode other
  mode :
    (after.inode inode).mode = (fs.inode inode).mode
  size :
    (after.inode inode).size = 0
  zone :
    ∀ index, index < 9 → (after.inode inode).zone index = 0

/-- The loop over the direct zones. -/
theorem releasing_direct
    (consistent : Consistent sb fs)
    (file : fs.IsFile inode)
    (unused : ∀ zone, sb.IsZone zone → fs.count zone = 0) :
    (forUp
      (fun index => do
        let fs ← read
        if (fs.inode inode).zone index ≠ 0 then
          freeBlock sb ((fs.inode inode).zone index)
          update (Fs.setZone inode index 0))
      7 0).Satisfies fs
      (fun _ after =>
        Releasing sb fs inode (fs.clearedZones inode (0 + 7)) fs.count
          {path | ∃ index, index < 0 + 7 ∧ path = [index]} after)
      (fun _ => False) := by
  apply satisfies_forUp fun k after =>
    Releasing sb fs inode (fs.clearedZones inode k) fs.count
      {path | ∃ index, index < k ∧ path = [index]} after
  · refine ⟨?_, rfl, clearedZones_zero.symm, rfl⟩
    intro bit
    refine (and_iff_left ?_).symm
    rintro path ⟨index, below, _⟩
    exact absurd below (Nat.not_lt_zero index)
  · intro k before _ upper releasing
    rw [Nat.zero_add] at upper
    have slot : fs.Slot inode [k] :=
      ⟨file, Nat.lt_trans upper (by decide)⟩
    have found :
        (before.inode inode).zone k = fs.zoneAt inode [k] := by
      rw [releasing.nodes]
      exact clearedZones_zone (Nat.le_refl k)
    have next :
        ∀ path, path ∈ {path | ∃ index, index < k + 1 ∧ path = [index]} ↔
          path ∈ insert [k] {path | ∃ index, index < k ∧ path = [index]} := by
      intro path
      rw [Set.mem_insert_iff]
      constructor
      · rintro ⟨index, below, rfl⟩
        rcases Nat.lt_succ_iff_lt_or_eq.mp below with earlier | rfl
        · exact Or.inr ⟨index, earlier, rfl⟩
        · exact Or.inl rfl
      · rintro (rfl | ⟨index, below, rfl⟩)
        · exact ⟨k, Nat.lt_succ_self k, rfl⟩
        · exact ⟨index, Nat.lt_succ_of_lt below, rfl⟩
    rw [satisfies_bind, satisfies_read, found]
    by_cases empty : fs.zoneAt inode [k] = 0
    · rw [if_neg (not_not.mpr empty), satisfies_pure]
      have unchanged : before.setZone inode k 0 = before :=
        setZone_eq_self (found.trans empty)
      refine (Releasing.congr ⟨releasing.bits, releasing.data, ?_, releasing.counts⟩ ?_)
      · rw [← clearedZones_succ releasing.nodes, unchanged]
      · intro path _ present
        rw [next, Set.mem_insert_iff]
        refine (or_iff_right ?_).symm
        rintro rfl
        exact present empty
    · rw [if_pos empty]
      have isZone := consistent.inRange inode [k] slot empty
      refine (releasing.freeBlock consistent slot empty ?_
        (unused _ isZone)).andThen ?_
      · rintro ⟨index, below, same⟩
        cases same
        exact Nat.lt_irrefl k below
      · intro _ after released
        rw [satisfies_update]
        refine Releasing.congr ⟨released.bits, released.data,
          clearedZones_succ released.nodes, released.counts⟩ ?_
        intro path _ _
        exact (next path).symm

/-- `free_ind` on a block whose words are blocks of the file. -/
theorem frees_freeInd
    {path : List Nat}
    (consistent : Consistent sb fs)
    (slot : fs.Slot inode path)
    (children : ∀ index, index < 512 → IsPath (index :: path))
    (lowest : ∀ index below, ¬ IsPath (below :: index :: path)) :
    Frees sb fs inode path (freeInd sb) := by
  have frees :
      Frees sb fs inode path (freeWords sb (freeBlock sb)) :=
    frees_freeWords consistent slot children
      fun index present inside =>
        frees_freeBlock consistent ⟨slot.1, children index inside⟩ present
          (lowest index)
  exact frees

/-- `free_dind` on the double indirect block of the file. -/
theorem frees_freeDind
    (consistent : Consistent sb fs)
    (file : fs.IsFile inode) :
    Frees sb fs inode [8] (freeDind sb) := by
  have eight : fs.Slot inode [8] :=
    ⟨file, show 8 < 9 by decide⟩
  have children : ∀ index, index < 512 → IsPath [index, 8] :=
    fun _ inside => ⟨inside, Or.inr rfl⟩
  have frees :
      Frees sb fs inode [8] (freeWords sb (freeInd sb)) := by
    refine frees_freeWords consistent eight children ?_
    intro single _ singleInside
    exact frees_freeInd consistent ⟨file, children single singleInside⟩
      (fun index inside => ⟨inside, singleInside, rfl⟩) (fun _ _ => id)
  exact frees

/-- The slots of the three loops are all there are. -/
theorem mem_all_slots
    {path : List Nat}
    (isPath : IsPath path) :
    path ∈ {path | ∃ index, index < 0 + 7 ∧ path = [index]} ∪
      Below [7] ∪ Below [8] := by
  have parts : ∀ index, index < 9 → [index] <:+ path →
      path = [index] ∨ index = 7 ∨ index = 8 →
        path ∈ {path | ∃ index, index < 0 + 7 ∧ path = [index]} ∪
          Below [7] ∪ Below [8] := by
    intro index inside suffix shape
    by_cases seven : index = 7
    · exact Or.inl (Or.inr (seven ▸ suffix))
    · by_cases eight : index = 8
      · exact Or.inr (eight ▸ suffix)
      · rcases shape with rfl | wrong | wrong
        · exact Or.inl (Or.inl ⟨index, by omega, rfl⟩)
        · exact absurd wrong seven
        · exact absurd wrong eight
  match path with
  | [index] =>
    exact parts index isPath List.suffix_rfl (Or.inl rfl)
  | [index, single] =>
    rcases isPath.2 with rfl | rfl
    · exact parts 7 (by decide) (List.suffix_cons index [7])
        (Or.inr (Or.inl rfl))
    · exact parts 8 (by decide) (List.suffix_cons index [8])
        (Or.inr (Or.inr rfl))
  | [index, single, double] =>
    obtain ⟨_, _, rfl⟩ := isPath
    exact parts 8 (by decide) ⟨[index, single], rfl⟩
      (Or.inr (Or.inr rfl))

/-- `truncate` frees every zone of the file and no other. -/
theorem satisfies_truncate
    (consistent : Consistent sb fs)
    (file : fs.IsFile inode)
    (unused : ∀ zone, sb.IsZone zone → fs.count zone = 0) :
    (truncate sb inode).Satisfies fs
      (fun _ after => Truncated sb fs inode after) (fun _ => False) := by
  have quiet : ∀ path, Unused fs inode fs.count path :=
    fun _ below _ isPath present =>
      unused _ (consistent.inRange inode below ⟨file, isPath⟩ present)
  have isFile :
      ¬ (!(isReg (fs.inode inode).mode || isDir (fs.inode inode).mode)) =
        true := by
    unfold Fs.IsFile at file
    rw [file]
    exact Bool.false_ne_true
  unfold truncate
  rw [satisfies_bind, satisfies_read, if_neg isFile]
  refine (releasing_direct consistent file unused).andThen ?_
  intro _ direct releasing
  rw [satisfies_bind, satisfies_read, releasing.nodes, clearedZones_zone (by decide)]
  have seven : fs.Slot inode [7] :=
    ⟨file, show 7 < 9 by decide⟩
  have freesSeven : Frees sb fs inode [7] (freeInd sb) := by
    refine frees_freeInd consistent seven
      (fun _ inside => ⟨inside, Or.inl rfl⟩) ?_
    rintro index below ⟨_, _, wrong⟩
    cases wrong
  refine (freesSeven releasing ?_ (quiet _)).andThen ?_
  · rintro below suffix ⟨index, inside, rfl⟩
    have seven := suffix.eq_of_length rfl
    cases seven
    exact absurd inside (by decide)
  intro _ single releasing
  rw [satisfies_bind, satisfies_read, releasing.nodes, clearedZones_zone (by decide)]
  refine (frees_freeDind consistent file releasing ?_ (quiet _)).andThen ?_
  · rintro below suffix (⟨index, inside, rfl⟩ | other)
    · have eight := suffix.eq_of_length rfl
      cases eight
      exact absurd inside (by decide)
    · exact absurd (suffix_index suffix other) (by decide)
  intro _ double releasing
  rw [satisfies_bind, satisfies_update, satisfies_bind, satisfies_update,
    satisfies_update]
  have all :=
    releasing.congr fun path isPath _ =>
      iff_of_true (mem_all_slots isPath) (Set.mem_univ path)
  constructor
  case bits =>
    intro bit
    refine (all.bits bit).trans (and_congr_right fun _ => ?_)
    exact ⟨fun gone path => gone path (Set.mem_univ path), fun gone path _ => gone path⟩
  case data =>
    exact releasing.data
  case count =>
    exact releasing.counts
  case others =>
    intro other different
    simp [Fs.setSize, Fs.setZone, Fs.setInode, releasing.nodes, different,
      Fs.clearedZones]
  case mode =>
    simp [Fs.setSize, Fs.setZone, Fs.setInode, releasing.nodes, Fs.clearedZones]
  case size =>
    simp [Fs.setSize, Fs.setInode]
  case zone =>
    intro index inside
    have direct : index ≠ 7 → index ≠ 8 → index < 7 := by
      omega
    by_cases seven : index = 7
    · simp [Fs.setSize, Fs.setZone, Fs.setInode, seven]
    · by_cases eight : index = 8
      · simp [Fs.setSize, Fs.setZone, Fs.setInode, eight]
      · simp [Fs.setSize, Fs.setZone, Fs.setInode, releasing.nodes,
          Fs.clearedZones, seven, eight, direct seven eight]

section Truncated

variable {after : Fs}

theorem Truncated.emptied
    {path : List Nat}
    (truncated : Truncated sb fs inode after)
    (isPath : IsPath path) :
    after.zoneAt inode path = 0 := by
  have last : ∀ index, [index] <:+ path → after.zoneAt inode path = 0 := by
    intro index suffix
    have top := isPath.suffix suffix (List.cons_ne_nil index [])
    exact zoneAt_below (List.cons_ne_nil index [])
      (truncated.zone index top) suffix
  match path with
  | [index] =>
    exact last index List.suffix_rfl
  | [index, single] =>
    exact last single (List.suffix_cons index [single])
  | [index, single, double] =>
    exact last double ⟨[index, single], rfl⟩

theorem Truncated.zoneAt_other
    {other : Nat} {path : List Nat}
    (truncated : Truncated sb fs inode after)
    (different : other ≠ inode) :
    after.zoneAt other path = fs.zoneAt other path :=
  zoneAt_congr
    (fun index => by rw [truncated.others other different])
    truncated.data

theorem Truncated.modes
    (truncated : Truncated sb fs inode after)
    (other : Nat) :
    (after.inode other).mode = (fs.inode other).mode := by
  by_cases same : other = inode
  · rw [same, truncated.mode]
  · rw [truncated.others other same]

theorem Truncated.isFile
    {other : Nat}
    (truncated : Truncated sb fs inode after) :
    after.IsFile other ↔ fs.IsFile other := by
  unfold Fs.IsFile
  rw [truncated.modes]

/-- A zone is free after truncation if it was, or if the file had it. -/
theorem Truncated.marked
    {zone : Nat}
    (truncated : Truncated sb fs inode after)
    (consistent : Consistent sb fs)
    (file : fs.IsFile inode)
    (isZone : sb.IsZone zone) :
    after.Marked sb zone ↔
      fs.Marked sb zone ∧
        ∀ path, IsPath path → fs.zoneAt inode path ≠ zone := by
  refine (truncated.bits _).trans (and_congr_right fun _ => ?_)
  constructor
  · intro kept path isPath same
    have present : fs.zoneAt inode path ≠ 0 :=
      same ▸ isZone.ne_zero
    exact kept path isPath present (by rw [same])
  · intro kept path isPath present sameBit
    have range := consistent.inRange inode path ⟨file, isPath⟩ present
    exact kept path isPath (SuperBlock.bit_inj range isZone sameBit)

theorem Truncated.slot
    {other : Nat} {path : List Nat}
    (truncated : Truncated sb fs inode after)
    (slot : after.Slot other path)
    (present : after.zoneAt other path ≠ 0) :
    other ≠ inode ∧ fs.Slot other path ∧
      after.zoneAt other path = fs.zoneAt other path := by
  have different : other ≠ inode := by
    rintro rfl
    exact present (truncated.emptied slot.2)
  exact ⟨different, ⟨truncated.isFile.mp slot.1, slot.2⟩,
    truncated.zoneAt_other different⟩

/-- Truncation keeps the file system consistent. -/
theorem Truncated.consistent
    (truncated : Truncated sb fs inode after)
    (consistent : Consistent sb fs)
    (file : fs.IsFile inode)
    (unused : ∀ zone, sb.IsZone zone → fs.count zone = 0) :
    Consistent sb after := by
  constructor
  case reserved =>
    intro bit inside reserved
    refine (truncated.bits bit).mpr
      ⟨consistent.reserved bit inside reserved, ?_⟩
    intro path isPath present sameBit
    have range := consistent.inRange inode path ⟨file, isPath⟩ present
    have added := range.bit_add
    have lower := range.1
    have upper := range.2
    omega
  case inRange =>
    intro other path slot present
    obtain ⟨_, was, same⟩ := truncated.slot slot present
    rw [same] at present ⊢
    exact consistent.inRange other path was present
  case marked =>
    intro other path slot present
    obtain ⟨different, was, same⟩ := truncated.slot slot present
    rw [same] at present ⊢
    refine (truncated.marked consistent file
      (consistent.inRange other path was present)).mpr
        ⟨consistent.marked other path was present, ?_⟩
    intro gone isPath equal
    obtain ⟨inodes, _⟩ :=
      consistent.unique _ _ _ _ was ⟨file, isPath⟩ present equal.symm
    exact different inodes
  case unique =>
    intro other path third thirdPath slot thirdSlot present equal
    obtain ⟨_, was, same⟩ := truncated.slot slot present
    obtain ⟨_, thirdWas, thirdSame⟩ :=
      truncated.slot thirdSlot (equal ▸ present)
    rw [same] at present equal
    rw [thirdSame] at equal
    exact consistent.unique _ _ _ _ was thirdWas present equal
  case owned =>
    intro zone isZone marked
    obtain ⟨was, kept⟩ :=
      (truncated.marked consistent file isZone).mp marked
    obtain ⟨other, path, slot, holds⟩ :=
      consistent.owned zone isZone was
    have different : other ≠ inode := by
      rintro rfl
      exact kept path slot.2 holds
    exact ⟨other, path, ⟨truncated.isFile.mpr slot.1, slot.2⟩,
      (truncated.zoneAt_other different).trans holds⟩
  case idle =>
    intro zone isZone _
    rw [truncated.count]
    exact unused zone isZone

end Truncated

end Zones

end HitOs
