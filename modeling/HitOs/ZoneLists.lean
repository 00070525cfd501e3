import HitOs.Truncation
import Mathlib.Data.List.Nodup

namespace HitOs

/-!
# The zones of a file in the order in which `truncate` frees them
-/

namespace Zones

/-- The zones below a zone, with 0, 1 or 2 levels of words, and the zone itself. -/
def treeZones (data : Nat → Block) : Nat → Nat → List Nat
  | 0, zone => if zone = 0 then [] else [zone]
  | level + 1, zone =>
    if zone = 0 then
      []
    else
      (List.range 512).flatMap
          (fun index => treeZones data level ((data zone).word index)) ++
        [zone]

/-- The zones below the words of a block, from an index on. -/
def wordZones
    (data : Nat → Block)
    (level block index : Nat) : List Nat :=
  (List.range' index (512 - index)).flatMap fun index =>
    treeZones data level ((data block).word index)

/-- The zones in the first slots of an inode, from an index on. -/
def directZones (zone : Nat → Nat) (index : Nat) : List Nat :=
  (List.range' index (7 - index)).flatMap fun index =>
    if zone index = 0 then [] else [zone index]

/-- All zones of a file. -/
def fileZones (data : Nat → Block) (zone : Nat → Nat) : List Nat :=
  directZones zone 0 ++ treeZones data 1 (zone 7) ++ treeZones data 2 (zone 8)

/-- How many levels of words are below a slot. -/
def HasLevel : List Nat → Nat → Prop
  | [], _ => False
  | [index], level =>
    (index < 7 ∧ level = 0) ∨ (index = 7 ∧ level = 1) ∨ (index = 8 ∧ level = 2)
  | _ :: next :: rest, level => HasLevel (next :: rest) (level + 1)

theorem HasLevel.ne_nil
    {path : List Nat} {level : Nat}
    (hasLevel : HasLevel path level) :
    path ≠ [] := by
  rintro rfl
  exact hasLevel

/-- The slots in a block with words. -/
theorem HasLevel.next
    {path : List Nat} {level index : Nat}
    (hasLevel : HasLevel path (level + 1))
    (isPath : IsPath path)
    (inside : index < 512) :
    IsPath (index :: path) ∧ HasLevel (index :: path) level := by
  match path with
  | [root] =>
    refine ⟨⟨inside, ?_⟩, hasLevel⟩
    rcases hasLevel with ⟨_, impossible⟩ | ⟨same, _⟩ | ⟨same, _⟩
    · exact absurd impossible (Nat.succ_ne_zero _)
    · exact Or.inl same
    · exact Or.inr same
  | [single, root] =>
    refine ⟨⟨inside, isPath.1, ?_⟩, hasLevel⟩
    rcases hasLevel with ⟨_, impossible⟩ | ⟨_, impossible⟩ | ⟨same, _⟩
    · omega
    · omega
    · exact same
  | [leaf, single, root] =>
    rcases hasLevel with
      ⟨_, impossible⟩ | ⟨_, impossible⟩ | ⟨_, impossible⟩
    · omega
    · omega
    · omega

theorem HasLevel.leaf
    {path : List Nat} {index : Nat}
    (hasLevel : HasLevel path 0) :
    ¬ IsPath (index :: path) := by
  intro isPath
  match path with
  | [root] =>
    rcases hasLevel with ⟨less, _⟩ | ⟨_, impossible⟩ | ⟨_, impossible⟩
    · rcases isPath.2 with same | same
      · omega
      · omega
    · omega
    · omega
  | [single, root] =>
    have same := isPath.2.2
    rcases hasLevel with ⟨_, impossible⟩ | ⟨is, _⟩ | ⟨_, impossible⟩
    · omega
    · omega
    · omega

variable {sb : SuperBlock} {fs : Fs} {inode zone : Nat}

theorem zoneAt_cons
    {index : Nat} {path : List Nat}
    (notEmpty : path ≠ [])
    (present : fs.zoneAt inode path ≠ 0) :
    fs.zoneAt inode (index :: path) =
      (fs.data (fs.zoneAt inode path)).word index := by
  match path with
  | next :: rest =>
    change fs.entry (fs.zoneAt inode (next :: rest)) index = _
    rw [Fs.entry, if_neg present]

/-- The zones below a slot. -/
theorem mem_treeZones
    {path : List Nat} {level : Nat}
    (isPath : IsPath path)
    (hasLevel : HasLevel path level) :
    zone ∈ treeZones fs.data level (fs.zoneAt inode path) ↔
      zone ≠ 0 ∧ ∃ below, path <:+ below ∧ IsPath below ∧
        fs.zoneAt inode below = zone := by
  induction level generalizing path with
  | zero =>
    unfold treeZones
    constructor
    · intro member
      by_cases empty : fs.zoneAt inode path = 0
      · rw [if_pos empty] at member
        cases member
      · rw [if_neg empty, List.mem_singleton] at member
        exact ⟨member ▸ empty, path, List.suffix_rfl, isPath, member.symm⟩
    · rintro ⟨present, below, suffix, belowPath, rfl⟩
      rcases suffix_iff.mp suffix with rfl | ⟨index, deeper⟩
      · rw [if_neg present]
        exact List.mem_singleton_self _
      · exact absurd
          (belowPath.suffix deeper (List.cons_ne_nil _ _)) hasLevel.leaf
  | succ level inductionHypothesis =>
    unfold treeZones
    by_cases empty : fs.zoneAt inode path = 0
    · rw [if_pos empty]
      constructor
      · intro member
        cases member
      · rintro ⟨present, below, suffix, _, rfl⟩
        exact absurd (zoneAt_below hasLevel.ne_nil empty suffix) present
    · rw [if_neg empty, List.mem_append, List.mem_flatMap,
        List.mem_singleton]
      constructor
      · rintro (⟨index, inside, member⟩ | rfl)
        · obtain ⟨deeper, deeperLevel⟩ :=
            hasLevel.next isPath (List.mem_range.mp inside)
          rw [← zoneAt_cons hasLevel.ne_nil empty,
            inductionHypothesis deeper deeperLevel] at member
          obtain ⟨present, below, suffix, belowPath, holds⟩ := member
          exact ⟨present, below,
            (List.suffix_cons index path).trans suffix, belowPath,
            holds⟩
        · exact ⟨empty, path, List.suffix_rfl, isPath, rfl⟩
      · rintro ⟨present, below, suffix, belowPath, rfl⟩
        rcases suffix_iff.mp suffix with rfl | ⟨index, deeper⟩
        · exact Or.inr rfl
        · have deeperPath :=
            belowPath.suffix deeper (List.cons_ne_nil _ _)
          have inside : index < 512 := by
            match path with
            | next :: rest => exact deeperPath.index_lt
          refine Or.inl ⟨index, List.mem_range.mpr inside, ?_⟩
          rw [← zoneAt_cons hasLevel.ne_nil empty,
            inductionHypothesis deeperPath
              (hasLevel.next isPath inside).2]
          exact ⟨present, below, deeper, belowPath, rfl⟩

theorem nodup_treeZones
    {path : List Nat} {level : Nat}
    (consistent : Consistent sb fs)
    (file : fs.IsFile inode)
    (isPath : IsPath path)
    (hasLevel : HasLevel path level) :
    (treeZones fs.data level (fs.zoneAt inode path)).Nodup := by
  induction level generalizing path with
  | zero =>
    unfold treeZones
    by_cases empty : fs.zoneAt inode path = 0
    · rw [if_pos empty]
      exact List.nodup_nil
    · rw [if_neg empty]
      exact List.nodup_singleton _
  | succ level inductionHypothesis =>
    unfold treeZones
    by_cases empty : fs.zoneAt inode path = 0
    · rw [if_pos empty]
      exact List.nodup_nil
    · rw [if_neg empty]
      have below
          {index : Nat}
          (inside : index ∈ List.range 512) :
          ∀ other,
            other ∈ treeZones fs.data level
              ((fs.data (fs.zoneAt inode path)).word index) →
            other ≠ 0 ∧ ∃ below, (index :: path) <:+ below ∧
              IsPath below ∧ fs.zoneAt inode below = other := by
        intro other member
        obtain ⟨deeper, deeperLevel⟩ :=
          hasLevel.next isPath (List.mem_range.mp inside)
        rwa [← zoneAt_cons hasLevel.ne_nil empty,
          mem_treeZones deeper deeperLevel] at member
      refine List.nodup_append.mpr
        ⟨List.nodup_flatMap.mpr ⟨?_, ?_⟩, List.nodup_singleton _, ?_⟩
      · intro index inside
        obtain ⟨deeper, deeperLevel⟩ :=
          hasLevel.next isPath (List.mem_range.mp inside)
        rw [← zoneAt_cons hasLevel.ne_nil empty]
        exact inductionHypothesis deeper deeperLevel
      · refine List.Pairwise.imp_of_mem ?_ List.nodup_range
        intro index other inside otherInside different zone member
          otherMember
        obtain ⟨present, first, firstSuffix, firstPath, holds⟩ :=
          below inside zone member
        obtain ⟨_, second, secondSuffix, secondPath, otherHolds⟩ :=
          below otherInside zone otherMember
        obtain ⟨_, rfl⟩ :=
          consistent.unique inode first inode second ⟨file, firstPath⟩
            ⟨file, secondPath⟩ (holds ▸ present)
            (holds.trans otherHolds.symm)
        exact different (suffix_index firstSuffix secondSuffix)
      · intro zone member other self same
        rw [List.mem_singleton] at self
        obtain ⟨index, inside, member⟩ := List.mem_flatMap.mp member
        obtain ⟨present, deep, suffix, deepPath, holds⟩ :=
          below inside zone member
        have top : fs.zoneAt inode path = zone :=
          (same.trans self).symm
        obtain ⟨_, rfl⟩ :=
          consistent.unique inode deep inode path ⟨file, deepPath⟩
            ⟨file, isPath⟩ (holds ▸ present) (holds.trans top.symm)
        exact absurd suffix.length_le (Nat.not_le.mpr (Nat.lt_succ_self _))

/-! ## All zones of a file -/

/-- A zone in the tree of one of the slots of the inode. -/
def Fs.Below (fs : Fs) (inode root zone : Nat) : Prop :=
  zone ≠ 0 ∧ ∃ below, [root] <:+ below ∧ IsPath below ∧ fs.zoneAt inode below = zone

/-- The trees of two slots have no zone in common. -/
theorem below_ne
    {root other second : Nat}
    (consistent : Consistent sb fs)
    (file : fs.IsFile inode)
    (different : root ≠ other)
    (first : fs.Below inode root zone)
    (secondBelow : fs.Below inode other second) :
    zone ≠ second := by
  rintro rfl
  obtain ⟨present, below, suffix, isPath, holds⟩ := first
  obtain ⟨_, below', suffix', isPath', holds'⟩ := secondBelow
  obtain ⟨_, rfl⟩ :=
    consistent.unique inode below inode below' ⟨file, isPath⟩
      ⟨file, isPath'⟩ (holds ▸ present) (holds.trans holds'.symm)
  exact different (suffix_index suffix suffix')

theorem isPath_root
    {root : Nat}
    (inside : root < 9) :
    IsPath [root] :=
  inside

theorem mem_treeZones_root
    {root level : Nat}
    (inside : root < 9)
    (hasLevel : HasLevel [root] level) :
    zone ∈ treeZones fs.data level ((fs.inode inode).zone root) ↔
      fs.Below inode root zone :=
  mem_treeZones (isPath_root inside) hasLevel

theorem mem_directZones :
    zone ∈ directZones (fs.inode inode).zone 0 ↔
      ∃ root < 7, fs.Below inode root zone := by
  unfold directZones
  rw [List.mem_flatMap]
  constructor
  · rintro ⟨root, inside, member⟩
    rw [List.mem_range'_1] at inside
    have low : root < 7 := by
      omega
    exact ⟨root, low, (mem_treeZones_root (by omega)
      (Or.inl ⟨low, rfl⟩)).mp member⟩
  · rintro ⟨root, low, below⟩
    exact ⟨root, List.mem_range'_1.mpr ⟨Nat.zero_le _, by omega⟩,
      (mem_treeZones_root (by omega) (Or.inl ⟨low, rfl⟩)).mpr below⟩

theorem hasLevel_single : HasLevel [7] 1 :=
  Or.inr (Or.inl ⟨rfl, rfl⟩)

theorem hasLevel_double : HasLevel [8] 2 :=
  Or.inr (Or.inr ⟨rfl, rfl⟩)

/-- A file's zones are those in its slots. -/
theorem mem_fileZones :
    zone ∈ fileZones fs.data (fs.inode inode).zone ↔
      zone ≠ 0 ∧ ∃ path, IsPath path ∧ fs.zoneAt inode path = zone := by
  unfold fileZones
  rw [List.mem_append, List.mem_append, mem_directZones,
    mem_treeZones_root (by decide) hasLevel_single,
    mem_treeZones_root (by decide) hasLevel_double]
  constructor
  · rintro ((⟨_, _, present, path, _, isPath, holds⟩ |
      ⟨present, path, _, isPath, holds⟩) |
      ⟨present, path, _, isPath, holds⟩)
    · exact ⟨present, path, isPath, holds⟩
    · exact ⟨present, path, isPath, holds⟩
    · exact ⟨present, path, isPath, holds⟩
  · rintro ⟨present, path, isPath, holds⟩
    obtain ⟨root, inside, suffix⟩ :
        ∃ root < 9, [root] <:+ path := by
      match path with
      | [root] =>
        exact ⟨root, isPath, List.suffix_rfl⟩
      | [index, root] =>
        refine ⟨root, ?_, [index], rfl⟩
        have roots := isPath.2
        omega
      | [index, single, root] =>
        refine ⟨root, ?_, [index, single], rfl⟩
        have roots := isPath.2.2
        omega
    have below : fs.Below inode root zone :=
      ⟨present, path, suffix, isPath, holds⟩
    rcases Nat.lt_trichotomy root 7 with less | same | more
    · exact Or.inl (Or.inl ⟨root, less, below⟩)
    · exact Or.inl (Or.inr (same ▸ below))
    · have last : root = 8 := by
        omega
      exact Or.inr (last ▸ below)

theorem nodup_fileZones
    (consistent : Consistent sb fs)
    (file : fs.IsFile inode) :
    (fileZones fs.data (fs.inode inode).zone).Nodup := by
  have single :
      ∀ zone ∈ treeZones fs.data 1 ((fs.inode inode).zone 7), fs.Below inode 7 zone :=
    fun _ => (mem_treeZones_root (by decide) hasLevel_single).mp
  have double :
      ∀ zone ∈ treeZones fs.data 2 ((fs.inode inode).zone 8), fs.Below inode 8 zone :=
    fun _ => (mem_treeZones_root (by decide) hasLevel_double).mp
  have directs : (directZones (fs.inode inode).zone 0).Nodup := by
    refine List.nodup_flatMap.mpr ⟨?_, ?_⟩
    · intro root inside
      rw [List.mem_range'_1] at inside
      exact nodup_treeZones consistent file
        (isPath_root (show root < 9 by omega))
        (Or.inl ⟨by omega, rfl⟩)
    · refine List.Pairwise.imp_of_mem ?_ List.nodup_range'
      intro root other inside otherInside different zone member
        otherMember
      rw [List.mem_range'_1] at inside otherInside
      exact below_ne consistent file different
        ((mem_treeZones_root (by omega)
          (Or.inl ⟨by omega, rfl⟩)).mp member)
        ((mem_treeZones_root (by omega)
          (Or.inl ⟨by omega, rfl⟩)).mp otherMember) rfl
  unfold fileZones
  refine List.nodup_append.mpr ⟨List.nodup_append.mpr
    ⟨directs,
      nodup_treeZones consistent file (isPath_root (by decide))
        hasLevel_single, ?_⟩,
    nodup_treeZones consistent file (isPath_root (by decide))
      hasLevel_double, ?_⟩
  · intro zone member other otherMember
    obtain ⟨root, low, below⟩ := mem_directZones.mp member
    exact below_ne consistent file (Nat.ne_of_lt low) below
      (single other otherMember)
  · intro zone member other otherMember
    rcases List.mem_append.mp member with member | member
    · obtain ⟨root, low, below⟩ := mem_directZones.mp member
      exact below_ne consistent file (by omega) below
        (double other otherMember)
    · exact below_ne consistent file (by decide) (single zone member)
        (double other otherMember)

end Zones

end HitOs
