import HitOs.ZoneTrees

namespace HitOs

/-!
# Blocks of a file

What `_bmap` does: without `create` it looks a block of the file up, with
`create` it fills the empty slots on the way to the block, as long as zones are
free.  No other slot changes, and no block of any file changes its contents.
-/

namespace Zones

open Routine

/-- The slots for blocks of the file, without those for indirect blocks. -/
def IsLeaf : List Nat → Prop
  | [index] => index < 7
  | [index, single] => index < 512 ∧ single = 7
  | [index, single, double] => index < 512 ∧ single < 512 ∧ double = 8
  | _ => False

/-- The slot of a block of the file. -/
def pathOf (block : Nat) : List Nat :=
  if block < 7 then
    [block]
  else if block - 7 < 512 then
    [block - 7, 7]
  else
    [(block - 7 - 512) % 512, (block - 7 - 512) / 512, 8]

theorem IsLeaf.isPath
    {path : List Nat}
    (leaf : IsLeaf path) :
    IsPath path := by
  match path with
  | [index] =>
    exact Nat.lt_trans leaf (by decide)
  | [index, single] =>
    exact ⟨leaf.1, Or.inl leaf.2⟩
  | [index, single, double] =>
    exact leaf

theorem isLeaf_pathOf
    {block : Nat}
    (inside : block < 7 + 512 + 512 * 512) :
    IsLeaf (pathOf block) := by
  unfold pathOf
  by_cases direct : block < 7
  · rw [if_pos direct]
    exact direct
  · rw [if_neg direct]
    by_cases single : block - 7 < 512
    · rw [if_pos single]
      exact ⟨single, rfl⟩
    · rw [if_neg single]
      refine ⟨Nat.mod_lt _ (by decide), ?_, rfl⟩
      omega

/-- The block of the file that has a slot. -/
def blockOf : List Nat → Nat
  | [index] => index
  | [index, _] => index + 7
  | [index, single, _] => 512 * single + index + 7 + 512
  | _ => 0

theorem blockOf_pathOf
    (block : Nat) :
    blockOf (pathOf block) = block := by
  unfold pathOf
  by_cases direct : block < 7
  · rw [if_pos direct]
    rfl
  · rw [if_neg direct]
    by_cases single : block - 7 < 512
    · rw [if_pos single]
      exact Nat.sub_add_cancel (Nat.not_lt.mp direct)
    · rw [if_neg single]
      change 512 * ((block - 7 - 512) / 512) + (block - 7 - 512) % 512 + 7 + 512 = block
      rw [Nat.div_add_mod]
      omega

theorem pathOf_inj
    {block other : Nat}
    (same : pathOf block = pathOf other) :
    block = other := by
  rw [← blockOf_pathOf block, same, blockOf_pathOf]

/-- No block of a file is the parent of a slot. -/
theorem not_isLeaf_parent
    {index next : Nat} {rest : List Nat}
    (path : IsPath (index :: next :: rest)) :
    ¬ IsLeaf (next :: rest) := by
  intro leaf
  match rest with
  | [] =>
    unfold IsLeaf at leaf
    rcases path with ⟨_, rfl | rfl⟩
    · exact absurd leaf (by decide)
    · exact absurd leaf (by decide)
  | [double] =>
    have one := path.2.2
    have two := leaf.2
    omega

/-- The contents of a slot's zone; a hole reads as zeros. -/
def Fs.blockAt (fs : Fs) (inode : Nat) (path : List Nat) : Block :=
  if fs.zoneAt inode path = 0 then .zeros
  else fs.data (fs.zoneAt inode path)

/-- Slots have been filled, and nothing else that a file can show. -/
structure Extends (fs after : Fs) : Prop where
  count :
    after.count = fs.count
  mode :
    ∀ inode, (after.inode inode).mode = (fs.inode inode).mode
  size :
    ∀ inode, (after.inode inode).size = (fs.inode inode).size
  kept :
    ∀ inode path, fs.Slot inode path → fs.zoneAt inode path ≠ 0 →
      after.zoneAt inode path = fs.zoneAt inode path
  contents :
    ∀ inode path, fs.IsFile inode → IsLeaf path →
      after.blockAt inode path = fs.blockAt inode path

variable {sb : SuperBlock} {fs middle after : Fs}
variable {inode zone : Nat} {path : List Nat}

theorem Extends.refl : Extends fs fs :=
  ⟨rfl, fun _ => rfl, fun _ => rfl, fun _ _ _ _ => rfl, fun _ _ _ _ => rfl⟩

theorem Extends.isFile
    (extension : Extends fs after) :
    after.IsFile inode ↔ fs.IsFile inode := by
  unfold Fs.IsFile
  rw [extension.mode]

theorem Extends.slot
    (extension : Extends fs after) :
    after.Slot inode path ↔ fs.Slot inode path :=
  and_congr_left fun _ => extension.isFile

theorem Extends.trans
    (first : Extends fs middle)
    (second : Extends middle after) :
    Extends fs after where
  count := second.count.trans first.count
  mode inode := (second.mode inode).trans (first.mode inode)
  size inode := (second.size inode).trans (first.size inode)
  kept inode path slot present := by
    have kept := first.kept inode path slot present
    rw [second.kept inode path (first.slot.mpr slot) (kept ▸ present), kept]
  contents inode path file leaf := by
    rw [second.contents inode path (first.isFile.mpr file) leaf,
      first.contents inode path file leaf]

theorem zoneAt_congr
    (zones :
      ∀ index, (after.inode inode).zone index = (fs.inode inode).zone index)
    (data : after.data = fs.data) :
    after.zoneAt inode path = fs.zoneAt inode path := by
  induction path with
  | nil =>
    rfl
  | cons index parent inductionHypothesis =>
    match parent with
    | [] =>
      exact zones index
    | next :: rest =>
      change after.entry (after.zoneAt inode (next :: rest)) index =
        fs.entry (fs.zoneAt inode (next :: rest)) index
      rw [inductionHypothesis]
      unfold Fs.entry
      rw [data]

/-- Consistency is about the bitmap and the zones in the slots. -/
theorem Consistent.congr
    (consistent : Consistent sb fs)
    (zmap : after.zmap = fs.zmap)
    (idle :
      ∀ zone, sb.IsZone zone → ¬ fs.Marked sb zone → after.count zone = 0)
    (files : ∀ inode, after.IsFile inode ↔ fs.IsFile inode)
    (zones :
      ∀ inode path, fs.Slot inode path →
        after.zoneAt inode path = fs.zoneAt inode path) :
    Consistent sb after := by
  have slots :
      ∀ inode path, after.Slot inode path ↔ fs.Slot inode path :=
    fun inode _ => and_congr_left fun _ => files inode
  have marks :
      ∀ zone, after.Marked sb zone ↔ fs.Marked sb zone := by
    intro zone
    unfold Fs.Marked
    rw [zmap]
  constructor
  case reserved =>
    rw [zmap]
    exact consistent.reserved
  case inRange =>
    intro inode path slot present
    rw [slots] at slot
    rw [zones inode path slot] at present ⊢
    exact consistent.inRange inode path slot present
  case marked =>
    intro inode path slot present
    rw [slots] at slot
    rw [zones inode path slot] at present ⊢
    rw [marks]
    exact consistent.marked inode path slot present
  case unique =>
    intro inode path other otherPath slot otherSlot present equal
    rw [slots] at slot otherSlot
    rw [zones inode path slot] at present equal
    rw [zones other otherPath otherSlot] at equal
    exact consistent.unique _ _ _ _ slot otherSlot present equal
  case owned =>
    intro zone isZone taken
    rw [marks] at taken
    obtain ⟨inode, path, slot, holds⟩ := consistent.owned zone isZone taken
    exact ⟨inode, path, (slots inode path).mpr slot,
      (zones inode path slot).trans holds⟩
  case idle =>
    intro zone isZone unmarked
    rw [marks] at unmarked
    exact idle zone isZone unmarked

/-- References to a buffer do not matter to the files. -/
theorem Consistent.setCount
    (consistent : Consistent sb fs)
    {block : Nat}
    (marked : fs.Marked sb block)
    (value : Nat) :
    Consistent sb (fs.setCount block value) := by
  refine consistent.congr rfl ?_ (fun _ => Iff.rfl)
    (fun _ _ _ => zoneAt_congr (fun _ => rfl) rfl)
  intro zone isZone unmarked
  have different : zone ≠ block := by
    rintro rfl
    exact unmarked marked
  rw [setCount_count_of_ne value different]
  exact consistent.idle zone isZone unmarked

/-- Filling a slot is invisible in the files. -/
theorem extends_fill
    (consistent : Consistent sb fs)
    (slot : fs.Slot inode path)
    (hasParent : fs.HasParent inode path)
    (empty : fs.zoneAt inode path = 0)
    (isZone : sb.IsZone zone)
    (free : ¬ fs.Marked sb zone) :
    Extends fs (fs.fill sb inode path zone) := by
  have zones :
      ∀ other otherPath, fs.Slot other otherPath →
        (fs.fill sb inode path zone).zoneAt other otherPath =
          if other = inode ∧ otherPath = path then zone
          else fs.zoneAt other otherPath :=
    fun _ _ => zoneAt_fill consistent slot hasParent empty isZone free
  constructor
  case count =>
    exact fill_count
  case mode =>
    exact fun _ => fill_mode
  case size =>
    exact fun _ => fill_size
  case kept =>
    intro other otherPath otherSlot present
    rw [zones other otherPath otherSlot, if_neg]
    rintro ⟨rfl, rfl⟩
    exact present empty
  case contents =>
    intro other otherPath file leaf
    have otherSlot : fs.Slot other otherPath := ⟨file, leaf.isPath⟩
    unfold Fs.blockAt
    rw [zones other otherPath otherSlot]
    by_cases self : other = inode ∧ otherPath = path
    · rw [if_pos self, if_neg isZone.ne_zero,
        fill_data_self consistent slot hasParent free, self.1, self.2,
        if_pos empty]
    · rw [if_neg self]
      by_cases absent : fs.zoneAt other otherPath = 0
      · rw [if_pos absent, if_pos absent]
      · rw [if_neg absent, if_neg absent, fill_data, take_data,
          if_neg (consistent.ne_free free otherSlot absent)]
        match path with
        | [] =>
          rfl
        | [_] =>
          rfl
        | index :: next :: rest =>
          simp only
          rw [if_neg]
          intro same
          obtain ⟨_, rfl⟩ :=
            consistent.unique _ _ _ _ otherSlot
              ⟨slot.1, slot.2.parent⟩ absent same
          exact not_isLeaf_parent slot.2 leaf

/-- How a slot is found, or filled if `create` asks for it. -/
inductive Finds
    (sb : SuperBlock)
    (fs : Fs)
    (inode : Nat)
    (path : List Nat)
    (create : Bool) :
    Nat → Fs → Prop where
  | found
      (given :
        create = true → fs.zoneAt inode path = 0 →
          fs.HasParent inode path → ∀ zone, sb.IsZone zone → fs.Marked sb zone) :
      Finds sb fs inode path create (fs.zoneAt inode path) fs
  | filled
      {zone : Nat}
      (asked : create = true)
      (hasParent : fs.HasParent inode path)
      (empty : fs.zoneAt inode path = 0)
      (isZone : sb.IsZone zone)
      (free : ¬ fs.Marked sb zone) :
      Finds sb fs inode path create zone (fs.fill sb inode path zone)

theorem setZone_eq_self
    {index : Nat}
    (was : (fs.inode inode).zone index = zone) :
    fs.setZone inode index zone = fs := by
  subst was
  simp [Fs.setZone, Fs.setInode]

/-- A zone of the inode. -/
theorem satisfies_inodeZone
    {index : Nat} {create : Bool}
    (consistent : Consistent sb fs) :
    (inodeZone sb inode index create).Satisfies fs
      (Finds sb fs inode [index] create) (fun _ => False) := by
  unfold inodeZone
  rw [satisfies_bind, satisfies_read]
  by_cases needed : (create && (fs.inode inode).zone index == 0) = true
  · rw [if_pos needed]
    rw [Bool.and_eq_true, beq_iff_eq] at needed
    rw [satisfies_bind]
    refine (satisfies_newBlock consistent).mono ?_ (fun _ => id)
    rintro value after (⟨rfl, rfl, full⟩ | ⟨isZone, free, rfl⟩)
    · have unchanged : after.setZone inode index 0 = after :=
        setZone_eq_self needed.2
      have outcome :
          Finds sb after inode [index] create
            (after.zoneAt inode [index]) after :=
        .found fun _ _ _ => full
      change Finds sb after inode [index] create
        (((after.setZone inode index 0).inode inode).zone index)
        (after.setZone inode index 0)
      rw [unchanged]
      exact outcome
    · have stored :
          (((fs.take sb value).setZone inode index value).inode
            inode).zone index = value := by
        rw [setZone_zone, if_pos ⟨rfl, rfl⟩]
      change Finds sb fs inode [index] create
        ((((fs.take sb value).setZone inode index value).inode
          inode).zone index) ((fs.take sb value).setZone inode index value)
      rw [stored]
      exact .filled needed.1 trivial needed.2 isZone free
  · rw [if_neg needed]
    have found : (fs.inode inode).zone index = fs.zoneAt inode [index] :=
      rfl
    refine .found ?_
    intro asked empty _
    rw [asked, found, empty] at needed
    exact absurd rfl needed

/-- An entry of an indirect block. -/
theorem satisfies_entryZone
    {index next : Nat} {rest : List Nat} {create : Bool}
    (consistent : Consistent sb fs)
    (slot : fs.Slot inode (index :: next :: rest)) :
    (entryZone sb (fs.zoneAt inode (next :: rest)) index
        create).Satisfies fs
      (Finds sb fs inode (index :: next :: rest) create)
      (fun _ => False) := by
  unfold entryZone
  by_cases absent : fs.zoneAt inode (next :: rest) = 0
  · have nothing : fs.zoneAt inode (index :: next :: rest) = 0 := by
      change fs.entry (fs.zoneAt inode (next :: rest)) index = 0
      rw [Fs.entry, if_pos absent]
    rw [if_pos absent, satisfies_pure, ← nothing]
    exact .found fun _ _ hasParent => absurd absent hasParent
  · have marked :=
      consistent.marked inode _ ⟨slot.1, slot.2.parent⟩ absent
    have found :
        fs.zoneAt inode (index :: next :: rest) =
          (fs.data (fs.zoneAt inode (next :: rest))).word index := by
      change fs.entry (fs.zoneAt inode (next :: rest)) index = _
      rw [Fs.entry, if_neg absent]
    generalize holds : fs.zoneAt inode (next :: rest) = block at *
    rw [if_neg absent, satisfies_bind]
    have reads :
        (fs.setCount block (fs.count block + 1)).data block = fs.data block :=
      rfl
    change Satisfies _ (fs.setCount block (fs.count block + 1)) _ _
    rw [satisfies_bind, satisfies_read, reads, ← found]
    have held :
        (fs.setCount block (fs.count block + 1)).count block = fs.count block + 1 :=
      setCount_count _
    by_cases needed :
        (create && fs.zoneAt inode (index :: next :: rest) == 0) = true
    · rw [if_pos needed]
      rw [Bool.and_eq_true, beq_iff_eq] at needed
      rw [satisfies_bind]
      refine (satisfies_newBlock
        (consistent.setCount marked (fs.count block + 1))).mono
          ?_ (fun _ => id)
      rintro value after (⟨rfl, rfl, full⟩ | ⟨isZone, free, rfl⟩)
      · rw [if_neg (not_not.mpr rfl),
          satisfies_bind_of_ret (brelse_of_succ held),
          setCount_back _ rfl, satisfies_pure, ← needed.2]
        exact .found fun _ _ _ => full
      · have heldStill :
            (((fs.setCount block (fs.count block + 1)).take sb
                value).setEntry block index value).count block =
              fs.count block + 1 :=
          held
        rw [if_pos isZone.ne_zero, satisfies_bind, satisfies_update]
        simp only
        rw [satisfies_bind_of_ret (brelse_of_succ heldStill), satisfies_pure]
        have back :
            (((fs.take sb value).setEntry block index value).setCount
                block (fs.count block + 1)).setCount block
              (fs.count block) = (fs.take sb value).setEntry block index value :=
          setCount_back _ rfl
        have hasParent : fs.HasParent inode (index :: next :: rest) := by
          change fs.zoneAt inode (next :: rest) ≠ 0
          rwa [holds]
        have filled :=
          Finds.filled needed.1 hasParent needed.2 isZone free
        unfold Fs.fill at filled
        simp only [holds] at filled
        rw [← back] at filled
        exact filled
    · rw [if_neg needed, satisfies_bind_of_ret (brelse_of_succ held),
        setCount_back _ rfl, satisfies_pure]
      refine .found ?_
      intro asked empty _
      rw [asked, empty] at needed
      exact absurd rfl needed

/-- No zone is free. -/
def Fs.Full (sb : SuperBlock) (fs : Fs) : Prop :=
  ∀ zone, sb.IsZone zone → fs.Marked sb zone

/-- What `_bmap` returns and leaves for the slot of a block. -/
structure Mapped
    (sb : SuperBlock)
    (fs : Fs)
    (inode : Nat)
    (path : List Nat)
    (create : Bool)
    (zone : Nat)
    (after : Fs) : Prop where
  consistent :
    Consistent sb after
  extension :
    Extends fs after
  zone_eq :
    after.zoneAt inode path = zone
  unchanged :
    create = false → after = fs
  full :
    create = true → zone = 0 → after.Full sb

theorem Finds.mapped
    {create : Bool}
    (finds : Finds sb fs inode path create zone after)
    (consistent : Consistent sb fs)
    (slot : fs.Slot inode path)
    (noParent :
      ¬ fs.HasParent inode path → create = true → fs.Full sb) :
    Mapped sb fs inode path create zone after := by
  cases finds with
  | found given =>
    refine ⟨consistent, .refl, rfl, fun _ => rfl, ?_⟩
    intro asked empty
    by_cases hasParent : fs.HasParent inode path
    · exact given asked empty hasParent
    · exact noParent hasParent asked
  | filled asked hasParent empty isZone free =>
    refine ⟨consistent.fill slot hasParent empty isZone free,
      extends_fill consistent slot hasParent empty isZone free, ?_, ?_,
      fun _ none => absurd none isZone.ne_zero⟩
    · rw [zoneAt_fill consistent slot hasParent empty isZone free slot,
        if_pos ⟨rfl, rfl⟩]
    · intro notAsked
      rw [asked] at notAsked
      cases notAsked

/-- The next level of the tree. -/
theorem Mapped.next
    {index place zone' : Nat} {rest : List Nat} {create : Bool}
    (mapped : Mapped sb fs inode (place :: rest) create zone middle)
    (finds :
      Finds sb middle inode (index :: place :: rest) create zone' after)
    (slot : fs.Slot inode (index :: place :: rest)) :
    Mapped sb fs inode (index :: place :: rest) create zone' after := by
  have slot' := mapped.extension.slot.mpr slot
  have next :=
    finds.mapped mapped.consistent slot' fun noParent asked =>
      mapped.full asked (mapped.zone_eq.symm.trans (not_not.mp noParent))
  exact
    { consistent := next.consistent
      extension := mapped.extension.trans next.extension
      zone_eq := next.zone_eq
      unchanged := fun notAsked =>
        (next.unchanged notAsked).trans (mapped.unchanged notAsked)
      full := next.full }

/-- A zone of the inode, as the first level of a tree. -/
theorem mapped_inodeZone
    {index : Nat} {create : Bool}
    (consistent : Consistent sb fs)
    (slot : fs.Slot inode [index]) :
    (inodeZone sb inode index create).Satisfies fs
      (Mapped sb fs inode [index] create) (fun _ => False) :=
  (satisfies_inodeZone consistent).mono
    (fun _ _ finds =>
      finds.mapped consistent slot fun noParent => (noParent trivial).elim)
    (fun _ => id)

/-- An entry of an indirect block, as the next level. -/
theorem mapped_entryZone
    {index place : Nat} {rest : List Nat} {create : Bool}
    (mapped : Mapped sb fs inode (place :: rest) create zone middle)
    (slot : fs.Slot inode (index :: place :: rest)) :
    (entryZone sb zone index create).Satisfies middle
      (Mapped sb fs inode (index :: place :: rest) create)
      (fun _ => False) := by
  have entry :
      (entryZone sb (middle.zoneAt inode (place :: rest)) index
          create).Satisfies middle
        (Finds sb middle inode (index :: place :: rest) create)
        (fun _ => False) :=
    satisfies_entryZone mapped.consistent (mapped.extension.slot.mpr slot)
  rw [mapped.zone_eq] at entry
  exact entry.mono (fun _ _ finds => mapped.next finds slot) (fun _ => id)

theorem createBlock_of_big
    {block : Nat}
    (big : 7 + 512 + 512 * 512 ≤ block) :
    createBlock sb inode block = Routine.panic "_bmap: block>big" :=
  if_pos big

/-- `_bmap` finds the slot of the block, or fills the slots that lead to it. -/
theorem satisfies_bmapOrCreate
    {block : Nat} {create : Bool}
    (consistent : Consistent sb fs)
    (file : fs.IsFile inode)
    (inside : block < 7 + 512 + 512 * 512) :
    (bmapOrCreate sb inode block create).Satisfies fs
      (Mapped sb fs inode (pathOf block) create) (fun _ => False) := by
  unfold bmapOrCreate
  rw [if_neg (Nat.not_le.mpr inside)]
  by_cases direct : block < 7
  · rw [if_pos direct, pathOf, if_pos direct]
    exact mapped_inodeZone consistent
      ⟨file, Nat.lt_trans direct (by decide)⟩
  · rw [if_neg direct]
    simp only
    by_cases single : block - 7 < 512
    · have path : pathOf block = [block - 7, 7] := by
        rw [pathOf, if_neg direct, if_pos single]
      rw [if_pos single, path]
      refine (mapped_inodeZone consistent
        ⟨file, show 7 < 9 by decide⟩).andThen ?_
      intro zone middle mapped
      exact mapped_entryZone mapped ⟨file, single, Or.inl rfl⟩
    · have path : pathOf block =
          [(block - 7 - 512) % 512, (block - 7 - 512) / 512, 8] := by
        rw [pathOf, if_neg direct, if_neg single]
      have entries : (block - 7 - 512) / 512 < 512 := by
        omega
      have entry : (block - 7 - 512) % 512 < 512 :=
        Nat.mod_lt _ (by decide)
      rw [if_neg single, path]
      refine (mapped_inodeZone consistent
        ⟨file, show 8 < 9 by decide⟩).andThen ?_
      intro double middle mapped
      refine (mapped_entryZone mapped
        ⟨file, entries, Or.inr rfl⟩).andThen ?_
      intro zone last mapped
      exact mapped_entryZone mapped ⟨file, entry, entries, rfl⟩

/-- `bmap` returns the zone of the block and changes nothing. -/
theorem satisfies_bmap
    {block : Nat}
    (consistent : Consistent sb fs)
    (file : fs.IsFile inode)
    (inside : block < 7 + 512 + 512 * 512) :
    (bmap sb inode block).Satisfies fs
      (fun zone after =>
        zone = fs.zoneAt inode (pathOf block) ∧ after = fs)
      (fun _ => False) := by
  refine (satisfies_bmapOrCreate consistent file inside).mono ?_
    (fun _ => id)
  intro zone after mapped
  have unchanged := mapped.unchanged rfl
  exact ⟨unchanged ▸ mapped.zone_eq.symm, unchanged⟩

end Zones

end HitOs
