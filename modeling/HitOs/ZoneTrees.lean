import HitOs.Zones
import Mathlib.Logic.Basic

namespace HitOs

/-!
# The trees of zones

A file keeps its zones in a tree of three levels.  A slot is a place in it for
the number of a zone; its path has the index in the last block first and the
index in `i_zone` last.  In a consistent file system every marked zone is in
exactly one slot.
-/

namespace Zones

/-- The paths for which the source has a place. -/
def IsPath : List Nat → Prop
  | [index] => index < 9
  | [index, single] => index < 512 ∧ (single = 7 ∨ single = 8)
  | [index, single, double] => index < 512 ∧ single < 512 ∧ double = 8
  | _ => False

theorem IsPath.parent
    {index next : Nat} {rest : List Nat}
    (path : IsPath (index :: next :: rest)) :
    IsPath (next :: rest) := by
  match rest with
  | [] =>
    rcases path with ⟨_, rfl | rfl⟩
    · exact Nat.lt_of_sub_eq_succ rfl
    · exact Nat.lt_of_sub_eq_succ rfl
  | [double] =>
    exact ⟨path.2.1, Or.inr path.2.2⟩

namespace Fs

/-- The word of a block, and 0 for a word of no block. -/
def entry (fs : Fs) (block index : Nat) : Nat :=
  if block = 0 then 0 else (fs.data block).word index

/-- The zone in a slot of the inode's tree, 0 if there is none. -/
def zoneAt (fs : Fs) (inode : Nat) : List Nat → Nat
  | [] => 0
  | [index] => (fs.inode inode).zone index
  | index :: next :: rest => fs.entry (fs.zoneAt inode (next :: rest)) index

/-- A regular file or a directory. -/
def IsFile (fs : Fs) (inode : Nat) : Prop :=
  (isReg (fs.inode inode).mode || isDir (fs.inode inode).mode) = true

/-- A slot of one of the files. -/
def Slot (fs : Fs) (inode : Nat) (path : List Nat) : Prop :=
  fs.IsFile inode ∧ IsPath path

/-- The block with the slot is there. -/
def HasParent (fs : Fs) (inode : Nat) : List Nat → Prop
  | [] => False
  | [_] => True
  | _ :: next :: rest => fs.zoneAt inode (next :: rest) ≠ 0

end Fs

/-- The zone is one of those the bitmap is about. -/
def SuperBlock.IsZone (sb : SuperBlock) (zone : Nat) : Prop :=
  sb.firstDataZone ≤ zone ∧ zone < sb.nzones

/-- The zone is taken. -/
def Fs.Marked (sb : SuperBlock) (fs : Fs) (zone : Nat) : Prop :=
  fs.zmap (sb.bit zone) = true

/-- What `mkfs` establishes and the routines of this module rely on. -/
structure Consistent (sb : SuperBlock) (fs : Fs) : Prop where
  reserved :
    ∀ bit, bit < 8192 * sb.zmapBlocks →
      bit = 0 ∨ sb.nzones ≤ bit + sb.firstDataZone - 1 → fs.zmap bit = true
  inRange :
    ∀ inode path, fs.Slot inode path → fs.zoneAt inode path ≠ 0 →
      sb.IsZone (fs.zoneAt inode path)
  marked :
    ∀ inode path, fs.Slot inode path → fs.zoneAt inode path ≠ 0 →
      fs.Marked sb (fs.zoneAt inode path)
  unique :
    ∀ inode path other otherPath,
      fs.Slot inode path → fs.Slot other otherPath →
      fs.zoneAt inode path ≠ 0 →
      fs.zoneAt inode path = fs.zoneAt other otherPath →
        inode = other ∧ path = otherPath
  owned :
    ∀ zone, sb.IsZone zone → fs.Marked sb zone →
      ∃ inode path, fs.Slot inode path ∧ fs.zoneAt inode path = zone
  idle :
    ∀ zone, sb.IsZone zone → ¬ fs.Marked sb zone → fs.count zone = 0

/-! ## Bits and zones -/

section Bits

variable {sb : SuperBlock} {zone other : Nat}

theorem SuperBlock.IsZone.ne_zero
    (isZone : sb.IsZone zone) :
    zone ≠ 0 := by
  have positive := sb.positive
  have lower := isZone.1
  omega

theorem SuperBlock.IsZone.lt
    (isZone : sb.IsZone zone) :
    zone < 65536 :=
  Nat.lt_trans isZone.2 sb.small

theorem SuperBlock.IsZone.bit_add
    (isZone : sb.IsZone zone) :
    sb.bit zone + sb.firstDataZone - 1 = zone := by
  have positive := sb.positive
  have lower := isZone.1
  unfold bit
  omega

theorem SuperBlock.bit_inj
    (isZone : sb.IsZone zone)
    (isOther : sb.IsZone other)
    (same : sb.bit zone = sb.bit other) :
    zone = other := by
  rw [← isZone.bit_add, ← isOther.bit_add, same]

end Bits

/-! ## Finding a zone -/

theorem findFirstZero_some
    {bits : Nat → Bool} {bit : Nat}
    (found : findFirstZero bits = some bit) :
    bit < 8192 ∧ bits bit = false := by
  have inside := List.mem_of_find?_eq_some found
  have zero := List.find?_some found
  exact ⟨List.mem_range.mp inside, by simpa using zero⟩

theorem findFirstZero_none
    {bits : Nat → Bool} {bit : Nat}
    (nothing : findFirstZero bits = none)
    (inside : bit < 8192) :
    bits bit = true := by
  have zero :=
    List.find?_eq_none.mp nothing bit (List.mem_range.mpr inside)
  simpa using zero

theorem freeBit_some
    {sb : SuperBlock} {zmap : Nat → Bool} {bit : Nat}
    (found : freeBit sb zmap = some bit) :
    bit < 8192 * sb.zmapBlocks ∧ zmap bit = false := by
  obtain ⟨map, inside, found⟩ := List.exists_of_findSome?_eq_some found
  obtain ⟨place, zero, rfl⟩ := Option.map_eq_some_iff.mp found
  have placed := findFirstZero_some zero
  have lower := List.mem_range.mp inside
  exact ⟨by omega, placed.2⟩

theorem freeBit_none
    {sb : SuperBlock} {zmap : Nat → Bool} {bit : Nat}
    (nothing : freeBit sb zmap = none)
    (inside : bit < 8192 * sb.zmapBlocks) :
    zmap bit = true := by
  have map : bit / 8192 < sb.zmapBlocks :=
    Nat.div_lt_of_lt_mul inside
  have missed :=
    List.findSome?_eq_none_iff.mp nothing (bit / 8192)
      (List.mem_range.mpr map)
  have full :=
    findFirstZero_none (Option.map_eq_none_iff.mp missed)
      (Nat.mod_lt bit (by decide))
  rwa [Nat.div_add_mod] at full

/-- The state after `new_block` has marked and cleared a zone. -/
def Fs.take (sb : SuperBlock) (zone : Nat) (fs : Fs) : Fs :=
  (fs.setBit (sb.bit zone) true).setData zone .zeros

theorem SuperBlock.IsZone.bit_lt
    {sb : SuperBlock} {zone : Nat}
    (isZone : sb.IsZone zone) :
    sb.bit zone < 8192 * sb.zmapBlocks := by
  have mapped := sb.mapped
  have upper := isZone.2
  have added := isZone.bit_add
  omega

/-- A free bit is the bit of a free zone. -/
theorem Consistent.isZone
    {sb : SuperBlock} {fs : Fs} {bit : Nat}
    (consistent : Consistent sb fs)
    (inside : bit < 8192 * sb.zmapBlocks)
    (free : fs.zmap bit = false) :
    sb.IsZone (bit + sb.firstDataZone - 1) ∧
      sb.bit (bit + sb.firstDataZone - 1) = bit := by
  have positive := sb.positive
  have notReserved :
      ¬ (bit = 0 ∨ sb.nzones ≤ bit + sb.firstDataZone - 1) := by
    intro reserved
    rw [consistent.reserved bit inside reserved] at free
    cases free
  unfold SuperBlock.IsZone SuperBlock.bit
  omega

theorem setCount_back
    {fs : Fs} {block old : Nat}
    (value : Nat)
    (was : fs.count block = old) :
    (fs.setCount block value).setCount block old = fs := by
  unfold Fs.setCount
  rw [Function.update_idem, ← was, Function.update_eq_self]

/-- A reference that is given back. -/
theorem brelse_of_succ
    {fs : Fs} {block count : Nat}
    (held : fs.count block = count + 1) :
    brelse block fs = .ret () (fs.setCount block count) := by
  change (if fs.count block = 0 then Routine.panic _
    else Routine.update (Fs.setCount block (fs.count block - 1)) :
      Routine Fs Unit) fs = _
  rw [held, if_neg (Nat.succ_ne_zero count)]
  rfl

theorem setCount_count
    {fs : Fs} {block : Nat} (value : Nat) :
    (fs.setCount block value).count block = value := by
  simp [Fs.setCount]

theorem setCount_count_of_ne
    {fs : Fs} {block other : Nat}
    (value : Nat)
    (different : other ≠ block) :
    (fs.setCount block value).count other = fs.count other := by
  simp [Fs.setCount, different]

/--
`new_block` takes a free zone, and returns 0 only when there is none.
-/
theorem satisfies_newBlock
    {sb : SuperBlock} {fs : Fs}
    (consistent : Consistent sb fs) :
    (newBlock sb).Satisfies fs
      (fun zone after =>
        (zone = 0 ∧ after = fs ∧ ∀ other, sb.IsZone other → fs.Marked sb other) ∨
        (sb.IsZone zone ∧ ¬ fs.Marked sb zone ∧ after = fs.take sb zone))
      (fun _ => False) := by
  unfold newBlock
  rw [Routine.satisfies_bind, Routine.satisfies_read]
  cases found : freeBit sb fs.zmap with
  | none =>
    simp only
    rw [Routine.satisfies_pure]
    exact Or.inl ⟨rfl, rfl, fun other isZone =>
      freeBit_none found isZone.bit_lt⟩
  | some bit =>
    obtain ⟨inside, free⟩ := freeBit_some found
    obtain ⟨isZone, bitOf⟩ := consistent.isZone inside free
    have unmarked :
        ¬ fs.Marked sb (bit + sb.firstDataZone - 1) := by
      unfold Fs.Marked
      rw [bitOf, free]
      exact Bool.false_ne_true
    have unused := consistent.idle _ isZone unmarked
    simp only
    rw [Routine.satisfies_bind, Routine.satisfies_update, free,
      if_neg Bool.false_ne_true, if_neg (Nat.not_le.mpr isZone.2),
      bread, Routine.satisfies_bind, Routine.satisfies_update,
      Routine.satisfies_bind, Routine.satisfies_read]
    have one :
        ((fs.setBit bit true).count (bit + sb.firstDataZone - 1) + 1) =
          1 := by
      rw [Nat.add_eq_right]
      exact unused
    rw [one, setCount_count, if_neg (by decide), Routine.satisfies_bind,
      Routine.satisfies_update]
    have back :
        (((fs.setBit bit true).setCount
              (bit + sb.firstDataZone - 1) 1).setData
            (bit + sb.firstDataZone - 1) .zeros).count
          (bit + sb.firstDataZone - 1) = 1 :=
      setCount_count 1
    rw [Routine.satisfies_bind_of_ret (brelse_of_succ back)]
    refine Or.inr ⟨isZone, unmarked, ?_⟩
    rw [Fs.take, bitOf]
    have unusedStill :
        ((fs.setBit bit true).setData (bit + sb.firstDataZone - 1)
          .zeros).count (bit + sb.firstDataZone - 1) = 0 :=
      unused
    exact setCount_back 1 unusedStill

/-! ## A zone put into an empty slot -/

/-- Take a zone and store it in a slot. -/
def Fs.fill
    (sb : SuperBlock)
    (inode : Nat)
    (path : List Nat)
    (zone : Nat)
    (fs : Fs) : Fs :=
  match path with
  | [] => fs.take sb zone
  | [index] => (fs.take sb zone).setZone inode index zone
  | index :: next :: rest =>
    (fs.take sb zone).setEntry (fs.zoneAt inode (next :: rest)) index zone

section Fill

variable {sb : SuperBlock} {fs : Fs} {inode zone : Nat} {path : List Nat}

theorem fill_zmap :
    (fs.fill sb inode path zone).zmap =
      Function.update fs.zmap (sb.bit zone) true := by
  match path with
  | [] => rfl
  | [_] => rfl
  | _ :: _ :: _ => rfl

theorem fill_count : (fs.fill sb inode path zone).count = fs.count := by
  match path with
  | [] => rfl
  | [_] => rfl
  | _ :: _ :: _ => rfl

theorem setZone_mode
    {index other : Nat} :
    ((fs.setZone inode index zone).inode other).mode =
      (fs.inode other).mode := by
  by_cases same : other = inode
  · simp [Fs.setZone, Fs.setInode, same]
  · simp [Fs.setZone, Fs.setInode, same]

theorem setZone_size
    {index other : Nat} :
    ((fs.setZone inode index zone).inode other).size =
      (fs.inode other).size := by
  by_cases same : other = inode
  · simp [Fs.setZone, Fs.setInode, same]
  · simp [Fs.setZone, Fs.setInode, same]

theorem setZone_zone
    {index other place : Nat} :
    ((fs.setZone inode index zone).inode other).zone place =
      if other = inode ∧ place = index then zone
      else (fs.inode other).zone place := by
  by_cases same : other = inode
  · by_cases here : place = index
    · simp [Fs.setZone, Fs.setInode, same, here]
    · simp [Fs.setZone, Fs.setInode, same, here]
  · simp [Fs.setZone, Fs.setInode, same]

theorem fill_mode
    {other : Nat} :
    ((fs.fill sb inode path zone).inode other).mode =
      (fs.inode other).mode := by
  match path with
  | [] => rfl
  | [_] => exact setZone_mode
  | _ :: _ :: _ => rfl

theorem fill_size
    {other : Nat} :
    ((fs.fill sb inode path zone).inode other).size =
      (fs.inode other).size := by
  match path with
  | [] => rfl
  | [_] => exact setZone_size
  | _ :: _ :: _ => rfl

theorem fill_slot
    {other : Nat} {otherPath : List Nat} :
    (fs.fill sb inode path zone).Slot other otherPath ↔
      fs.Slot other otherPath := by
  unfold Fs.Slot Fs.IsFile
  rw [fill_mode]

theorem take_data
    {block : Nat} :
    (fs.take sb zone).data block =
      if block = zone then .zeros else fs.data block := by
  by_cases same : block = zone
  · simp [Fs.take, Fs.setData, same]
  · simp [Fs.take, Fs.setData, Fs.setBit, same]

/-- The contents of a block after a slot has been filled. -/
theorem fill_data
    {block : Nat} :
    (fs.fill sb inode path zone).data block =
      match path with
      | index :: next :: rest =>
        if block = fs.zoneAt inode (next :: rest) then
          ((fs.take sb zone).data block).setWord index zone
        else
          (fs.take sb zone).data block
      | _ =>
        (fs.take sb zone).data block := by
  match path with
  | [] => rfl
  | [_] => rfl
  | index :: next :: rest =>
    by_cases same : block = fs.zoneAt inode (next :: rest)
    · simp [Fs.fill, Fs.setEntry, Fs.setData, same]
    · simp [Fs.fill, Fs.setEntry, Fs.setData, same]

theorem fill_zone
    {other place : Nat} :
    ((fs.fill sb inode path zone).inode other).zone place =
      if other = inode ∧ path = [place] then zone
      else (fs.inode other).zone place := by
  match path with
  | [] => simp [Fs.fill, Fs.take, Fs.setData, Fs.setBit]
  | [index] =>
    change (((fs.take sb zone).setZone inode index zone).inode
      other).zone place = _
    rw [setZone_zone]
    simp only [List.cons.injEq, and_true, eq_comm]
    rfl
  | _ :: _ :: _ => simp [Fs.fill, Fs.take, Fs.setEntry, Fs.setData, Fs.setBit]

/-- No slot has a zone that is free. -/
theorem Consistent.ne_free
    {other : Nat} {otherPath : List Nat}
    (consistent : Consistent sb fs)
    (free : ¬ fs.Marked sb zone)
    (slot : fs.Slot other otherPath)
    (present : fs.zoneAt other otherPath ≠ 0) :
    fs.zoneAt other otherPath ≠ zone := by
  intro same
  exact free (same ▸ consistent.marked other otherPath slot present)

/-- The zone that is put into a slot is clear. -/
theorem fill_data_self
    (consistent : Consistent sb fs)
    (slot : fs.Slot inode path)
    (hasParent : fs.HasParent inode path)
    (free : ¬ fs.Marked sb zone) :
    (fs.fill sb inode path zone).data zone = .zeros := by
  rw [fill_data]
  match path with
  | [] =>
    exact absurd slot.2 id
  | [_] =>
    simp only
    rw [take_data, if_pos rfl]
  | _ :: next :: rest =>
    have different :
        zone ≠ fs.zoneAt inode (next :: rest) :=
      (consistent.ne_free free ⟨slot.1, slot.2.parent⟩ hasParent).symm
    simp only
    rw [if_neg different, take_data, if_pos rfl]

/-- What filling a slot does to the words of a block that is in a slot. -/
theorem entry_fill
    (consistent : Consistent sb fs)
    (slot : fs.Slot inode path)
    (hasParent : fs.HasParent inode path)
    (free : ¬ fs.Marked sb zone)
    (small : zone < 65536)
    {other index next : Nat} {rest : List Nat}
    (otherSlot : fs.Slot other (index :: next :: rest)) :
    (fs.fill sb inode path zone).entry (fs.zoneAt other (next :: rest))
        index =
      if other = inode ∧ index :: next :: rest = path then zone
      else fs.entry (fs.zoneAt other (next :: rest)) index := by
  have parentSlot : fs.Slot other (next :: rest) :=
    ⟨otherSlot.1, otherSlot.2.parent⟩
  by_cases absent : fs.zoneAt other (next :: rest) = 0
  · have notSelf : ¬ (other = inode ∧ index :: next :: rest = path) := by
      rintro ⟨rfl, rfl⟩
      exact hasParent absent
    rw [if_neg notSelf, Fs.entry, Fs.entry, if_pos absent, if_pos absent]
  · have notFresh := consistent.ne_free free parentSlot absent
    rw [Fs.entry, Fs.entry, if_neg absent, if_neg absent, fill_data,
      take_data, if_neg notFresh]
    match path with
    | [] =>
      exact absurd slot.2 id
    | [_] =>
      rw [if_neg (by rintro ⟨_, same⟩; cases same)]
    | place :: up :: above =>
      simp only
      by_cases same :
          fs.zoneAt other (next :: rest) = fs.zoneAt inode (up :: above)
      · obtain ⟨rfl, paths⟩ :=
          consistent.unique _ _ _ _ parentSlot
            ⟨slot.1, slot.2.parent⟩ absent same
        rw [if_pos same, paths]
        by_cases here : index = place
        · rw [here, Block.word_setWord_self small, if_pos ⟨rfl, rfl⟩]
        · rw [Block.word_setWord_of_ne here, if_neg]
          rintro ⟨_, equal⟩
          exact here (List.head_eq_of_cons_eq equal)
      · rw [if_neg same, if_neg]
        rintro ⟨rfl, equal⟩
        exact same (by rw [List.tail_eq_of_cons_eq equal])

/-- Filling an empty slot changes this slot and no other. -/
theorem zoneAt_fill
    (consistent : Consistent sb fs)
    (slot : fs.Slot inode path)
    (hasParent : fs.HasParent inode path)
    (empty : fs.zoneAt inode path = 0)
    (isZone : sb.IsZone zone)
    (free : ¬ fs.Marked sb zone)
    {other : Nat} {otherPath : List Nat}
    (otherSlot : fs.Slot other otherPath) :
    (fs.fill sb inode path zone).zoneAt other otherPath =
      if other = inode ∧ otherPath = path then zone
      else fs.zoneAt other otherPath := by
  induction otherPath with
  | nil =>
    exact absurd otherSlot.2 id
  | cons index parent inductionHypothesis =>
    match parent with
    | [] =>
      change ((fs.fill sb inode path zone).inode other).zone index = _
      rw [fill_zone]
      simp only [eq_comm]
      rfl
    | next :: rest =>
      have parentSlot : fs.Slot other (next :: rest) :=
        ⟨otherSlot.1, otherSlot.2.parent⟩
      have above := inductionHypothesis parentSlot
      change Fs.entry _ (Fs.zoneAt _ other (next :: rest)) index =
        if _ then zone
        else fs.entry (fs.zoneAt other (next :: rest)) index
      rw [above]
      by_cases self : other = inode ∧ next :: rest = path
      · obtain ⟨rfl, rfl⟩ := self
        have longer : index :: next :: rest ≠ next :: rest :=
          fun same => Nat.succ_ne_self _ (congrArg List.length same)
        rw [if_pos ⟨rfl, rfl⟩, if_neg fun same => longer same.2, empty,
          Fs.entry, if_neg isZone.ne_zero,
          fill_data_self consistent slot hasParent free,
          Block.word_zeros, Fs.entry, if_pos rfl]
      · rw [if_neg self]
        exact entry_fill consistent slot hasParent free isZone.lt
          otherSlot

theorem fill_marked
    {other : Nat}
    (isZone : sb.IsZone zone)
    (isOther : sb.IsZone other) :
    (fs.fill sb inode path zone).Marked sb other ↔
      other = zone ∨ fs.Marked sb other := by
  unfold Fs.Marked
  rw [fill_zmap]
  by_cases same : other = zone
  · simp [same]
  · have bits : sb.bit other ≠ sb.bit zone :=
      fun equal => same (SuperBlock.bit_inj isOther isZone equal)
    simp [same, bits]

/-- Filling an empty slot with a free zone keeps the file system consistent. -/
theorem Consistent.fill
    (consistent : Consistent sb fs)
    (slot : fs.Slot inode path)
    (hasParent : fs.HasParent inode path)
    (empty : fs.zoneAt inode path = 0)
    (isZone : sb.IsZone zone)
    (free : ¬ fs.Marked sb zone) :
    Consistent sb (fs.fill sb inode path zone) := by
  have zones :
      ∀ other otherPath, fs.Slot other otherPath →
        (fs.fill sb inode path zone).zoneAt other otherPath =
          if other = inode ∧ otherPath = path then zone
          else fs.zoneAt other otherPath :=
    fun _ _ => zoneAt_fill consistent slot hasParent empty isZone free
  constructor
  case reserved =>
    intro bit inside reserved
    rw [fill_zmap]
    by_cases same : bit = sb.bit zone
    · rw [same, Function.update_self]
    · rw [Function.update_of_ne same]
      exact consistent.reserved bit inside reserved
  case inRange =>
    intro other otherPath otherSlot present
    rw [fill_slot] at otherSlot
    rw [zones _ _ otherSlot] at present ⊢
    split at present
    · rename_i here
      rw [if_pos here]
      exact isZone
    · rename_i there
      rw [if_neg there]
      exact consistent.inRange other otherPath otherSlot present
  case marked =>
    intro other otherPath otherSlot present
    rw [fill_slot] at otherSlot
    rw [zones _ _ otherSlot] at present ⊢
    split at present
    · rename_i here
      rw [if_pos here]
      exact (fill_marked isZone isZone).mpr (Or.inl rfl)
    · rename_i there
      rw [if_neg there]
      have range := consistent.inRange other otherPath otherSlot present
      exact (fill_marked isZone range).mpr
        (Or.inr (consistent.marked other otherPath otherSlot present))
  case unique =>
    intro first firstPath second secondPath firstSlot secondSlot present
      same
    rw [fill_slot] at firstSlot secondSlot
    rw [zones _ _ firstSlot] at present same
    rw [zones _ _ secondSlot] at same
    by_cases one : first = inode ∧ firstPath = path
    · by_cases two : second = inode ∧ secondPath = path
      · exact ⟨one.1.trans two.1.symm, one.2.trans two.2.symm⟩
      · rw [if_pos one, if_neg two] at same
        have shared : fs.zoneAt second secondPath ≠ 0 :=
          same ▸ isZone.ne_zero
        exact absurd same.symm
          (consistent.ne_free free secondSlot shared)
    · by_cases two : second = inode ∧ secondPath = path
      · rw [if_neg one] at present
        rw [if_neg one, if_pos two] at same
        exact absurd same (consistent.ne_free free firstSlot present)
      · rw [if_neg one] at present same
        rw [if_neg two] at same
        exact consistent.unique _ _ _ _ firstSlot secondSlot present same
  case owned =>
    intro other isOther marked
    rcases (fill_marked isZone isOther).mp marked with rfl | marked
    · refine ⟨inode, path, fill_slot.mpr slot, ?_⟩
      rw [zones _ _ slot, if_pos ⟨rfl, rfl⟩]
    · obtain ⟨owner, ownerPath, ownerSlot, stands⟩ :=
        consistent.owned other isOther marked
      refine ⟨owner, ownerPath, fill_slot.mpr ownerSlot, ?_⟩
      rw [zones _ _ ownerSlot, if_neg, stands]
      rintro ⟨rfl, rfl⟩
      exact isOther.ne_zero (stands.symm.trans empty)
  case idle =>
    intro other isOther unmarked
    rw [fill_count]
    exact consistent.idle other isOther fun marked =>
      unmarked ((fill_marked isZone isOther).mpr (Or.inr marked))

end Fill

/-! ## A small file system -/

/-- Two zones. -/
def smallSuper : SuperBlock where
  firstDataZone := 2
  nzones := 4
  zmapBlocks := 1
  positive := by decide
  ordered := by decide
  small := by decide
  slots := by decide
  mapped := by decide

/-- Only inodes without zones. -/
def emptyFs (mode : Nat) : Fs where
  zmap bit := !(bit == 1 || bit == 2)
  data _ := .zeros
  count _ := 0
  inode _ := { mode := mode, size := 0, zone := fun _ => 0 }

theorem emptyFs_zoneAt
    {mode inode : Nat} {path : List Nat} :
    (emptyFs mode).zoneAt inode path = 0 := by
  match path with
  | [] =>
    rfl
  | [_] =>
    rfl
  | index :: next :: rest =>
    change Fs.entry _ (Fs.zoneAt _ inode (next :: rest)) index = 0
    rw [emptyFs_zoneAt]
    rfl

theorem emptyFs_consistent
    {mode : Nat} :
    Consistent smallSuper (emptyFs mode) := by
  constructor
  case reserved =>
    intro bit _ reserved
    have far : bit ≠ 1 ∧ bit ≠ 2 := by
      change bit = 0 ∨ 4 ≤ bit + 2 - 1 at reserved
      omega
    change (!(bit == 1 || bit == 2)) = true
    simp [far.1, far.2]
  case inRange =>
    exact fun _ _ _ present => absurd emptyFs_zoneAt present
  case marked =>
    exact fun _ _ _ present => absurd emptyFs_zoneAt present
  case unique =>
    exact fun _ _ _ _ _ _ present => absurd emptyFs_zoneAt present
  case owned =>
    intro zone isZone marked
    change 2 ≤ zone ∧ zone < 4 at isZone
    change (!(zone - 1 == 1 || zone - 1 == 2)) = true at marked
    have near : (zone - 1 == 1 || zone - 1 == 2) = true := by
      rw [Bool.or_eq_true, beq_iff_eq, beq_iff_eq]
      omega
    rw [near] at marked
    cases marked
  case idle =>
    exact fun _ _ _ => rfl

/-- One zone put into an inode. -/
theorem emptyFs_fill_consistent
    {mode inode : Nat}
    (file : (isReg mode || isDir mode) = true) :
    Consistent smallSuper ((emptyFs mode).fill smallSuper inode [0] 3) := by
  have isZone : smallSuper.IsZone 3 :=
    ⟨by decide, by decide⟩
  have free : ¬ (emptyFs mode).Marked smallSuper 3 := by
    change ¬ (false = true)
    exact Bool.false_ne_true
  have slot : (emptyFs mode).Slot inode [0] :=
    ⟨file, show 0 < 9 by decide⟩
  exact emptyFs_consistent.fill slot trivial rfl isZone free

end Zones

end HitOs
