import HitOs.FileCalls
import Mathlib.Data.Finset.Union
import Mathlib.Order.Interval.Finset.Nat

namespace HitOs

/-!
# The zones that are left for a file

A write stops where no zone is free.  Whether it gets as far as the last block that
`_bmap` supports depends on how many zones the file has no place for yet.
-/

namespace Zones

open Routine

variable {sb : SuperBlock} {fs middle after : Fs} {inode : Nat}

/-- The zones that no file has. -/
def Fs.freeZones (sb : SuperBlock) (fs : Fs) : Finset Nat :=
  (Finset.Ico sb.firstDataZone sb.nzones).filter fun zone =>
    fs.zmap (sb.bit zone) = false

/-- The slots that lead to the blocks from the given one on. -/
def pathsFrom (first : Nat) : Finset (List Nat) :=
  (Finset.Ico first (7 + 512 + 512 * 512)).biUnion fun block =>
    ((pathOf block).tails.filter (· ≠ [])).toFinset

/-- Those of them that are empty. -/
def Fs.missing (fs : Fs) (inode first : Nat) : Finset (List Nat) :=
  (pathsFrom first).filter fun path => fs.zoneAt inode path = 0

/-- Slots that are not empty stay as they are. -/
def Fs.Keeps (fs after : Fs) : Prop :=
  (∀ inode, (after.inode inode).mode = (fs.inode inode).mode) ∧
    ∀ inode path, fs.Slot inode path → fs.zoneAt inode path ≠ 0 →
      after.zoneAt inode path = fs.zoneAt inode path

theorem Fs.Keeps.isFile
    (keeps : fs.Keeps after) :
    after.IsFile inode ↔ fs.IsFile inode := by
  unfold IsFile
  rw [keeps.1]

theorem Fs.Keeps.slot
    {path : List Nat}
    (keeps : fs.Keeps after) :
    after.Slot inode path ↔ fs.Slot inode path :=
  and_congr_left fun _ => keeps.isFile

theorem Fs.Keeps.trans
    (head : fs.Keeps middle)
    (rest : middle.Keeps after) :
    fs.Keeps after := by
  refine ⟨fun inode => (rest.1 inode).trans (head.1 inode), ?_⟩
  intro inode path slot present
  have same := head.2 inode path slot present
  rw [← same]
  exact rest.2 inode path (head.slot.mpr slot) (by rw [same]; exact present)

/-- A slot can only be reached through slots that are not empty. -/
theorem zoneAt_suffix
    {path suffix : List Nat}
    (isSuffix : suffix <:+ path)
    (notEmpty : suffix ≠ [])
    (present : fs.zoneAt inode path ≠ 0) :
    fs.zoneAt inode suffix ≠ 0 := by
  induction path with
  | nil =>
    rw [List.suffix_nil] at isSuffix
    exact absurd isSuffix notEmpty
  | cons index rest inductionHypothesis =>
    rcases List.suffix_cons_iff.mp isSuffix with rfl | shorter
    · exact present
    · cases rest with
      | nil =>
        rw [List.suffix_nil] at shorter
        exact absurd shorter notEmpty
      | cons next others =>
        apply inductionHypothesis shorter
        intro empty
        apply present
        change fs.entry (fs.zoneAt inode (next :: others)) index = 0
        rw [empty]
        rfl

theorem isPath_suffix
    {path suffix : List Nat}
    (isPath : IsPath path)
    (isSuffix : suffix <:+ path)
    (notEmpty : suffix ≠ []) :
    IsPath suffix := by
  induction path with
  | nil =>
    rw [List.suffix_nil] at isSuffix
    exact absurd isSuffix notEmpty
  | cons index rest inductionHypothesis =>
    rcases List.suffix_cons_iff.mp isSuffix with rfl | shorter
    · exact isPath
    · cases rest with
      | nil =>
        rw [List.suffix_nil] at shorter
        exact absurd shorter notEmpty
      | cons next others =>
        exact inductionHypothesis isPath.parent shorter

/-- Each slot that is filled has taken a zone that was free. -/
theorem missing_le_free
    {first : Nat}
    (before : Consistent sb fs)
    (later : Consistent sb after)
    (file : fs.IsFile inode)
    (keeps : fs.Keeps after)
    (filled :
      ∀ block, first ≤ block → block < 7 + 512 + 512 * 512 →
        after.zoneAt inode (pathOf block) ≠ 0) :
    (fs.missing inode first).card ≤ (fs.freeZones sb).card := by
  have slotOf :
      ∀ path ∈ pathsFrom first,
        fs.Slot inode path ∧ after.zoneAt inode path ≠ 0 := by
    intro path member
    unfold pathsFrom at member
    rw [Finset.mem_biUnion] at member
    obtain ⟨block, inRange, member⟩ := member
    rw [Finset.mem_Ico] at inRange
    simp only [List.mem_toFinset, List.mem_filter, List.mem_tails,
      decide_eq_true_eq] at member
    obtain ⟨isSuffix, notEmpty⟩ := member
    have leaf := (isLeaf_pathOf inRange.2).isPath
    exact ⟨⟨file, isPath_suffix leaf isSuffix notEmpty⟩,
      zoneAt_suffix isSuffix notEmpty (filled block inRange.1 inRange.2)⟩
  apply Finset.card_le_card_of_injOn (after.zoneAt inode)
  · intro path member
    unfold Fs.missing at member
    rw [Finset.mem_coe, Finset.mem_filter] at member
    obtain ⟨member, empty⟩ := member
    obtain ⟨slot, present⟩ := slotOf path member
    have slot' := keeps.slot.mpr slot
    have isZone := later.inRange inode path slot' present
    unfold Fs.freeZones
    rw [Finset.mem_coe, Finset.mem_filter, Finset.mem_Ico]
    refine ⟨isZone, ?_⟩
    by_contra marked
    rw [Bool.not_eq_false] at marked
    -- A zone that was marked had a slot, and it still is in that one.
    obtain ⟨owner, ownerPath, ownerSlot, same⟩ := before.owned _ isZone marked
    have notZero : fs.zoneAt owner ownerPath ≠ 0 := by
      rw [same]
      exact present
    have stays := keeps.2 owner ownerPath ownerSlot notZero
    obtain ⟨rfl, rfl⟩ :=
      later.unique inode path owner ownerPath slot' (keeps.slot.mpr ownerSlot) present
        (by rw [stays, same])
    exact notZero empty
  · intro path member other otherMember same
    unfold Fs.missing at member otherMember
    rw [Finset.mem_coe, Finset.mem_filter] at member otherMember
    obtain ⟨slot, present⟩ := slotOf path member.1
    obtain ⟨otherSlot, _⟩ := slotOf other otherMember.1
    exact (later.unique inode path inode other (keeps.slot.mpr slot)
      (keeps.slot.mpr otherSlot) present same).2

/-! ## A write that gets to the last block -/

theorem Mapped.keeps
    {path : List Nat} {create : Bool} {zone : Nat}
    (mapped : Mapped sb fs inode path create zone after) :
    fs.Keeps after :=
  ⟨mapped.extension.mode, mapped.extension.kept⟩

/-- Storing bytes moves no zone. -/
theorem keeps_writeTurn
    {pos : Nat} {bytes : List UInt8} {path : List Nat}
    (consistent : Consistent sb fs)
    (file : fs.IsFile inode)
    (leaf : IsLeaf path)
    (present : fs.zoneAt inode path ≠ 0) :
    fs.Keeps (fs.writeTurn inode pos (fs.zoneAt inode path) bytes) := by
  refine ⟨growSize_mode, ?_⟩
  intro other otherPath slot _
  have grown : (fs.growSize inode (pos + bytes.length)).IsFile inode :=
    (growSize_isFile inode).mpr file
  have consistent' : Consistent sb (fs.growSize inode (pos + bytes.length)) :=
    consistent.growSize
  have stored :
      ((fs.growSize inode (pos + bytes.length)).setData
          ((fs.growSize inode (pos + bytes.length)).zoneAt inode path)
          (storeBytes (pos % blockSize) bytes
            (fs.data (fs.zoneAt inode path)))).zoneAt other otherPath =
        (fs.growSize inode (pos + bytes.length)).zoneAt other otherPath :=
    zoneAt_setData consistent' grown leaf (growSize_zoneAt.trans_ne present)
      ⟨(growSize_isFile other).mpr slot.1, slot.2⟩
  rw [growSize_zoneAt, growSize_zoneAt] at stored
  exact stored

/-- The blocks that the loop of `file_write` has passed have zones. -/
theorem fileWriteLoop_fills
    {pos last : Nat} {buf rest : List UInt8}
    (consistent : Consistent sb fs)
    (file : fs.IsFile inode)
    (inside : pos + buf.length ≤ maxSize)
    (returned : fileWriteLoop sb inode pos buf fs = .ret (last, rest) after) :
    fs.Keeps after ∧
      ∀ block, pos / blockSize ≤ block → block * blockSize < last → pos < last →
        after.zoneAt inode (pathOf block) ≠ 0 := by
  induction length : buf.length using Nat.strong_induction_on
    generalizing fs pos buf with
  | _ count inductionHypothesis =>
    by_cases empty : buf = []
    · rw [fileWriteLoop, dif_pos empty] at returned
      cases returned
      exact ⟨⟨fun _ => rfl, fun _ _ _ _ => rfl⟩,
        fun _ _ _ less => absurd less (Nat.lt_irrefl _)⟩
    · have nonzero := List.length_pos_iff.mpr empty
      have start : pos < maxSize := by
        omega
      have leaf := isLeaf_pathOf (block_lt_of_lt_maxSize start)
      have creates :
          (createBlock sb inode (pos / blockSize)).Satisfies fs
            (Mapped sb fs inode (pathOf (pos / blockSize)) true)
            (fun _ => False) :=
        satisfies_bmapOrCreate consistent file (block_lt_of_lt_maxSize start)
      obtain ⟨zone, middle, created, mapped⟩ := creates.returns
      by_cases absent : zone = 0
      · subst absent
        rw [fileWriteLoop_of_none empty created] at returned
        cases returned
        exact ⟨mapped.keeps, fun _ _ _ less => absurd less (Nat.lt_irrefl _)⟩
      · rw [fileWriteLoop_of_some empty absent created] at returned
        have positive : 0 < turnSize pos buf.length := turnSize_pos nonzero
        have few := turnSize_le pos buf.length
        have lengths := length_take_turnSize pos buf
        have remainder : pos % blockSize < blockSize :=
          Nat.mod_lt pos (by decide)
        have notEmpty : buf.take (turnSize pos buf.length) ≠ [] := by
          rw [← List.length_pos_iff, lengths]
          exact positive
        have turn :
            Wrote sb fs inode pos _ _
              (middle.writeTurn inode pos zone
                (buf.take (turnSize pos buf.length))) :=
          wrote_turn mapped file absent notEmpty
            (by rw [lengths]; unfold turnSize; omega)
            (by rw [lengths]; omega)
        have left :
            (buf.drop (turnSize pos buf.length)).length =
              buf.length - turnSize pos buf.length :=
          List.length_drop
        have zone_eq := mapped.zone_eq
        have stored :
            middle.Keeps
              (middle.writeTurn inode pos zone
                (buf.take (turnSize pos buf.length))) := by
          rw [← zone_eq] at absent ⊢
          exact keeps_writeTurn mapped.consistent
            (mapped.keeps.isFile.mpr file) leaf absent
        have file' := (mapped.keeps.trans stored).isFile.mpr file
        obtain ⟨keeps, filled⟩ :=
          inductionHypothesis _ (by omega) turn.consistent file'
            (by omega) returned rfl
        have whole := (mapped.keeps.trans stored).trans keeps
        refine ⟨whole, ?_⟩
        intro block lower passed _
        by_cases first : block = pos / blockSize
        · subst first
          have slot : middle.Slot inode (pathOf (pos / blockSize)) :=
            ⟨mapped.keeps.isFile.mpr file, leaf.isPath⟩
          have present : middle.zoneAt inode (pathOf (pos / blockSize)) ≠ 0 := by
            rw [zone_eq]
            exact absent
          rw [(stored.trans keeps).2 _ _ slot present]
          exact present
        · have later : pos / blockSize + 1 ≤ block := by
            omega
          have reached : pos + turnSize pos buf.length ≤ block * blockSize := by
            have split := Nat.div_add_mod pos blockSize
            have bound := Nat.mul_le_mul_left blockSize later
            unfold turnSize
            rw [Nat.mul_add] at bound
            rw [Nat.mul_comm block]
            omega
          apply filled block _ passed (by omega)
          exact Nat.div_le_of_le_mul (by rw [Nat.mul_comm]; exact reached)

/-- A write that stops within a part of its bytes stops there with more of them, too. -/
theorem fileWriteLoop_append
    {pos last : Nat} {front tail rest : List UInt8}
    (aligned : (pos + front.length) % blockSize = 0)
    (stopped : rest ≠ [])
    (returned : fileWriteLoop sb inode pos front fs = .ret (last, rest) after) :
    fileWriteLoop sb inode pos (front ++ tail) fs =
      .ret (last, rest ++ tail) after := by
  induction length : front.length using Nat.strong_induction_on
    generalizing fs pos front with
  | _ count inductionHypothesis =>
    by_cases empty : front = []
    · rw [fileWriteLoop, dif_pos empty] at returned
      cases returned
      exact absurd empty stopped
    · have nonzero := List.length_pos_iff.mpr empty
      have notEmpty : front ++ tail ≠ [] :=
        List.append_ne_nil_of_left_ne_nil empty tail
      cases created : createBlock sb inode (pos / blockSize) fs with
      | ret zone middle =>
        by_cases absent : zone = 0
        · subst absent
          rw [fileWriteLoop_of_none empty created] at returned
          rw [fileWriteLoop_of_none notEmpty created]
          cases returned
          rfl
        · rw [fileWriteLoop_of_some empty absent created] at returned
          rw [fileWriteLoop_of_some notEmpty absent created]
          -- The part ends with a block, so this turn ends in it.
          have few := turnSize_le pos front.length
          have positive : 0 < turnSize pos front.length := turnSize_pos nonzero
          have same :
              turnSize pos (front ++ tail).length =
                turnSize pos front.length := by
            rw [List.length_append]
            unfold turnSize
            unfold blockSize at aligned ⊢
            omega
          rw [same, List.take_append_of_le_length few,
            List.drop_append_of_le_length few]
          have left :
              (front.drop (turnSize pos front.length)).length =
                front.length - turnSize pos front.length :=
            List.length_drop
          have aligned' :
              (pos + turnSize pos front.length +
                (front.drop (turnSize pos front.length)).length) %
                  blockSize = 0 := by
            rw [left, Nat.add_assoc, Nat.add_sub_cancel' few]
            exact aligned
          exact inductionHypothesis _ (by omega) aligned' returned rfl
      | abandon middle =>
        rw [fileWriteLoop, dif_neg empty, bind_of_abandon created] at returned
        cases returned
      | panic message =>
        rw [fileWriteLoop, dif_neg empty, bind_of_panic created] at returned
        cases returned

/-! ## Writes that cannot get past the last block -/

/--
A write ends before the limit of `_bmap`, or starts before it and meets the end
of the zones first.
-/
def Stays (sb : SuperBlock) (fs : Fs) (inode pos count : Nat) : Prop :=
  pos + count ≤ maxSize ∨
    pos < maxSize ∧ (fs.freeZones sb).card < (fs.missing inode (pos / blockSize)).card

/-- The loop of `file_write`, for a write that stays before the limit. -/
theorem satisfies_fileWriteLoop_of_stays
    {pos : Nat} {buf : List UInt8}
    (consistent : Consistent sb fs)
    (file : fs.IsFile inode)
    (stays : Stays sb fs inode pos buf.length) :
    (fileWriteLoop sb inode pos buf).Satisfies fs
      (fun result after =>
        ∃ taken, result = (pos + taken, buf.drop taken) ∧
          pos + taken ≤ maxSize ∧ Wrote sb fs inode pos buf taken after)
      (fun _ => False) := by
  by_cases inside : pos + buf.length ≤ maxSize
  · refine (satisfies_fileWriteLoop consistent file inside).mono ?_ (fun _ => id)
    rintro _ after ⟨taken, rfl, wrote⟩
    have bound := wrote.taken_le
    exact ⟨taken, rfl, by omega, wrote⟩
  · obtain ⟨start, few⟩ := stays.resolve_left inside
    generalize split : maxSize - pos = room
    have short : room < buf.length := by
      omega
    have lengths : (buf.take room).length = room := by
      rw [List.length_take]
      omega
    obtain ⟨⟨last, rest⟩, after, returned, taken, same, wrote⟩ :=
      (satisfies_fileWriteLoop consistent file
        (show pos + (buf.take room).length ≤ maxSize by omega)).returns
    cases same
    have bound := wrote.taken_le
    have stopped : (buf.take room).drop taken ≠ [] := by
      intro all
      have whole : taken = room := by
        rw [List.drop_eq_nil_iff] at all
        omega
      obtain ⟨keeps, filled⟩ :=
        fileWriteLoop_fills consistent file (by omega) returned
      have enough :=
        missing_le_free consistent wrote.consistent file keeps
          fun block lower upper =>
            filled block lower
              (by
                unfold maxSize at split
                have := Nat.mul_lt_mul_of_pos_right upper (show 0 < blockSize by decide)
                omega)
              (by omega)
      omega
    have aligned : (pos + (buf.take room).length) % blockSize = 0 := by
      rw [lengths, ← split, Nat.add_sub_cancel' (Nat.le_of_lt start)]
      decide
    have more :
        fileWriteLoop sb inode pos (buf.take room ++ buf.drop room) fs = .ret _ after :=
      fileWriteLoop_append aligned stopped returned
    rw [List.take_append_drop] at more
    have back : (buf.take room).drop taken ++ buf.drop room = buf.drop taken := by
      rw [← List.drop_append_of_le_length bound, List.take_append_drop]
    rw [back] at more
    unfold Satisfies
    rw [more]
    have less : taken < room := by
      by_contra all
      exact stopped (List.drop_eq_nil_iff.mpr (by omega))
    refine ⟨taken, rfl, by omega, ?_⟩
    exact {
      consistent := wrote.consistent
      mode := wrote.mode
      count := wrote.count
      taken_le := by omega
      files := by
        have same := wrote.files
        rwa [List.take_take, Nat.min_eq_left (by omega)] at same
      all := fun _ => wrote.all (by omega)
    }

end Zones

end HitOs
