import HitOs.BlockMap

namespace HitOs

/-!
# Devices that cannot read some blocks

`_bmap` returns 0 at an indirect block that `bread` cannot read.
-/

namespace DeviceErrors

open Routine Zones

/-- `_bmap`, where some of the indirect blocks may not be readable. -/
def bmapOrCreate
    (readable : Nat → Bool)
    (sb : SuperBlock)
    (inode : Nat)
    (block : Int)
    (create : Bool) :
    Routine Fs Nat := do
  if block < 0 then
    Routine.panic "_bmap: block<0"
  else if 7 + 512 + 512 * 512 ≤ block.toNat then
    Routine.panic "_bmap: block>big"
  else if block.toNat < 7 then
    inodeZone sb inode block.toNat create
  else
    let block := block.toNat - 7
    if block < 512 then
      let single ← inodeZone sb inode 7 create
      if !readable single then
        pure 0
      else
        entryZone sb single block create
    else
      let block := block - 512
      let double ← inodeZone sb inode 8 create
      if !readable double then
        pure 0
      else
        let single ← entryZone sb double (block / 512) create
        if !readable single then
          pure 0
        else
          entryZone sb single (block % 512) create

variable {readable : Nat → Bool} {sb : SuperBlock} {fs after : Fs}
variable {inode block : Nat} {create : Bool}

/-- Where the indirect blocks can be read, nothing else happens. -/
theorem bmapOrCreate_cases
    (consistent : Consistent sb fs)
    (file : fs.IsFile inode)
    (inside : block < 7 + 512 + 512 * 512) :
    bmapOrCreate readable sb inode block create fs =
        Zones.bmapOrCreate sb inode block create fs ∨
      ∃ after,
        bmapOrCreate readable sb inode block create fs = .ret 0 after ∧
          Consistent sb after ∧ Extends fs after ∧
            (create = false → after = fs) := by
  unfold bmapOrCreate Zones.bmapOrCreate
  rw [if_neg (Int.not_lt.mpr (Int.natCast_nonneg block)), Int.toNat_natCast,
    if_neg (Nat.not_le.mpr inside), if_neg (Nat.not_le.mpr inside)]
  by_cases direct : block < 7
  · rw [if_pos direct, if_pos direct]
    exact Or.inl rfl
  rw [if_neg direct, if_neg direct]
  simp only
  by_cases few : block - 7 < 512
  · rw [if_pos few, if_pos few]
    have finds :
        (inodeZone sb inode 7 create).Satisfies fs
          (Mapped sb fs inode [7] create) (fun _ => False) :=
      mapped_inodeZone consistent ⟨file, show 7 < 9 by decide⟩
    obtain ⟨single, middle, found, mapped⟩ := finds.returns
    rw [bind_of_ret found, bind_of_ret found]
    by_cases delivered : readable single = true
    · rw [delivered]
      exact Or.inl rfl
    · rw [Bool.not_eq_true] at delivered
      rw [delivered]
      exact Or.inr ⟨middle, rfl, mapped.consistent, mapped.extension, mapped.unchanged⟩
  · rw [if_neg few, if_neg few]
    have entries : (block - 7 - 512) / 512 < 512 := by
      omega
    have finds :
        (inodeZone sb inode 8 create).Satisfies fs
          (Mapped sb fs inode [8] create) (fun _ => False) :=
      mapped_inodeZone consistent ⟨file, show 8 < 9 by decide⟩
    obtain ⟨double, middle, found, mapped⟩ := finds.returns
    rw [bind_of_ret found, bind_of_ret found]
    by_cases delivered : readable double = true
    · obtain ⟨single, last, next, mapped'⟩ :=
        (mapped_entryZone mapped ⟨file, entries, Or.inr rfl⟩).returns
      rw [delivered, Bool.not_true, if_neg Bool.false_ne_true,
        bind_of_ret next, bind_of_ret next]
      by_cases delivered' : readable single = true
      · rw [delivered']
        exact Or.inl rfl
      · rw [Bool.not_eq_true] at delivered'
        rw [delivered']
        exact Or.inr ⟨last, rfl, mapped'.consistent, mapped'.extension,
          mapped'.unchanged⟩
    · rw [Bool.not_eq_true] at delivered
      rw [delivered]
      exact Or.inr ⟨middle, rfl, mapped.consistent, mapped.extension, mapped.unchanged⟩

/-! ## The zone of a block -/

/-- The zone that `_bmap` finds, or 0. -/
def found (readable : Nat → Bool) (fs : Fs) (inode block : Nat) : Nat :=
  if block < 7 then
    (fs.inode inode).zone block
  else if block - 7 < 512 then
    let single := (fs.inode inode).zone 7
    if readable single then fs.entry single (block - 7) else 0
  else
    let double := (fs.inode inode).zone 8
    if readable double then
      let single := fs.entry double ((block - 7 - 512) / 512)
      if readable single then fs.entry single ((block - 7 - 512) % 512)
      else 0
    else
      0

/-- Nothing is allocated where there is a zone. -/
theorem inodeZone_of_present
    {index : Nat}
    (present : create = true → (fs.inode inode).zone index ≠ 0) :
    inodeZone sb inode index create fs =
      .ret ((fs.inode inode).zone index) fs := by
  have test : (create && (fs.inode inode).zone index == 0) = false := by
    cases create with
    | false =>
      rfl
    | true =>
      simpa using present rfl
  have reads : (Routine.read : Routine Fs Fs) fs = .ret fs fs := rfl
  unfold inodeZone
  rw [bind_of_ret reads, test]
  rfl

theorem entryZone_of_present
    {zone index : Nat}
    (present : create = true → fs.entry zone index ≠ 0) :
    entryZone sb zone index create fs = .ret (fs.entry zone index) fs := by
  unfold entryZone
  by_cases absent : zone = 0
  · rw [if_pos absent, absent]
    rfl
  · have entry : fs.entry zone index = (fs.data zone).word index :=
      if_neg absent
    have test : (create && fs.entry zone index == 0) = false := by
      cases create with
      | false =>
        rfl
      | true =>
        simpa using present rfl
    have held :
        (fs.setCount zone (fs.count zone + 1)).count zone = fs.count zone + 1 :=
      setCount_count _
    rw [if_neg absent]
    rw [entry] at test ⊢
    change (if (create && (fs.data zone).word index == 0) = true then _
      else brelse zone >>= fun _ => pure ((fs.data zone).word index) :
        Routine Fs Nat) (fs.setCount zone (fs.count zone + 1)) = _
    rw [test, if_neg Bool.false_ne_true, bind_of_ret (brelse_of_succ held),
      setCount_back _ rfl]
    rfl

theorem entry_of_zero
    {index : Nat} :
    fs.entry 0 index = 0 :=
  if_pos rfl

/-- Where there is a zone, or none is asked for, `_bmap` changes nothing. -/
theorem bmapOrCreate_of_present
    (inside : block < 7 + 512 + 512 * 512)
    (present :
      create = true → fs.zoneAt inode (pathOf block) ≠ 0) :
    bmapOrCreate readable sb inode block create fs =
      .ret (found readable fs inode block) fs := by
  unfold bmapOrCreate found
  unfold pathOf at present
  rw [if_neg (Int.not_lt.mpr (Int.natCast_nonneg block)), Int.toNat_natCast,
    if_neg (Nat.not_le.mpr inside)]
  by_cases direct : block < 7
  · rw [if_pos direct] at present
    rw [if_pos direct, if_pos direct]
    exact inodeZone_of_present present
  rw [if_neg direct] at present
  rw [if_neg direct, if_neg direct]
  simp only
  by_cases few : block - 7 < 512
  · rw [if_pos few] at present
    rw [if_pos few, if_pos few]
    have single : create = true → (fs.inode inode).zone 7 ≠ 0 := by
      intro asked absent
      apply present asked
      change fs.entry ((fs.inode inode).zone 7) _ = 0
      rw [absent, entry_of_zero]
    rw [bind_of_ret (inodeZone_of_present single)]
    by_cases delivered : readable ((fs.inode inode).zone 7) = true
    · rw [delivered, Bool.not_true, if_neg Bool.false_ne_true, if_pos rfl]
      exact entryZone_of_present present
    · rw [Bool.not_eq_true] at delivered
      rw [delivered]
      rfl
  · rw [if_neg few] at present
    rw [if_neg few, if_neg few]
    have single :
        create = true →
          fs.entry ((fs.inode inode).zone 8) ((block - 7 - 512) / 512) ≠ 0 := by
      intro asked absent
      apply present asked
      change fs.entry (fs.entry ((fs.inode inode).zone 8) _) _ = 0
      rw [absent, entry_of_zero]
    have double : create = true → (fs.inode inode).zone 8 ≠ 0 := by
      intro asked absent
      apply single asked
      rw [absent, entry_of_zero]
    rw [bind_of_ret (inodeZone_of_present double)]
    by_cases delivered : readable ((fs.inode inode).zone 8) = true
    · rw [delivered, Bool.not_true, if_neg Bool.false_ne_true, if_pos rfl,
        bind_of_ret (entryZone_of_present single)]
      by_cases delivered' :
          readable
            (fs.entry ((fs.inode inode).zone 8)
              ((block - 7 - 512) / 512)) = true
      · rw [delivered', Bool.not_true, if_neg Bool.false_ne_true, if_pos rfl]
        exact entryZone_of_present present
      · rw [Bool.not_eq_true] at delivered'
        rw [delivered']
        rfl
    · rw [Bool.not_eq_true] at delivered
      rw [delivered]
      rfl

/-- A zone that is found is the one in the slot. -/
theorem zoneAt_of_found
    (present : found readable fs inode block ≠ 0) :
    fs.zoneAt inode (pathOf block) = found readable fs inode block := by
  unfold found at present ⊢
  unfold pathOf
  by_cases direct : block < 7
  · rw [if_pos direct, if_pos direct]
    rfl
  rw [if_neg direct] at present
  rw [if_neg direct, if_neg direct]
  simp only at present ⊢
  by_cases few : block - 7 < 512
  · rw [if_pos few] at present
    rw [if_pos few, if_pos few]
    by_cases delivered : readable ((fs.inode inode).zone 7) = true
    · rw [if_pos delivered]
      rfl
    · rw [if_neg delivered] at present
      exact absurd rfl present
  · rw [if_neg few] at present
    rw [if_neg few, if_neg few]
    by_cases delivered : readable ((fs.inode inode).zone 8) = true
    · rw [if_pos delivered] at present ⊢
      by_cases delivered' :
          readable
            (fs.entry ((fs.inode inode).zone 8)
              ((block - 7 - 512) / 512)) = true
      · rw [if_pos delivered']
        rfl
      · rw [if_neg delivered'] at present
        exact absurd rfl present
    · rw [if_neg delivered] at present
      exact absurd rfl present

/-- A zone that is put into an empty slot was free, and is full of zeros. -/
theorem satisfies_bmapOrCreate_of_absent
    (consistent : Consistent sb fs)
    (file : fs.IsFile inode)
    (inside : block < 7 + 512 + 512 * 512)
    (absent : fs.zoneAt inode (pathOf block) = 0) :
    (bmapOrCreate readable sb inode block true).Satisfies fs
      (fun zone after =>
        Extends fs after ∧
          (zone ≠ 0 → fs.zmap (sb.bit zone) = false ∧ after.data zone = .zeros))
      (fun _ => False) := by
  have ends :
      bmapOrCreate readable sb inode block true fs =
        createBlock sb inode block fs ∨ _ :=
    bmapOrCreate_cases consistent file inside
  unfold Satisfies
  rcases ends with same | ⟨after, gave, _, extension, _⟩
  · have creates :
        (createBlock sb inode block).Satisfies fs
          (Mapped sb fs inode (pathOf block) true) (fun _ => False) :=
      satisfies_bmapOrCreate consistent file inside
    obtain ⟨zone, after, created, mapped⟩ := creates.returns
    rw [same, created]
    refine ⟨mapped.extension, ?_⟩
    intro present
    have leaf := isLeaf_pathOf inside
    have slot : fs.Slot inode (pathOf block) := ⟨file, leaf.isPath⟩
    have slot' := mapped.extension.slot.mpr slot
    have present' : after.zoneAt inode (pathOf block) ≠ 0 := by
      rwa [mapped.zone_eq]
    have isZone := mapped.consistent.inRange _ _ slot' present'
    rw [mapped.zone_eq] at isZone
    constructor
    · by_contra marked
      rw [Bool.not_eq_false] at marked
      obtain ⟨owner, path, ownerSlot, same⟩ :=
        consistent.owned zone isZone marked
      have stays :=
        mapped.extension.kept owner path ownerSlot (by rwa [same])
      obtain ⟨rfl, rfl⟩ :=
        mapped.consistent.unique _ _ owner path slot'
          (mapped.extension.slot.mpr ownerSlot) present'
          (by rw [mapped.zone_eq, stays, same])
      exact present (same.symm.trans absent)
    · have contents := mapped.extension.contents inode _ file leaf
      unfold Fs.blockAt at contents
      rwa [if_neg present', if_pos absent, mapped.zone_eq] at contents
  · rw [gave]
    exact ⟨extension, fun present => absurd rfl present⟩

end DeviceErrors

end HitOs
