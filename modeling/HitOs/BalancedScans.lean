import HitOs.DirectoryScans

namespace HitOs

/-!
# Balanced scans

The loops of `empty_dir` and `add_entry`, and the exact conditions under which the
three scans of directories keep their buffers in balance.
-/

namespace Scans

open Routine Zones DeviceErrors

variable {readable : Nat → Nat → Bool} {sb : SuperBlock} {fs : Fs}
variable {dir : Nat}

/-! ## `empty_dir` -/

/-- `de->inode` -/
def isUsed (block : Block) (de : Nat) : Bool :=
  entryInode block de != 0

/--
No block is missing, unless a used entry or a block that cannot be read comes
before it.
-/
def EmptiesFrom
    (readable : Nat → Nat → Bool)
    (fs : Fs)
    (dir len nr : Nat) : Prop :=
  ScansFrom (Has isUsed readable fs dir)
    (fun b =>
      found (readable (entriesPerBlock * b)) fs dir b ≠ 0 ∧
        there readable fs dir b = none)
    (fun b =>
      entriesPerBlock * b < len →
        b < 7 + 512 + 512 * 512 ∧
          found (readable (entriesPerBlock * b)) fs dir b ≠ 0) nr

/-- A buffer that has been released is used again in any case. -/
theorem not_satisfies_emptyLoop_released
    {len nr block de : Nat} {returned : Bool → Fs → Prop} :
    ¬ (emptyLoop readable sb dir len nr (.released block) de).Satisfies fs
      returned (fun _ => False) := by
  rw [emptyLoop.eq_def]
  by_cases more : nr < len
  · rw [dif_pos more]
    exact id
  · rw [dif_neg more]
    exact id

/-- The look at an entry. -/
theorem satisfies_emptyLook_iff
    {len nr b de zone : Nat}
    (inside : b < 7 + 512 + 512 * 512)
    (here : there readable fs dir b = some zone)
    (place : nr = entriesPerBlock * b + de)
    (inBlock : de < entriesPerBlock)
    (next :
      (emptyLoop readable sb dir len (nr + 1) (.held zone)
            (de + 1)).Satisfies (fs.hold zone)
          (fun _ => Balanced fs none) (fun _ => False) ↔
        EmptiesFrom readable fs dir len (nr + 1)) :
    (do
      let fs ← read
      if entryInode (fs.data zone) de ≠ 0 then
        brelse zone
        pure false
      else
        emptyLoop readable sb dir len (nr + 1) (.held zone)
          (de + 1) : Routine Fs Bool).Satisfies
        (fs.hold zone) (fun _ => Balanced fs none) (fun _ => False) ↔
      EmptiesFrom readable fs dir len nr := by
  have steps :
      EmptiesFrom readable fs dir len nr ↔
        Has isUsed readable fs dir nr ∨
          EmptiesFrom readable fs dir len (nr + 1) := by
    refine scansFrom_iff fun b' same => ?_
    obtain rfl := block_of_place place inBlock same
    obtain ⟨rfl, present, _⟩ := found_of_there here
    refine ⟨fun _ => ⟨inside, present⟩, ?_⟩
    rintro ⟨_, nowhere⟩
    rw [here] at nowhere
    cases nowhere
  rw [satisfies_bind, satisfies_read, steps, place, has_iff here inBlock,
    ← place, ← next]
  change Satisfies (if entryInode (fs.data zone) de ≠ 0 then _ else _)
    _ _ _ ↔ (entryInode (fs.data zone) de != 0) = true ∨ _
  rw [bne_iff_ne]
  by_cases used : entryInode (fs.data zone) de ≠ 0
  · rw [if_pos used, satisfies_bind_of_ret brelse_hold]
    exact iff_of_true balanced_none (Or.inl used)
  · rw [if_neg used]
    exact (or_iff_right used).symm

/-- The loop of `empty_dir`, from an entry of a block that is held. -/
theorem satisfies_emptyLoop_iff
    {len nr b de zone : Nat}
    (inside : b < 7 + 512 + 512 * 512)
    (here : there readable fs dir b = some zone)
    (place : nr = entriesPerBlock * b + de)
    (inBlock : de ≤ entriesPerBlock) :
    (emptyLoop readable sb dir len nr (.held zone) de).Satisfies
        (fs.hold zone) (fun _ => Balanced fs none) (fun _ => False) ↔
      EmptiesFrom readable fs dir len nr := by
  induction left : len - nr using Nat.strong_induction_on
    generalizing nr b de zone with
  | _ left inductionHypothesis =>
    rw [emptyLoop]
    by_cases more : nr < len
    · rw [dif_pos more]
      rcases Nat.lt_or_eq_of_le inBlock with before | rfl
      · rw [satisfies_bind_of_ret (nextPlace_inside before)]
        exact satisfies_emptyLook_iff inside here place before
          (inductionHypothesis _ (by omega) inside here
            (by rw [place, Nat.add_assoc]) before rfl)
      · obtain rfl : nr = entriesPerBlock * (b + 1) := place
        by_cases big : 7 + 512 + 512 * 512 ≤ b + 1
        · refine iff_of_false ?_ ?_
          · unfold Satisfies
            rw [bind_of_panic (nextPlace_big big)]
            exact id
          · exact fun empties =>
              absurd (ScansFrom.next empties more).1 (Nat.not_lt.mpr big)
        · have inside' := Nat.not_le.mp big
          cases here' : there readable fs dir (b + 1) with
          | some zone' =>
            rw [satisfies_bind_of_ret (nextPlace_there inside' here')]
            exact satisfies_emptyLook_iff inside' here' rfl
              (by decide)
              (inductionHypothesis _ (by omega) inside' here' rfl
                (by decide) rfl)
          | none =>
            by_cases absent :
                found (readable (entriesPerBlock * (b + 1))) fs dir
                  (b + 1) = 0
            · have skipped :
                  nextPlace readable sb dir false .skip .stop
                      (entriesPerBlock * (b + 1)) zone entriesPerBlock
                      (fs.hold zone) =
                    .ret .skip fs :=
                nextPlace_missing inside'
                  (fun never => absurd never Bool.false_ne_true) absent
              rw [satisfies_bind_of_ret skipped]
              exact iff_of_false not_satisfies_emptyLoop_released
                fun empties =>
                  (ScansFrom.next empties more).2 absent
            · have stopped :
                  nextPlace readable sb dir false .skip .stop
                      (entriesPerBlock * (b + 1)) zone entriesPerBlock
                      (fs.hold zone) =
                    .ret .stop fs :=
                nextPlace_unreadable inside' absent here'
                  fun never => absurd never Bool.false_ne_true
              rw [satisfies_bind_of_ret stopped]
              exact iff_of_true balanced_none
                (scansFrom_of_stops ⟨absent, here'⟩
                  fun _ => ⟨inside', absent⟩)
    · rw [dif_neg more]
      change Satisfies (brelse zone >>= fun _ => pure true) _ _ _ ↔ _
      rw [satisfies_bind_of_ret brelse_hold]
      exact iff_of_true balanced_none fun b' lower =>
        Or.inr (Or.inr fun upper =>
          absurd (Nat.lt_of_le_of_lt lower upper) more)

/-! ## `add_entry` -/

/-- `!de->inode` -/
def isFree (block : Block) (de : Nat) : Bool :=
  entryInode block de == 0

/--
No block is unreadable, unless a free entry, the end of the directory or a missing
block comes before it.
-/
def AddsFrom
    (readable : Nat → Nat → Bool)
    (fs : Fs)
    (dir size i : Nat) : Prop :=
  ScansFrom
    (fun j => size ≤ entrySize * j ∨ Has isFree readable fs dir j)
    (fun b => found (readable (entriesPerBlock * b)) fs dir b = 0)
    (fun b =>
      b < 7 + 512 + 512 * 512 ∧
        (found (readable (entriesPerBlock * b)) fs dir b = 0 ∨
          there readable fs dir b ≠ none)) i

theorem not_satisfies_addLoop_null
    {name : List UInt8} {size i de : Nat}
    {returned : Option (Nat × Nat) → Fs → Prop} :
    ¬ (addLoop readable sb dir name size i .null de).Satisfies fs
      returned (fun _ => False) := by
  rw [addLoop.eq_def]
  exact id

/-- The loop of `add_entry` at an entry. -/
def addLook
    (readable : Nat → Nat → Bool)
    (sb : SuperBlock)
    (dir : Nat)
    (name : List UInt8)
    (size i de zone : Nat) : Routine Fs (Option (Nat × Nat)) :=
  if _ : size ≤ entrySize * i then do
    update (setEntryInode zone de 0)
    update (Fs.setSize dir (entrySize * (i + 1)))
    update (setEntryName zone de name)
    pure (some (zone, de))
  else do
    let fs ← read
    if entryInode (fs.data zone) de = 0 then
      update (setEntryName zone de name)
      pure (some (zone, de))
    else
      addLoop readable sb dir name size (i + 1) (.held zone) (de + 1)

/-- An entry that is taken. -/
theorem satisfies_addLook_of_free
    {name : List UInt8} {size i de zone : Nat} {middle : Fs}
    (count : middle.count = fs.count)
    (free : size ≤ entrySize * i ∨ entryInode (middle.data zone) de = 0) :
    (addLook readable sb dir name size i de zone).Satisfies
        (middle.hold zone) (Balanced fs) (fun _ => False) := by
  have held : Balanced fs (some (zone, de)) (middle.hold zone) := by
    intro block
    rw [← count]
    exact balanced_hold block
  unfold addLook
  by_cases beyond : size ≤ entrySize * i
  · rw [dif_pos beyond]
    exact held
  · rw [dif_neg beyond, satisfies_bind, satisfies_read]
    change Satisfies (if entryInode (middle.data zone) de = 0 then _
      else _) _ _ _
    rw [if_pos (free.resolve_left beyond)]
    exact held

/-- The look at an entry. -/
theorem satisfies_addLook_iff
    {name : List UInt8} {size i b de zone : Nat}
    (inside : b < 7 + 512 + 512 * 512)
    (here : there readable fs dir b = some zone)
    (place : i = entriesPerBlock * b + de)
    (inBlock : de < entriesPerBlock)
    (next :
      i < size →
        ((addLoop readable sb dir name size (i + 1) (.held zone)
              (de + 1)).Satisfies (fs.hold zone) (Balanced fs)
            (fun _ => False) ↔
          AddsFrom readable fs dir size (i + 1))) :
    (addLook readable sb dir name size i de zone).Satisfies
        (fs.hold zone) (Balanced fs) (fun _ => False) ↔
      AddsFrom readable fs dir size i := by
  have steps :
      AddsFrom readable fs dir size i ↔
        (size ≤ entrySize * i ∨ Has isFree readable fs dir i) ∨
          AddsFrom readable fs dir size (i + 1) := by
    refine scansFrom_iff fun b' same => ?_
    obtain rfl := block_of_place place inBlock same
    obtain ⟨rfl, present, _⟩ := found_of_there here
    rw [here]
    exact ⟨⟨inside, Or.inr (Option.some_ne_none _)⟩, present⟩
  have free_iff :
      Has isFree readable fs dir i ↔ entryInode (fs.data zone) de = 0 := by
    rw [place, has_iff here inBlock]
    exact beq_iff_eq
  rw [steps, free_iff]
  by_cases free : size ≤ entrySize * i ∨ entryInode (fs.data zone) de = 0
  · exact iff_of_true (satisfies_addLook_of_free rfl free) (Or.inl free)
  · obtain ⟨before, used⟩ := not_or.mp free
    unfold addLook
    rw [or_iff_right free, dif_neg before, satisfies_bind, satisfies_read]
    change Satisfies (if entryInode (fs.data zone) de = 0 then _ else _)
      _ _ _ ↔ _
    rw [if_neg used]
    exact next (by unfold entrySize at before; omega)

/-- Where `create_block` has to allocate a block, or finds none. -/
theorem satisfies_nextPlace_absent
    {b block : Nat} {missing unreadable : Place}
    (consistent : Consistent sb fs)
    (file : fs.IsFile dir)
    (inside : b < 7 + 512 + 512 * 512)
    (absent : found (readable (entriesPerBlock * b)) fs dir b = 0) :
    (nextPlace readable sb dir true missing unreadable
        (entriesPerBlock * b) block entriesPerBlock).Satisfies
      (fs.hold block)
      (fun place after =>
        place = missing ∧ after.count = fs.count ∨
          ∃ (zone : Nat) (middle : Fs),
            place = .entry zone 0 ∧ after = middle.hold zone ∧
            middle.count = fs.count ∧ middle.data zone = .zeros)
      (fun _ => False) := by
  by_cases empty : fs.zoneAt dir (pathOf b) = 0
  · have reads : (Routine.read : Routine Fs Fs) fs = .ret fs fs := rfl
    unfold nextPlace
    rw [if_pos (Nat.le_refl _), satisfies_bind_of_ret brelse_hold,
      satisfies_bind_of_ret reads, Nat.mul_div_cancel_left b (by decide)]
    refine (satisfies_bmapOrCreate_of_absent consistent file inside
      empty).andThen ?_
    rintro zone after ⟨extension, fresh⟩
    by_cases isZero : zone = 0
    · rw [if_pos isZero, satisfies_pure]
      exact Or.inl ⟨rfl, extension.count⟩
    · obtain ⟨free, zeros⟩ := fresh isZero
      rw [if_neg isZero, free, Bool.not_false, Bool.and_true, Bool.or_true,
        Bool.not_true, if_neg Bool.false_ne_true]
      exact Or.inr ⟨zone, after, rfl, rfl, extension.count, zeros⟩
  · unfold Satisfies
    rw [nextPlace_missing inside (fun _ => empty) absent]
    exact Or.inl ⟨rfl, rfl⟩

/-- The loop of `add_entry`, from an entry of a block that is held. -/
theorem satisfies_addLoop_iff
    {name : List UInt8} {size i b de zone : Nat}
    (consistent : Consistent sb fs)
    (file : fs.IsFile dir)
    (inside : b < 7 + 512 + 512 * 512)
    (here : there readable fs dir b = some zone)
    (place : i = entriesPerBlock * b + de)
    (inBlock : de ≤ entriesPerBlock) :
    (addLoop readable sb dir name size i (.held zone) de).Satisfies
        (fs.hold zone) (Balanced fs) (fun _ => False) ↔
      AddsFrom readable fs dir size i := by
  induction left : size - i using Nat.strong_induction_on
    generalizing i b de zone with
  | _ left inductionHypothesis =>
    rw [addLoop]
    rcases Nat.lt_or_eq_of_le inBlock with before | rfl
    · rw [satisfies_bind_of_ret (nextPlace_inside before)]
      exact satisfies_addLook_iff inside here place before
        fun more =>
          inductionHypothesis _ (by omega) inside here
            (by rw [place, Nat.add_assoc]) before rfl
    · obtain rfl : i = entriesPerBlock * (b + 1) := place
      by_cases big : 7 + 512 + 512 * 512 ≤ b + 1
      · refine iff_of_false ?_ ?_
        · unfold Satisfies
          rw [bind_of_panic (nextPlace_big big)]
          exact id
        · exact fun adds =>
            absurd (ScansFrom.next adds).1 (Nat.not_lt.mpr big)
      · have inside' := Nat.not_le.mp big
        cases here' : there readable fs dir (b + 1) with
        | some zone' =>
          rw [satisfies_bind_of_ret (nextPlace_there inside' here')]
          exact satisfies_addLook_iff inside' here' rfl (by decide)
            fun more =>
              inductionHypothesis _ (by omega) inside' here' rfl
                (by decide) rfl
        | none =>
          by_cases absent :
              found (readable (entriesPerBlock * (b + 1))) fs dir
                (b + 1) = 0
          · refine iff_of_true ?_
              (scansFrom_of_stops absent ⟨inside', Or.inl absent⟩)
            refine (satisfies_nextPlace_absent consistent file inside'
              absent).andThen ?_
            rintro _ after (⟨rfl, count⟩ |
              ⟨zone', middle, rfl, rfl, count, zeros⟩)
            · intro block
              rw [count]
              rfl
            · apply satisfies_addLook_of_free count
              rw [zeros]
              exact Or.inr rfl
          · have slot : fs.Slot dir (pathOf (b + 1)) :=
              ⟨file, (isLeaf_pathOf inside').isPath⟩
            have marked :
                fs.zmap
                  (sb.bit
                    (found (readable (entriesPerBlock * (b + 1))) fs dir
                      (b + 1))) = true := by
              rw [← zoneAt_of_found absent]
              exact consistent.marked _ _ slot
                (by rw [zoneAt_of_found absent]; exact absent)
            rw [satisfies_bind_of_ret
              (nextPlace_unreadable inside' absent here'
                fun _ => marked)]
            refine iff_of_false not_satisfies_addLoop_null ?_
            intro adds
            rcases (ScansFrom.next adds).2 with missing | present
            · exact absent missing
            · exact present here'

/-! ## The scans -/

theorem there_zero_of_absent
    (fails :
      (fs.inode dir).zone 0 = 0 ∨ readable 0 ((fs.inode dir).zone 0) = false) :
    there readable fs dir 0 = none := by
  rw [there_zero, if_neg]
  rintro ⟨present, delivered⟩
  rcases fails with absent | undelivered
  · exact present absent
  · rw [delivered] at undelivered
    cases undelivered

/-- The conditions of `find_entry`, for the directory and the name to look up. -/
def ScanFinds
    (readable : Nat → Nat → Bool)
    (fs : Fs)
    (dir : Nat)
    (name : List UInt8)
    (entries : Nat) : Prop :=
  name ≠ [] → there readable fs dir 0 ≠ none → FindsFrom readable fs dir name entries 0

theorem satisfies_findScan_iff
    {name : List UInt8} {entries : Nat} :
    (findScan readable sb dir name entries).Satisfies fs (Balanced fs)
        (fun _ => False) ↔
      ScanFinds readable fs dir name entries := by
  unfold findScan ScanFinds
  by_cases nameless : name = []
  · rw [if_pos nameless]
    exact iff_of_true balanced_none fun named => absurd nameless named
  rw [if_neg nameless, satisfies_bind, satisfies_read]
  simp only
  by_cases absent : (fs.inode dir).zone 0 = 0
  · rw [if_pos absent]
    exact iff_of_true balanced_none fun _ here =>
      absurd (there_zero_of_absent (Or.inl absent)) here
  rw [if_neg absent]
  by_cases delivered : readable 0 ((fs.inode dir).zone 0) = true
  · have here :
        there readable fs dir 0 = some ((fs.inode dir).zone 0) := by
      rw [there_zero, if_pos ⟨absent, delivered⟩]
    rw [delivered, Bool.not_true, if_neg Bool.false_ne_true]
    refine (satisfies_findLoop_iff (by decide) here rfl
      (Nat.zero_le _)).trans ?_
    rw [here]
    exact ⟨fun finds _ _ => finds, fun finds => finds nameless (Option.some_ne_none _)⟩
  · rw [Bool.not_eq_true] at delivered
    rw [delivered]
    exact iff_of_true balanced_none fun _ here =>
      absurd (there_zero_of_absent (Or.inr delivered)) here

/-- The condition of `add_entry`. -/
def Adds
    (readable : Nat → Nat → Bool)
    (fs : Fs)
    (dir : Nat)
    (name : List UInt8) : Prop :=
  name ≠ [] → there readable fs dir 0 ≠ none →
    AddsFrom readable fs dir (fs.inode dir).size 0

theorem take_nameLen_eq_nil
    {name : List UInt8} :
    name.take nameLen = [] ↔ name = [] := by
  rw [List.take_eq_nil_iff]
  exact or_iff_right (by decide)

theorem satisfies_addEntry_iff
    {name : List UInt8}
    (consistent : Consistent sb fs)
    (file : fs.IsFile dir) :
    (addEntry readable sb dir name).Satisfies fs (Balanced fs)
        (fun _ => False) ↔
      Adds readable fs dir name := by
  unfold addEntry Adds
  simp only
  by_cases nameless : name = []
  · rw [if_pos (take_nameLen_eq_nil.mpr nameless)]
    exact iff_of_true balanced_none fun named => absurd nameless named
  rw [if_neg (mt take_nameLen_eq_nil.mp nameless), satisfies_bind, satisfies_read]
  by_cases absent : (fs.inode dir).zone 0 = 0
  · rw [if_pos absent]
    exact iff_of_true balanced_none fun _ here =>
      absurd (there_zero_of_absent (Or.inl absent)) here
  rw [if_neg absent]
  by_cases delivered : readable 0 ((fs.inode dir).zone 0) = true
  · have here :
        there readable fs dir 0 = some ((fs.inode dir).zone 0) := by
      rw [there_zero, if_pos ⟨absent, delivered⟩]
    rw [delivered, Bool.not_true, if_neg Bool.false_ne_true]
    refine (satisfies_addLoop_iff consistent file (by decide) here rfl
      (Nat.zero_le _)).trans ?_
    rw [here]
    exact ⟨fun adds _ _ => adds, fun adds => adds nameless (Option.some_ne_none _)⟩
  · rw [Bool.not_eq_true] at delivered
    rw [delivered]
    exact iff_of_true balanced_none fun _ here =>
      absurd (there_zero_of_absent (Or.inr delivered)) here

/-- The condition of `empty_dir`. -/
def Empties
    (readable : Nat → Nat → Bool)
    (fs : Fs)
    (dir : Nat) : Prop :=
  2 ≤ (fs.inode dir).size / entrySize →
    ∀ zone, there readable fs dir 0 = some zone →
      startsWithDots dir (fs.data zone) = true ∧
        EmptiesFrom readable fs dir ((fs.inode dir).size / entrySize) 2

/-- A buffer that is not given back. -/
theorem not_balanced_hold
    {zone : Nat} :
    ¬ Balanced fs none (fs.hold zone) := by
  intro balanced
  have kept : fs.count zone + 1 = fs.count zone :=
    (setCount_count _).symm.trans (balanced zone)
  omega

theorem satisfies_emptyDir_iff :
    (emptyDir readable sb dir).Satisfies fs
        (fun _ => Balanced fs none) (fun _ => False) ↔
      Empties readable fs dir := by
  unfold emptyDir Empties
  rw [satisfies_bind, satisfies_read]
  simp only
  by_cases bad :
      (fs.inode dir).size / entrySize < 2 ∨ (fs.inode dir).zone 0 = 0
  · rw [if_pos bad]
    refine iff_of_true balanced_none fun long zone here => ?_
    rw [there_zero_of_absent
      (Or.inl (bad.resolve_left (Nat.not_lt.mpr long)))] at here
    cases here
  obtain ⟨long, present⟩ := not_or.mp bad
  rw [if_neg bad]
  by_cases delivered : readable 0 ((fs.inode dir).zone 0) = true
  · have here :
        there readable fs dir 0 = some ((fs.inode dir).zone 0) := by
      rw [there_zero, if_pos ⟨present, delivered⟩]
    rw [delivered, Bool.not_true, if_neg Bool.false_ne_true, here]
    have held :
        bread ((fs.inode dir).zone 0) fs =
          .ret () (fs.hold ((fs.inode dir).zone 0)) := rfl
    rw [satisfies_bind_of_ret held, satisfies_bind, satisfies_read]
    change Satisfies
      (if (!startsWithDots dir (fs.data ((fs.inode dir).zone 0))) = true then
        _ else _) _ _ _ ↔ _
    by_cases dots :
        startsWithDots dir (fs.data ((fs.inode dir).zone 0)) = true
    · rw [dots, Bool.not_true, if_neg Bool.false_ne_true]
      refine (satisfies_emptyLoop_iff (by decide) here rfl
        (show 2 ≤ entriesPerBlock by decide)).trans ?_
      constructor
      · rintro empties _ _ ⟨⟩
        exact ⟨dots, empties⟩
      · exact fun empties => (empties (Nat.not_lt.mp long) _ rfl).2
    · rw [Bool.not_eq_true] at dots
      rw [dots, Bool.not_false, if_pos rfl]
      refine iff_of_false not_balanced_hold fun empties => ?_
      rw [(empties (Nat.not_lt.mp long) _ rfl).1] at dots
      cases dots
  · rw [Bool.not_eq_true] at delivered
    rw [delivered]
    refine iff_of_true balanced_none fun _ zone here => ?_
    rw [there_zero_of_absent (Or.inr delivered)] at here
    cases here

/-! ## All devices -/

/-- Every `b_count` of every device, as after a scan of a directory. -/
def BalancedOn
    (devices : Devices)
    (result : Directory × Option (Nat × Nat))
    (after : Devices) : Prop :=
  ∀ dev block,
    (after dev).count block =
      (devices dev).count block +
        if dev = result.1.dev then reference result.2 block else 0

/-- The condition of `find_entry`. -/
def Finds
    (readable : Nat → Nat → Bool)
    (root : Directory)
    (imount : Nat → Option Directory)
    (devices : Devices)
    (dir : Directory)
    (name : List UInt8) : Prop :=
  let (dir', name') := exchange root imount dir (name.take nameLen)
  ScanFinds readable (devices dir'.dev) dir'.ino name'
    (((devices dir.dev).inode dir.ino).size / entrySize)

theorem balancedOn_update
    {devices : Devices} {dir : Directory} {result : Option (Nat × Nat)}
    {part : Fs} :
    BalancedOn devices (dir, result)
        (Function.update devices dir.dev part) ↔
      Balanced (devices dir.dev) result part := by
  constructor
  · intro balanced block
    have here := balanced dir.dev block
    rwa [Function.update_self, if_pos rfl] at here
  · intro balanced dev block
    by_cases same : dev = dir.dev
    · rw [same, Function.update_self, if_pos rfl]
      exact balanced block
    · rw [Function.update_of_ne same, if_neg same]
      rfl

theorem satisfies_findEntry_iff
    {super : Nat → SuperBlock} {root dir : Directory}
    {imount : Nat → Option Directory} {devices : Devices}
    {name : List UInt8} :
    (findEntry readable super root imount dir name).Satisfies devices
        (BalancedOn devices) (fun _ => False) ↔
      Finds readable root imount devices dir name := by
  unfold findEntry Finds
  rw [satisfies_bind, satisfies_read]
  simp only
  generalize exchange root imount dir (name.take nameLen) = exchanged
  obtain ⟨dir', name'⟩ := exchanged
  simp only
  have scan :
      (findScan readable (super dir'.dev) dir'.ino name'
            (((devices dir.dev).inode dir.ino).size /
              entrySize)).Satisfies (devices dir'.dev)
          (Balanced (devices dir'.dev)) (fun _ => False) ↔ _ :=
    satisfies_findScan_iff
  rw [satisfies_bind, satisfies_zoom, ← scan]
  constructor
  · exact fun scanned =>
      scanned.mono (fun _ _ => balancedOn_update.mp) (fun _ => id)
  · exact fun scanned =>
      scanned.mono (fun _ _ => balancedOn_update.mpr) (fun _ => id)

/--
The scans use only buffers that they hold and keep every `b_count` in balance
exactly for these directories.
-/
theorem scans_balance_iff
    (readable : Nat → Nat → Bool)
    (super : Nat → SuperBlock)
    (root : Directory)
    (imount : Nat → Option Directory)
    (devices : Devices)
    (dir : Directory)
    (name : List UInt8) :
    ((findEntry readable super root imount dir name).Satisfies devices
        (BalancedOn devices) (fun _ => False) ↔
      Finds readable root imount devices dir name) ∧
    (isDir ((devices dir.dev).inode dir.ino).mode = true →
      Consistent (super dir.dev) (devices dir.dev) →
        ((addEntry readable (super dir.dev) dir.ino name).Satisfies
            (devices dir.dev) (Balanced (devices dir.dev))
            (fun _ => False) ↔
          Adds readable (devices dir.dev) dir.ino name)) ∧
    ((emptyDir readable (super dir.dev) dir.ino).Satisfies
        (devices dir.dev) (fun _ => Balanced (devices dir.dev) none)
        (fun _ => False) ↔
      Empties readable (devices dir.dev) dir.ino) := by
  refine ⟨satisfies_findEntry_iff, ?_, satisfies_emptyDir_iff⟩
  intro directory consistent
  refine satisfies_addEntry_iff consistent ?_
  unfold Fs.IsFile
  rw [directory, Bool.or_true]

/-- A directory of 129 entries with one block, the first one. -/
def holed : Fs :=
  ((emptyFs 0o040000).fill smallSuper 2 [0] 3).growSize 2 2064

theorem scans_balance_iff_holed :
    isDir (holed.inode 2).mode = true ∧ Consistent smallSuper holed ∧
      ((addEntry (fun _ _ => true) smallSuper 2 [97]).Satisfies holed
          (Balanced holed) (fun _ => False) ↔
        Adds (fun _ _ => true) holed 2 [97]) := by
  have directory : isDir (holed.inode 2).mode = true := by
    decide
  have consistent : Consistent smallSuper holed :=
    Consistent.growSize (emptyFs_fill_consistent (by decide))
  exact ⟨directory, consistent,
    (scans_balance_iff (fun _ _ => true) (fun _ => smallSuper) ⟨0x301, 1⟩
      (fun _ => none) (fun _ => holed) ⟨0x301, 2⟩ [97]).2.1 directory
      consistent⟩

/-- `find_entry` goes on with `NULL` behind the missing second block. -/
theorem findEntry_uses_null :
    ¬ ∀ (readable : Nat → Nat → Bool) (super : Nat → SuperBlock)
        (root : Directory) (imount : Nat → Option Directory)
        (devices : Devices) (dir : Directory) (name : List UInt8),
      (findEntry readable super root imount dir name).Satisfies devices
        (BalancedOn devices) (fun _ => False) := by
  intro balances
  have finds :=
    satisfies_findEntry_iff.mp
      (balances (fun _ _ => true) (fun _ => smallSuper) ⟨0x301, 1⟩
        (fun _ => none) (fun _ => holed) ⟨0x301, 2⟩ [97])
  have here : there (fun _ _ => true) holed 2 0 = some 3 := by
    decide
  have scans :
      FindsFrom (fun _ _ => true) holed 2 [97] 129 0 :=
    finds (by decide) (by rw [here]; exact Option.some_ne_none 3)
  rcases scans 1 (by decide) with ⟨j, _, upper, zone, same, found⟩ |
    ⟨_, _, _, stopped⟩ | fine
  · have first : j / entriesPerBlock = 0 :=
      Nat.div_eq_of_lt upper
    rw [first, here] at same
    cases same
    have zeros : holed.data 3 = .zeros := rfl
    rw [zeros, matchEntry_of_free rfl] at found
    cases found
  · exact stopped
  · have missing : there (fun _ _ => true) holed 2 1 = none := by
      decide
    rcases (fine (by decide)).2 with present | last
    · exact present missing
    · exact absurd last (by decide)

end Scans

end HitOs
