import HitOs.DeviceErrors
import HitOs.DirectoryCalls

namespace HitOs

/-!
# Directory scans

`find_entry`, `add_entry` and `empty_dir` for directories with missing blocks and
devices with unreadable ones: exactly when they use only buffers that they hold,
and give back all of them.
-/

namespace Scans

open Routine Zones DeviceErrors

/-- What the variable `bh` of a scan is. -/
inductive Pointer where
  | null
  | held (block : Nat)
  | released (block : Nat)

/-- Where a scan goes at the end of a block. -/
inductive Place where
  | skip
  | stop
  | entry (block de : Nat)

/--
`brelse`.  A buffer that has been released is another one's; what happens when it
is used again is not described.
-/
def release : Pointer → Routine Fs Unit
  | .null => pure ()
  | .held block => brelse block
  | .released _ => abandon

section Loops

variable (readable : Nat → Nat → Bool) (sb : SuperBlock) (dir : Nat)

/--
The buffer and the place in it for entry `i`.  At the end of a block the next one
is fetched: what is done when it is missing or cannot be read differs.  A block
that `create_block` has just allocated is up to date in its buffer.
-/
def nextPlace
    (create : Bool)
    (missing unreadable : Place)
    (i block de : Nat) :
    Routine Fs Place := do
  if entriesPerBlock ≤ de then
    brelse block
    let before ← read
    let next ←
      bmapOrCreate (readable i) sb dir (i / entriesPerBlock : Nat) create
    if next = 0 then
      pure missing
    else if !(readable i next || create && !before.zmap (sb.bit next)) then
      pure unreadable
    else
      bread next
      pure (.entry next 0)
  else
    pure (.entry block de)

/-- The loop of `find_entry`; `bh->b_data` is read in each turn. -/
def findLoop
    (name : List UInt8)
    (entries i : Nat)
    (bh : Pointer)
    (de : Nat) :
    Routine Fs (Option (Nat × Nat)) := do
  if _ : i < entries then
    match bh with
    | .held block =>
      match ← nextPlace readable sb dir false .skip .skip i block de with
      | .entry block de =>
        let fs ← read
        if matchEntry name (fs.data block) de then
          pure (some (block, de))
        else
          findLoop name entries (i + 1) (.held block) (de + 1)
      | _ => findLoop name entries (i + entriesPerBlock) .null de
    | _ => abandon
  else
    release bh
    pure none
termination_by entries - i
decreasing_by
  all_goals
    have nonzero : 0 < entriesPerBlock := by decide
    omega

/-- `find_entry` in the directory and for the name that are left after `..` -/
def findScan
    (name : List UInt8)
    (entries : Nat) :
    Routine Fs (Option (Nat × Nat)) := do
  if name = [] then
    pure none
  else
    let fs ← read
    let block := (fs.inode dir).zone 0
    if block = 0 then
      pure none
    else if !readable 0 block then
      pure none
    else
      bread block
      findLoop readable sb dir name entries 0 (.held block) 0

/-- What `bh` leaves of the turns of `add_entry`. -/
def Pointer.room (size i : Nat) : Pointer → Nat
  | .held _ => size - entrySize * i + 1
  | _ => 0

/--
The loop of `add_entry`.  The size of the directory does not change before the
loop ends.
-/
def addLoop
    (name : List UInt8)
    (size i : Nat)
    (bh : Pointer)
    (de : Nat) :
    Routine Fs (Option (Nat × Nat)) := do
  match bh with
  | .held block =>
    match ← nextPlace readable sb dir true .stop .skip i block de with
    | .entry block de =>
      if _ : size ≤ entrySize * i then
        update (setEntryInode block de 0)
        update (Fs.setSize dir (entrySize * (i + 1)))
        update (setEntryName block de name)
        pure (some (block, de))
      else
        let fs ← read
        if entryInode (fs.data block) de = 0 then
          update (setEntryName block de name)
          pure (some (block, de))
        else
          addLoop name size (i + 1) (.held block) (de + 1)
    | .skip => addLoop name size (i + entriesPerBlock) .null de
    | .stop => pure none
  | _ => abandon
termination_by bh.room size i
decreasing_by
  · change size - entrySize * (i + 1) + 1 < size - entrySize * i + 1
    unfold entrySize at *
    omega
  · exact Nat.succ_pos _

/-- `add_entry` -/
def addEntry (name : List UInt8) : Routine Fs (Option (Nat × Nat)) := do
  let name := name.take nameLen
  if name = [] then
    pure none
  else
    let fs ← read
    let block := (fs.inode dir).zone 0
    if block = 0 then
      pure none
    else if !readable 0 block then
      pure none
    else
      bread block
      addLoop readable sb dir name (fs.inode dir).size 0 (.held block) 0

/-- The loop of `empty_dir`; `bh` keeps its value where a block is missing. -/
def emptyLoop
    (len nr : Nat)
    (bh : Pointer)
    (de : Nat) :
    Routine Fs Bool := do
  if _ : nr < len then
    match bh with
    | .held block =>
      match ← nextPlace readable sb dir false .skip .stop nr block de with
      | .entry block de =>
        let fs ← read
        if entryInode (fs.data block) de ≠ 0 then
          brelse block
          pure false
        else
          emptyLoop len (nr + 1) (.held block) (de + 1)
      | .skip => emptyLoop len (nr + entriesPerBlock) (.released block) de
      | .stop => pure false
    | _ => abandon
  else
    release bh
    pure true
termination_by len - nr
decreasing_by
  all_goals
    have nonzero : 0 < entriesPerBlock := by decide
    omega

/-- `!strcmp(string,de->name)` -/
def isNamed (string : List UInt8) (block : Block) (de : Nat) : Bool :=
  (entryName block de).take (string.length + 1) == string ++ [0]

/-- The first two entries are `.` and `..`. -/
def startsWithDots (dir : Nat) (block : Block) : Bool :=
  entryInode block 0 == dir && entryInode block 1 != 0 &&
    isNamed [46] block 0 && isNamed [46, 46] block 1

/-- `empty_dir` -/
def emptyDir : Routine Fs Bool := do
  let fs ← read
  let len := (fs.inode dir).size / entrySize
  let block := (fs.inode dir).zone 0
  if len < 2 ∨ block = 0 then
    pure false
  else if !readable 0 block then
    pure false
  else
    bread block
    let fs ← read
    if !startsWithDots dir (fs.data block) then
      -- The buffer is still held here.
      pure false
    else
      emptyLoop readable sb dir len 2 (.held block) 2

end Loops

/-! ## The name `..` -/

/-- A directory on a device. -/
structure Directory where
  dev : Nat
  ino : Nat
  deriving Repr, DecidableEq

/-- The mounted devices. -/
abbrev Devices := Nat → Fs

/--
`..` in the root directory is `.`, and over a mount point it is looked up in the
directory that the device is mounted on.
-/
def exchange
    (root : Directory)
    (imount : Nat → Option Directory)
    (dir : Directory)
    (name : List UInt8) :
    Directory × List UInt8 :=
  if name = [46, 46] then
    if dir = root then
      (dir, [46])
    else if dir.ino = 1 then
      ((imount dir.dev).getD dir, name)
    else
      (dir, name)
  else
    (dir, name)

/--
`find_entry`, with the directory that it leaves in `*dir`.  The entries are
counted before the directory is exchanged.
-/
def findEntry
    (readable : Nat → Nat → Bool)
    (super : Nat → SuperBlock)
    (root : Directory)
    (imount : Nat → Option Directory)
    (dir : Directory)
    (name : List UInt8) :
    Routine Devices (Directory × Option (Nat × Nat)) := do
  let name := name.take nameLen
  let devices ← read
  let entries := ((devices dir.dev).inode dir.ino).size / entrySize
  let (dir, name) := exchange root imount dir name
  let result ←
    zoom (fun devices : Devices => devices dir.dev)
      (fun fs devices => Function.update devices dir.dev fs)
      (findScan readable (super dir.dev) dir.ino name entries)
  pure (dir, result)

/-! ## The next entry -/

variable {readable : Nat → Nat → Bool} {sb : SuperBlock} {fs : Fs}
variable {dir : Nat}

/-- The zone of a block that a scan can read. -/
def there
    (readable : Nat → Nat → Bool)
    (fs : Fs)
    (dir b : Nat) : Option Nat :=
  let zone := found (readable (entriesPerBlock * b)) fs dir b
  if zone ≠ 0 ∧ readable (entriesPerBlock * b) zone = true then some zone
  else none

/-- An entry in a block that can be read has a property. -/
def Has
    (test : Block → Nat → Bool)
    (readable : Nat → Nat → Bool)
    (fs : Fs)
    (dir j : Nat) : Prop :=
  ∃ zone, there readable fs dir (j / entriesPerBlock) = some zone ∧
    test (fs.data zone) (j % entriesPerBlock) = true

theorem has_iff
    {test : Block → Nat → Bool} {b de zone : Nat}
    (here : there readable fs dir b = some zone)
    (inBlock : de < entriesPerBlock) :
    Has test readable fs dir (entriesPerBlock * b + de) ↔
      test (fs.data zone) de = true := by
  unfold Has
  rw [Nat.mul_add_div (by decide), Nat.div_eq_of_lt inBlock, Nat.add_zero,
    Nat.mul_add_mod, Nat.mod_eq_of_lt inBlock, here]
  constructor
  · rintro ⟨_, same, holds⟩
    cases same
    exact holds
  · intro holds
    exact ⟨zone, rfl, holds⟩

theorem there_zero :
    there readable fs dir 0 =
      if (fs.inode dir).zone 0 ≠ 0 ∧
          readable 0 ((fs.inode dir).zone 0) = true then
        some ((fs.inode dir).zone 0)
      else none :=
  rfl

section NextPlace

variable {create : Bool} {missing unreadable : Place} {block de b : Nat}

theorem nextPlace_inside
    {i : Nat}
    (inBlock : de < entriesPerBlock) :
    nextPlace readable sb dir create missing unreadable i block de fs =
      .ret (.entry block de) fs := by
  unfold nextPlace
  rw [if_neg (Nat.not_le.mpr inBlock)]
  rfl

theorem brelse_hold :
    brelse block (fs.hold block) = .ret () fs := by
  have held : (fs.hold block).count block = fs.count block + 1 :=
    setCount_count _
  rw [brelse_of_succ held]
  unfold Fs.hold
  rw [setCount_back _ rfl]

/-- At the end of a block, where the next one is found without allocation. -/
theorem nextPlace_end
    (inside : b < 7 + 512 + 512 * 512)
    (present : create = true → fs.zoneAt dir (pathOf b) ≠ 0) :
    nextPlace readable sb dir create missing unreadable
        (entriesPerBlock * b) block entriesPerBlock (fs.hold block) =
      if found (readable (entriesPerBlock * b)) fs dir b = 0 then
        .ret missing fs
      else if !(readable (entriesPerBlock * b)
            (found (readable (entriesPerBlock * b)) fs dir b) ||
          create &&
            !fs.zmap (sb.bit (found (readable (entriesPerBlock * b)) fs dir b)))
      then
        .ret unreadable fs
      else
        .ret (.entry (found (readable (entriesPerBlock * b)) fs dir b) 0)
          (fs.hold (found (readable (entriesPerBlock * b)) fs dir b)) := by
  have reads : (Routine.read : Routine Fs Fs) fs = .ret fs fs := rfl
  unfold nextPlace
  rw [if_pos (Nat.le_refl _), bind_of_ret brelse_hold, bind_of_ret reads,
    Nat.mul_div_cancel_left b (by decide),
    bind_of_ret (bmapOrCreate_of_present inside present)]
  by_cases absent : found (readable (entriesPerBlock * b)) fs dir b = 0
  · rw [if_pos absent, if_pos absent]
    rfl
  rw [if_neg absent, if_neg absent]
  by_cases fails :
      (!(readable (entriesPerBlock * b)
          (found (readable (entriesPerBlock * b)) fs dir b) ||
        create &&
          !fs.zmap
            (sb.bit (found (readable (entriesPerBlock * b)) fs dir b)))) = true
  · rw [if_pos fails, if_pos fails]
    rfl
  · rw [if_neg fails, if_neg fails]
    rfl

theorem found_of_there
    {zone : Nat}
    (here : there readable fs dir b = some zone) :
    found (readable (entriesPerBlock * b)) fs dir b = zone ∧ zone ≠ 0 ∧
      readable (entriesPerBlock * b) zone = true := by
  unfold there at here
  simp only at here
  by_cases good :
      found (readable (entriesPerBlock * b)) fs dir b ≠ 0 ∧
        readable (entriesPerBlock * b)
          (found (readable (entriesPerBlock * b)) fs dir b) = true
  · rw [if_pos good] at here
    cases here
    exact ⟨rfl, good⟩
  · rw [if_neg good] at here
    cases here

theorem nextPlace_there
    {zone : Nat}
    (inside : b < 7 + 512 + 512 * 512)
    (here : there readable fs dir b = some zone) :
    nextPlace readable sb dir create missing unreadable
        (entriesPerBlock * b) block entriesPerBlock (fs.hold block) =
      .ret (.entry zone 0) (fs.hold zone) := by
  obtain ⟨rfl, present, delivered⟩ := found_of_there here
  rw [nextPlace_end inside
      (fun _ => by rw [zoneAt_of_found present]; exact present),
    if_neg present, delivered]
  rfl

theorem nextPlace_missing
    (inside : b < 7 + 512 + 512 * 512)
    (present : create = true → fs.zoneAt dir (pathOf b) ≠ 0)
    (absent : found (readable (entriesPerBlock * b)) fs dir b = 0) :
    nextPlace readable sb dir create missing unreadable
        (entriesPerBlock * b) block entriesPerBlock (fs.hold block) =
      .ret missing fs := by
  rw [nextPlace_end inside present, if_pos absent]

theorem nextPlace_unreadable
    (inside : b < 7 + 512 + 512 * 512)
    (present : found (readable (entriesPerBlock * b)) fs dir b ≠ 0)
    (nowhere : there readable fs dir b = none)
    (marked :
      create = true →
        fs.zmap
          (sb.bit (found (readable (entriesPerBlock * b)) fs dir b)) = true) :
    nextPlace readable sb dir create missing unreadable
        (entriesPerBlock * b) block entriesPerBlock (fs.hold block) =
      .ret unreadable fs := by
  have fails :
      readable (entriesPerBlock * b)
        (found (readable (entriesPerBlock * b)) fs dir b) = false := by
    by_contra delivered
    rw [Bool.not_eq_false] at delivered
    unfold there at nowhere
    simp only at nowhere
    rw [if_pos ⟨present, delivered⟩] at nowhere
    cases nowhere
  have fresh :
      (create &&
        !fs.zmap
          (sb.bit (found (readable (entriesPerBlock * b)) fs dir b))) =
        false := by
    cases create with
    | false =>
      rfl
    | true =>
      rw [marked rfl]
      rfl
  rw [nextPlace_end inside
      (fun _ => by rw [zoneAt_of_found present]; exact present),
    if_neg present, fails, fresh]
  rfl

/-- At the end of a block, where the number of the next one is too large. -/
theorem nextPlace_big
    (big : 7 + 512 + 512 * 512 ≤ b) :
    nextPlace readable sb dir create missing unreadable
        (entriesPerBlock * b) block entriesPerBlock (fs.hold block) =
      .panic "_bmap: block>big" := by
  have reads : (Routine.read : Routine Fs Fs) fs = .ret fs fs := rfl
  have panics :
      DeviceErrors.bmapOrCreate (readable (entriesPerBlock * b)) sb dir
          (b : Nat) create fs = .panic "_bmap: block>big" := by
    unfold DeviceErrors.bmapOrCreate
    rw [if_neg (Int.not_lt.mpr (Int.natCast_nonneg b)), Int.toNat_natCast, if_pos big]
    rfl
  unfold nextPlace
  rw [if_pos (Nat.le_refl _), bind_of_ret brelse_hold, bind_of_ret reads,
    Nat.mul_div_cancel_left b (by decide), bind_of_panic panics]

end NextPlace

/-! ## `find_entry` -/

/-- The references of a scan that has returned. -/
def reference : Option (Nat × Nat) → Nat → Nat
  | some (bh, _), block => if block = bh then 1 else 0
  | none, _ => 0

/-- Every `b_count` is as before, with one more for the returned buffer. -/
def Balanced
    (fs : Fs)
    (result : Option (Nat × Nat))
    (after : Fs) : Prop :=
  ∀ block, after.count block = fs.count block + reference result block

theorem balanced_hold
    {block de : Nat} :
    Balanced fs (some (block, de)) (fs.hold block) := by
  intro other
  change _ = fs.count other + if other = block then 1 else 0
  by_cases same : other = block
  · rw [same, if_pos rfl]
    exact setCount_count _
  · rw [if_neg same]
    exact setCount_count_of_ne _ same

theorem balanced_none : Balanced fs none fs :=
  fun _ => rfl

/--
From an entry on: every block is a fine one, unless the scan ends at an entry or
stops at a block before it.
-/
def ScansFrom (ends stops fine : Nat → Prop) (i : Nat) : Prop :=
  ∀ b, i ≤ entriesPerBlock * b →
    (∃ j, i ≤ j ∧ j < entriesPerBlock * b ∧ ends j) ∨
      (∃ b', i ≤ entriesPerBlock * b' ∧ b' < b ∧ stops b') ∨ fine b

section ScansFrom

variable {ends stops fine : Nat → Prop} {i b : Nat}

/-- An entry that the scan can look at. -/
theorem scansFrom_iff
    (here : ∀ b, i = entriesPerBlock * b → fine b ∧ ¬ stops b) :
    ScansFrom ends stops fine i ↔
      ends i ∨ ScansFrom ends stops fine (i + 1) := by
  constructor
  · intro scans
    by_cases ended : ends i
    · exact Or.inl ended
    · refine Or.inr fun b lower => ?_
      refine (scans b (by omega)).imp ?_ (Or.imp_left ?_)
      · rintro ⟨j, least, most, ended'⟩
        refine ⟨j, ?_, most, ended'⟩
        by_contra first
        obtain rfl : j = i := by
          omega
        exact ended ended'
      · rintro ⟨b', least, most, stopped⟩
        refine ⟨b', ?_, most, stopped⟩
        by_contra first
        exact (here b' (by omega)).2 stopped
  · intro either b lower
    by_cases same : i = entriesPerBlock * b
    · exact Or.inr (Or.inr (here b same).1)
    · rcases either with ended | scans
      · exact Or.inl ⟨i, Nat.le_refl i, by omega, ended⟩
      · refine (scans b (by omega)).imp ?_ (Or.imp_left ?_)
        · rintro ⟨j, least, most, ended⟩
          exact ⟨j, by omega, most, ended⟩
        · rintro ⟨b', least, most, stopped⟩
          exact ⟨b', by omega, most, stopped⟩

/-- The block that is fetched next has to be a fine one. -/
theorem ScansFrom.next
    (scans : ScansFrom ends stops fine (entriesPerBlock * b)) :
    fine b := by
  rcases scans b (Nat.le_refl _) with ⟨j, least, most, _⟩ |
    ⟨b', least, most, _⟩ | isFine
  · omega
  · unfold entriesPerBlock at least
    omega
  · exact isFine

/-- A scan stops at the block that is fetched next. -/
theorem scansFrom_of_stops
    (stopped : stops b)
    (isFine : fine b) :
    ScansFrom ends stops fine (entriesPerBlock * b) := by
  intro b' lower
  rcases Nat.lt_trichotomy b b' with later | rfl | earlier
  · exact Or.inr (Or.inl ⟨b, Nat.le_refl _, later, stopped⟩)
  · exact Or.inr (Or.inr isFine)
  · unfold entriesPerBlock at lower
    omega

end ScansFrom

/-- The blocks before the last one are there, unless the name is found before. -/
def FindsFrom
    (readable : Nat → Nat → Bool)
    (fs : Fs)
    (dir : Nat)
    (name : List UInt8)
    (entries i : Nat) : Prop :=
  ScansFrom (Has (matchEntry name) readable fs dir) (fun _ => False)
    (fun b =>
      entriesPerBlock * b < entries →
        b < 7 + 512 + 512 * 512 ∧
          (there readable fs dir b ≠ none ∨ entries ≤ entriesPerBlock * (b + 1))) i

/-- Once `bh` is `NULL`, the loop has to be over. -/
theorem satisfies_findLoop_null
    {name : List UInt8} {entries i de : Nat} :
    (findLoop readable sb dir name entries i .null de).Satisfies fs
        (Balanced fs) (fun _ => False) ↔
      entries ≤ i := by
  rw [findLoop.eq_def]
  by_cases more : i < entries
  · rw [dif_pos more]
    exact iff_of_false id (Nat.not_le.mpr more)
  · rw [dif_neg more]
    exact iff_of_true balanced_none (Nat.not_lt.mp more)

theorem block_of_place
    {i b b' de : Nat}
    (place : i = entriesPerBlock * b + de)
    (inBlock : de < entriesPerBlock)
    (same : i = entriesPerBlock * b') :
    b = b' := by
  unfold entriesPerBlock at *
  omega

/-- The look at an entry. -/
theorem satisfies_findLook_iff
    {name : List UInt8} {entries i b de zone : Nat}
    (inside : b < 7 + 512 + 512 * 512)
    (here : there readable fs dir b = some zone)
    (place : i = entriesPerBlock * b + de)
    (inBlock : de < entriesPerBlock)
    (next :
      (findLoop readable sb dir name entries (i + 1) (.held zone)
            (de + 1)).Satisfies (fs.hold zone) (Balanced fs)
          (fun _ => False) ↔
        FindsFrom readable fs dir name entries (i + 1)) :
    (do
      let fs ← read
      if matchEntry name (fs.data zone) de then
        pure (some (zone, de))
      else
        findLoop readable sb dir name entries (i + 1) (.held zone)
          (de + 1) : Routine Fs (Option (Nat × Nat))).Satisfies
        (fs.hold zone) (Balanced fs) (fun _ => False) ↔
      FindsFrom readable fs dir name entries i := by
  have steps :
      FindsFrom readable fs dir name entries i ↔
        Has (matchEntry name) readable fs dir i ∨
          FindsFrom readable fs dir name entries (i + 1) := by
    refine scansFrom_iff fun b' same => ⟨fun _ => ?_, id⟩
    obtain rfl := block_of_place place inBlock same
    rw [here]
    exact ⟨inside, Or.inl (Option.some_ne_none zone)⟩
  rw [satisfies_bind, satisfies_read, steps, place, has_iff here inBlock,
    ← place, ← next]
  change Satisfies (if matchEntry name (fs.data zone) de = true then _
    else _) _ _ _ ↔ _
  by_cases found : matchEntry name (fs.data zone) de = true
  · rw [if_pos found]
    exact iff_of_true balanced_hold (Or.inl found)
  · rw [if_neg found]
    exact (or_iff_right found).symm

/-- A block that cannot be read has to be the last one. -/
theorem findsFrom_skip
    {name : List UInt8} {entries b : Nat}
    (inside : b < 7 + 512 + 512 * 512)
    (more : entriesPerBlock * b < entries)
    (nowhere : there readable fs dir b = none) :
    FindsFrom readable fs dir name entries (entriesPerBlock * b) ↔
      entries ≤ entriesPerBlock * b + entriesPerBlock := by
  constructor
  · intro finds
    rcases (ScansFrom.next finds more).2 with present | last
    · exact absurd nowhere present
    · rwa [Nat.mul_add] at last
  · intro last b' lower
    refine Or.inr (Or.inr fun upper => ?_)
    obtain rfl : b' = b := by
      unfold entriesPerBlock at *
      omega
    exact ⟨inside, Or.inr last⟩

/-- The loop of `find_entry`, from an entry of a block that is held. -/
theorem satisfies_findLoop_iff
    {name : List UInt8} {entries i b de zone : Nat}
    (inside : b < 7 + 512 + 512 * 512)
    (here : there readable fs dir b = some zone)
    (place : i = entriesPerBlock * b + de)
    (inBlock : de ≤ entriesPerBlock) :
    (findLoop readable sb dir name entries i (.held zone) de).Satisfies
        (fs.hold zone) (Balanced fs) (fun _ => False) ↔
      FindsFrom readable fs dir name entries i := by
  induction left : entries - i using Nat.strong_induction_on
    generalizing i b de zone with
  | _ left inductionHypothesis =>
    rw [findLoop]
    by_cases more : i < entries
    · rw [dif_pos more]
      rcases Nat.lt_or_eq_of_le inBlock with before | rfl
      · rw [satisfies_bind_of_ret (nextPlace_inside before)]
        exact satisfies_findLook_iff inside here place before
          (inductionHypothesis _ (by omega) inside here
            (by rw [place, Nat.add_assoc]) before rfl)
      · obtain rfl : i = entriesPerBlock * (b + 1) := place
        by_cases big : 7 + 512 + 512 * 512 ≤ b + 1
        · refine iff_of_false ?_ ?_
          · unfold Satisfies
            rw [bind_of_panic (nextPlace_big big)]
            exact id
          · exact fun finds =>
              absurd (ScansFrom.next finds more).1 (Nat.not_lt.mpr big)
        · have inside' := Nat.not_le.mp big
          cases here' : there readable fs dir (b + 1) with
          | some zone' =>
            rw [satisfies_bind_of_ret (nextPlace_there inside' here')]
            exact satisfies_findLook_iff inside' here' rfl
              (by decide)
              (inductionHypothesis _ (by omega) inside' here' rfl
                (by decide) rfl)
          | none =>
            have skipped :
                nextPlace readable sb dir false .skip .skip
                    (entriesPerBlock * (b + 1)) zone entriesPerBlock
                    (fs.hold zone) =
                  .ret .skip fs := by
              by_cases absent :
                  found (readable (entriesPerBlock * (b + 1))) fs dir
                    (b + 1) = 0
              · exact nextPlace_missing inside' nofun absent
              · exact nextPlace_unreadable inside' absent here' nofun
            rw [satisfies_bind_of_ret skipped, findsFrom_skip inside' more here']
            exact satisfies_findLoop_null
    · rw [dif_neg more]
      change Satisfies (brelse zone >>= fun _ => pure none) _ _ _ ↔ _
      rw [satisfies_bind_of_ret brelse_hold]
      exact iff_of_true balanced_none fun b' lower =>
        Or.inr (Or.inr fun upper =>
          absurd (Nat.lt_of_le_of_lt lower upper) more)

end Scans

end HitOs
