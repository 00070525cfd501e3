import HitOs.Directories
import HitOs.FileCalls

namespace HitOs

/-!
# Finding and adding entries

What the loops of `find_entry` and `add_entry` do to a directory, seen as one long
row of entries.
-/

namespace Zones

open Routine

/-- The entries of a directory, one behind the other. -/
def Fs.entries (fs : Fs) (dir : Nat) : Block :=
  (fs.files dir).byte

/-- How many entries `find_entry` looks at. -/
def Fs.entryCount (fs : Fs) (dir : Nat) : Nat :=
  (fs.inode dir).size / entrySize

/-- The buffer with an entry, and the place in it. -/
def Fs.place (fs : Fs) (dir entry : Nat) : Nat × Nat :=
  (fs.zoneAt dir (pathOf (entry / entriesPerBlock)), entry % entriesPerBlock)

/-- The file system after `bread`. -/
def Fs.hold (block : Nat) (fs : Fs) : Fs :=
  fs.setCount block (fs.count block + 1)

variable {sb : SuperBlock} {fs middle after : Fs}
variable {dir entry block de : Nat} {name : List UInt8}

theorem brelse_hold :
    brelse block (fs.hold block) = .ret () fs := by
  have held : (fs.hold block).count block = fs.count block + 1 :=
    setCount_count _
  rw [brelse_of_succ held]
  exact congrArg _ (setCount_back _ rfl)

theorem entry_lt_of_lt
    (inside : entrySize * entry < maxSize) :
    entry / entriesPerBlock < 7 + 512 + 512 * 512 := by
  unfold entrySize maxSize blockSize entriesPerBlock at *
  omega

/-- An entry of the directory is an entry of one of its blocks. -/
theorem entries_apply
    {index : Nat}
    (file : fs.IsFile dir)
    (inside : entrySize * entry < maxSize)
    (inEntry : index < entrySize) :
    fs.entries dir (entrySize * entry + index) =
      fs.blockAt dir (pathOf (entry / entriesPerBlock))
        (entrySize * (entry % entriesPerBlock) + index) := by
  have low : entrySize * entry + index < maxSize := by
    unfold entrySize maxSize blockSize at *
    omega
  have number :
      (entrySize * entry + index) / blockSize =
        entry / entriesPerBlock := by
    unfold entrySize blockSize entriesPerBlock at *
    omega
  have offset :
      (entrySize * entry + index) % blockSize =
        entrySize * (entry % entriesPerBlock) + index := by
    unfold entrySize blockSize entriesPerBlock at *
    omega
  unfold Fs.entries
  rw [files_of_isFile file]
  unfold Fs.contents
  simp only
  rw [if_pos low, number, offset]

theorem matchEntry_entries
    (file : fs.IsFile dir)
    (inside : entrySize * entry < maxSize) :
    matchEntry name (fs.entries dir) entry =
      matchEntry name
        (fs.blockAt dir (pathOf (entry / entriesPerBlock)))
        (entry % entriesPerBlock) :=
  matchEntry_congr fun _ => entries_apply file inside

theorem entryInode_entries
    (file : fs.IsFile dir)
    (inside : entrySize * entry < maxSize) :
    entryInode (fs.entries dir) entry =
      entryInode (fs.blockAt dir (pathOf (entry / entriesPerBlock)))
        (entry % entriesPerBlock) :=
  entryInode_congr fun _ => entries_apply file inside

theorem blockAt_of_present
    {path : List Nat}
    (present : fs.zoneAt dir path ≠ 0) :
    fs.blockAt dir path = fs.data (fs.zoneAt dir path) :=
  if_neg present

/-- Entries in a hole are free. -/
theorem matchEntry_hole
    (file : fs.IsFile dir)
    (inside : entrySize * entry < maxSize)
    (hole : fs.zoneAt dir (pathOf (entry / entriesPerBlock)) = 0) :
    matchEntry name (fs.entries dir) entry = false := by
  apply matchEntry_of_free
  rw [entryInode_entries file inside, Fs.blockAt, if_pos hole]
  rfl

/-! ## `find_entry` -/

/-- Where the loop of `find_entry` is, and the reference it has. -/
inductive Cursor (fs : Fs) (dir : Nat) :
    Nat → Option Nat → Nat → Fs → Prop where
  | between
      {entry de : Nat}
      (starts : entry % entriesPerBlock = 0) :
      Cursor fs dir entry none de fs
  | inside
      {number de : Nat}
      (few : de ≤ entriesPerBlock)
      (present : fs.zoneAt dir (pathOf number) ≠ 0) :
      Cursor fs dir (entriesPerBlock * number + de)
        (some (fs.zoneAt dir (pathOf number))) de
        (fs.hold (fs.zoneAt dir (pathOf number)))

/-- What a search from an entry on returns. -/
inductive Found
    (fs : Fs)
    (dir : Nat)
    (name : List UInt8)
    (first : Nat) :
    Option (Nat × Nat) → Fs → Prop where
  | missing
      (others :
        ∀ entry, first ≤ entry → entry < fs.entryCount dir →
          matchEntry name (fs.entries dir) entry = false) :
      Found fs dir name first none fs
  | found
      {entry : Nat}
      (lower : first ≤ entry)
      (upper : entry < fs.entryCount dir)
      (present : (fs.place dir entry).1 ≠ 0)
      (matched : matchEntry name (fs.entries dir) entry = true)
      (others :
        ∀ other, first ≤ other → other < entry →
          matchEntry name (fs.entries dir) other = false) :
      Found fs dir name first (some (fs.place dir entry))
        (fs.hold (fs.place dir entry).1)

/-- Entries that do not match can be skipped. -/
theorem Found.skip
    {first next : Nat} {result : Option (Nat × Nat)}
    (found : Found fs dir name next result after)
    (ordered : first ≤ next)
    (skipped :
      ∀ entry, first ≤ entry → entry < next →
        entry < fs.entryCount dir → matchEntry name (fs.entries dir) entry = false) :
    Found fs dir name first result after := by
  cases found with
  | missing others =>
    refine .missing ?_
    intro entry lower upper
    by_cases before : entry < next
    · exact skipped entry lower before upper
    · exact others entry (Nat.not_lt.mp before) upper
  | found lower upper present matched others =>
    refine .found (Nat.le_trans ordered lower) upper present matched ?_
    intro other otherLower otherUpper
    by_cases before : other < next
    · exact skipped other otherLower before
        (Nat.lt_trans otherUpper upper)
    · exact others other (Nat.not_lt.mp before) otherUpper

theorem div_add_of_lt
    {number : Nat}
    (few : de < entriesPerBlock) :
    (entriesPerBlock * number + de) / entriesPerBlock = number := by
  unfold entriesPerBlock at *
  omega

theorem mod_add_of_lt
    {number : Nat}
    (few : de < entriesPerBlock) :
    (entriesPerBlock * number + de) % entriesPerBlock = de := by
  unfold entriesPerBlock at *
  omega

theorem place_add
    {number : Nat}
    (few : de < entriesPerBlock) :
    fs.place dir (entriesPerBlock * number + de) =
      (fs.zoneAt dir (pathOf number), de) := by
  unfold Fs.place
  rw [div_add_of_lt few, mod_add_of_lt few]

theorem lt_maxSize_of_lt
    (fits : (fs.inode dir).size ≤ maxSize)
    (upper : entry < fs.entryCount dir) :
    entrySize * entry < maxSize := by
  unfold Fs.entryCount entrySize at *
  omega

/-- The loop looks at the entry that the cursor is at. -/
theorem satisfies_findLoop_look
    {number : Nat} {next : Routine Fs (Option (Nat × Nat))}
    (file : fs.IsFile dir)
    (fits : (fs.inode dir).size ≤ maxSize)
    (few : de < entriesPerBlock)
    (upper : entriesPerBlock * number + de < fs.entryCount dir)
    (present : fs.zoneAt dir (pathOf number) ≠ 0)
    (goesOn :
      matchEntry name (fs.entries dir) (entriesPerBlock * number + de) =
          false →
        next.Satisfies (fs.hold (fs.zoneAt dir (pathOf number)))
          (Found fs dir name (entriesPerBlock * number + de + 1))
          (fun _ => False)) :
    (if matchEntry name (fs.data (fs.zoneAt dir (pathOf number))) de then
        pure (some (fs.zoneAt dir (pathOf number), de))
      else next : Routine Fs (Option (Nat × Nat))).Satisfies
      (fs.hold (fs.zoneAt dir (pathOf number)))
      (Found fs dir name (entriesPerBlock * number + de))
      (fun _ => False) := by
  have inside := lt_maxSize_of_lt fits upper
  have looks :
      matchEntry name (fs.entries dir) (entriesPerBlock * number + de) =
        matchEntry name (fs.data (fs.zoneAt dir (pathOf number))) de := by
    rw [matchEntry_entries file inside, div_add_of_lt few,
      mod_add_of_lt few, blockAt_of_present present]
  rw [← looks]
  by_cases matched :
      matchEntry name (fs.entries dir) (entriesPerBlock * number + de) = true
  · rw [if_pos matched, satisfies_pure]
    have found :
        Found fs dir name (entriesPerBlock * number + de)
          (some (fs.place dir (entriesPerBlock * number + de)))
          (fs.hold (fs.place dir (entriesPerBlock * number + de)).1) :=
      .found (Nat.le_refl _) upper
        (by rw [place_add few]; exact present) matched
        (fun _ lower before =>
          absurd before (Nat.not_lt.mpr lower))
    rwa [place_add few] at found
  · rw [if_neg matched]
    rw [Bool.not_eq_true] at matched
    refine (goesOn matched).mono ?_ (fun _ => id)
    intro result after found
    refine found.skip (Nat.le_succ _) ?_
    intro entry lower before _
    rwa [Nat.le_antisymm (Nat.lt_succ_iff.mp before) lower]

/-- The loop of `find_entry` finds the first entry that matches. -/
theorem satisfies_findLoop
    {bh : Option Nat} {state : Fs}
    (consistent : Consistent sb fs)
    (file : fs.IsFile dir)
    (fits : (fs.inode dir).size ≤ maxSize)
    (cursor : Cursor fs dir entry bh de state) :
    (findLoop sb dir name (fs.entryCount dir) entry bh de).Satisfies state
      (Found fs dir name entry) (fun _ => False) := by
  induction rest : fs.entryCount dir - entry using Nat.strong_induction_on
    generalizing entry bh de state with
  | _ rest inductionHypothesis =>
    rw [findLoop]
    by_cases more : entry < fs.entryCount dir
    · rw [dif_pos more]
      have inside := lt_maxSize_of_lt fits more
      by_cases between : bh = none ∨ entriesPerBlock ≤ de
      · rw [if_pos between]
        have starts : entry % entriesPerBlock = 0 := by
          cases cursor with
          | between starts =>
            exact starts
          | inside few _ =>
            rcases between with impossible | full
            · cases impossible
            · unfold entriesPerBlock at *
              omega
        have released : release bh state = .ret () fs := by
          cases cursor with
          | between _ =>
            rfl
          | inside _ _ =>
            exact brelse_hold
        rw [satisfies_bind_of_ret released]
        refine (satisfies_bmap consistent file
          (entry_lt_of_lt inside)).andThen ?_
        rintro _ after ⟨rfl, rfl⟩
        by_cases hole :
            after.zoneAt dir (pathOf (entry / entriesPerBlock)) = 0
        · rw [if_pos hole]
          refine (inductionHypothesis _ ?_
            (.between ?_) rfl).mono ?_ (fun _ => id)
          · unfold entriesPerBlock
            omega
          · rw [Nat.add_mod_right]
            exact starts
          · intro result last found
            refine found.skip (Nat.le_add_right _ _) ?_
            intro other lower before upper
            have sameBlock :
                other / entriesPerBlock = entry / entriesPerBlock := by
              unfold entriesPerBlock at *
              omega
            exact matchEntry_hole file (lt_maxSize_of_lt fits upper)
              (sameBlock ▸ hole)
        · rw [if_neg hole]
          have number :
              entriesPerBlock * (entry / entriesPerBlock) + 0 =
                entry := by
            have split := Nat.div_add_mod entry entriesPerBlock
            omega
          have goesOn
              (_ :
                matchEntry name (after.entries dir)
                  (entriesPerBlock * (entry / entriesPerBlock) + 0) = false) :=
            inductionHypothesis _ (by omega)
              (.inside (show 1 ≤ entriesPerBlock by decide) hole) rfl
          have look :=
            satisfies_findLoop_look file fits
              (show 0 < entriesPerBlock by decide)
              (number.symm ▸ more) hole goesOn
          have nextNumber :
              entriesPerBlock * (entry / entriesPerBlock) + 1 =
                entry + 1 := by
            omega
          rw [number, nextNumber] at look
          exact look
      · rw [if_neg between]
        cases cursor with
        | between _ =>
          exact absurd (Or.inl rfl) between
        | inside few present =>
          have room : _ < entriesPerBlock :=
            Nat.not_le.mp fun full => between (Or.inr full)
          exact satisfies_findLoop_look file fits room more present
            (fun _ =>
              inductionHypothesis _ (by omega)
                (.inside room present) rfl)
    · rw [dif_neg more]
      have released : release bh state = .ret () fs := by
        cases cursor with
        | between _ =>
          rfl
        | inside _ _ =>
          exact brelse_hold
      rw [satisfies_bind_of_ret released, satisfies_pure]
      exact .missing fun other lower upper =>
        absurd (Nat.lt_of_le_of_lt lower upper) more

/-- A directory whose entries all have a place in a block. -/
structure IsDirectory (sb : SuperBlock) (fs : Fs) (dir : Nat) : Prop where
  consistent :
    Consistent sb fs
  idle :
    ∀ zone, sb.IsZone zone → fs.count zone = 0
  isDir :
    isDir (fs.inode dir).mode = true
  whole :
    entrySize ∣ (fs.inode dir).size
  fits :
    (fs.inode dir).size ≤ maxSize
  first :
    fs.zoneAt dir (pathOf 0) = 0 → (fs.inode dir).size = 0

theorem IsDirectory.file
    (directory : IsDirectory sb fs dir) :
    fs.IsFile dir := by
  unfold Fs.IsFile
  rw [directory.isDir, Bool.or_true]

/-- `find_entry` finds the first entry with the name. -/
theorem satisfies_findEntry
    (directory : IsDirectory sb fs dir)
    (notEmpty : name.take nameLen ≠ []) :
    (findEntry sb dir name).Satisfies fs
      (Found fs dir (name.take nameLen) 0) (fun _ => False) := by
  unfold findEntry
  simp only
  rw [satisfies_bind, satisfies_read, if_neg notEmpty]
  have start : (fs.inode dir).zone 0 = fs.zoneAt dir (pathOf 0) :=
    rfl
  rw [start]
  by_cases absent : fs.zoneAt dir (pathOf 0) = 0
  · rw [if_pos absent, satisfies_pure]
    refine .missing ?_
    intro entry _ upper
    unfold Fs.entryCount at upper
    rw [directory.first absent, Nat.zero_div] at upper
    exact absurd upper (Nat.not_lt_zero entry)
  · rw [if_neg absent, bread, satisfies_bind, satisfies_update]
    exact satisfies_findLoop directory.consistent directory.file
      directory.fits (.inside (Nat.zero_le _) absent)

/-! ## `add_entry` -/

/-- What a turn of the loop of `add_entry` finds at an entry. -/
inductive NextPlace
    (sb : SuperBlock)
    (fs : Fs)
    (dir entry : Nat) :
    Option (Nat × Nat) → Fs → Prop where
  | full
      {after : Fs}
      (consistent : Consistent sb after)
      (extension : Extends fs after)
      (full : after.Full sb) :
      NextPlace sb fs dir entry none after
  | here
      {middle : Fs}
      (consistent : Consistent sb middle)
      (extension : Extends fs middle)
      (inside : entrySize * entry < maxSize)
      (present : (middle.place dir entry).1 ≠ 0) :
      NextPlace sb fs dir entry (some (middle.place dir entry))
        (middle.hold (middle.place dir entry).1)

theorem ensures_nextPlace
    {number : Nat}
    (consistent : Consistent sb fs)
    (file : fs.IsFile dir)
    (few : de ≤ entriesPerBlock)
    (inside : number < 7 + 512 + 512 * 512)
    (present : fs.zoneAt dir (pathOf number) ≠ 0) :
    (nextPlace sb dir (entriesPerBlock * number + de)
        (fs.zoneAt dir (pathOf number)) de).Ensures
      (fs.hold (fs.zoneAt dir (pathOf number)))
      (NextPlace sb fs dir (entriesPerBlock * number + de)) := by
  unfold nextPlace
  by_cases full : entriesPerBlock ≤ de
  · rw [if_pos full]
    have next :
        (entriesPerBlock * number + de) / entriesPerBlock =
          number + 1 := by
      unfold entriesPerBlock at *
      omega
    have starts :
        (entriesPerBlock * number + de) % entriesPerBlock = 0 := by
      unfold entriesPerBlock at *
      omega
    have released :
        (brelse (fs.zoneAt dir (pathOf number))).Ensures
          (fs.hold (fs.zoneAt dir (pathOf number)))
          (fun _ after => after = fs) := by
      intro _ after outcome
      rw [brelse_hold] at outcome
      cases outcome
      rfl
    refine released.andThen ?_
    rintro _ after rfl
    rw [next]
    by_cases big : 7 + 512 + 512 * 512 ≤ number + 1
    · rw [createBlock_of_big big]
      have panics :
          (Routine.panic "_bmap: block>big" : Routine Fs Nat).Ensures after
            (fun _ _ => False) :=
        ensures_panic _
      exact panics.andThen fun _ _ impossible => impossible.elim
    · have creates :
          (createBlock sb dir (number + 1)).Satisfies after
            (Mapped sb after dir (pathOf (number + 1)) true)
            (fun _ => False) :=
        satisfies_bmapOrCreate consistent file (Nat.not_le.mp big)
      refine creates.ensures.andThen ?_
      intro zone middle mapped
      by_cases absent : zone = 0
      · rw [if_pos absent]
        exact ensures_pure (.full mapped.consistent mapped.extension
          (mapped.full rfl absent))
      · rw [if_neg absent]
        have place :
            middle.place dir (entriesPerBlock * number + de) =
              (zone, 0) := by
          unfold Fs.place
          rw [next, starts, mapped.zone_eq]
        have here :
            NextPlace sb after dir (entriesPerBlock * number + de)
              (some (middle.place dir (entriesPerBlock * number + de)))
              (middle.hold
                (middle.place dir (entriesPerBlock * number + de)).1) := by
          refine .here mapped.consistent mapped.extension ?_ ?_
          · unfold entrySize entriesPerBlock maxSize blockSize at *
            omega
          · rw [place]
            exact absent
        rw [place] at here
        exact ensures_update_bind.mpr (ensures_pure here)
  · rw [if_neg full]
    have room := Nat.not_le.mp full
    have here :
        NextPlace sb fs dir (entriesPerBlock * number + de)
          (some (fs.place dir (entriesPerBlock * number + de)))
          (fs.hold
            (fs.place dir (entriesPerBlock * number + de)).1) := by
      refine .here consistent .refl ?_ ?_
      · unfold entrySize entriesPerBlock maxSize blockSize at *
        omega
      · rw [place_add room]
        exact present
    rw [place_add room] at here
    exact ensures_pure here

/-- The file system with a new entry in it. -/
def Fs.withEntry
    (fs : Fs)
    (dir entry inode : Nat)
    (name : List UInt8) : Fs :=
  (fs.growSize dir (entrySize * (entry + 1))).setData
    (fs.place dir entry).1
    (storeBytes (entrySize * (fs.place dir entry).2)
      (entryBytes inode name) (fs.data (fs.place dir entry).1))

/--
What `add_entry` returns: a free entry, or the one behind the last.  Its name is
there when the caller stores the number of an inode.
-/
inductive Added
    (sb : SuperBlock)
    (fs : Fs)
    (dir : Nat)
    (name : List UInt8) :
    Option (Nat × Nat) → Fs → Prop where
  | full
      {after : Fs}
      (consistent : Consistent sb after)
      (extension : Extends fs after)
      (full : after.Full sb ∨ after.zoneAt dir (pathOf 0) = 0) :
      Added sb fs dir name none after
  | added
      {middle after : Fs} {entry : Nat}
      (consistent : Consistent sb middle)
      (extension : Extends fs middle)
      (inside : entrySize * entry < maxSize)
      (atMost : entrySize * entry ≤ (fs.inode dir).size)
      (present : (middle.place dir entry).1 ≠ 0)
      (free :
        entrySize * entry < (fs.inode dir).size → entryInode (fs.entries dir) entry = 0)
      (stored :
        ∀ inode,
          setEntryInode (middle.place dir entry).1
              (middle.place dir entry).2 inode after =
            (middle.withEntry dir entry inode name).hold
              (middle.place dir entry).1) :
      Added sb fs dir name (some (middle.place dir entry)) after

theorem Extends.entries
    (extension : Extends fs middle) :
    middle.entries dir = fs.entries dir := by
  unfold Fs.entries
  rw [extension.files]

/-- Filling slots first does not matter. -/
theorem Added.trans
    {result : Option (Nat × Nat)}
    (extension : Extends fs middle)
    (added : Added sb middle dir name result after) :
    Added sb fs dir name result after := by
  cases added with
  | full consistent more full =>
    exact .full consistent (extension.trans more) full
  | added consistent more inside atMost present free stored =>
    rw [extension.size] at atMost free
    rw [extension.entries] at free
    exact .added consistent (extension.trans more) inside atMost present
      free stored

theorem setEntry_setData
    {index value : Nat} {contents : Block} :
    (fs.setData block contents).setEntry block index value =
      fs.setData block (contents.setWord index value) := by
  unfold Fs.setEntry Fs.setData
  simp only [Function.update_self, Function.update_idem]

theorem setData_setData
    {first second : Block} :
    (fs.setData block first).setData block second =
      fs.setData block second := by
  unfold Fs.setData
  simp only [Function.update_idem]

/-- The stores of `add_entry` and of its caller into a free entry. -/
theorem stored_free
    {inode : Nat}
    (short : name.length ≤ nameLen)
    (same : fs.growSize dir (entrySize * (entry + 1)) = fs) :
    setEntryInode (fs.place dir entry).1 (fs.place dir entry).2 inode
        (setEntryName (fs.place dir entry).1 (fs.place dir entry).2 name
          (fs.hold (fs.place dir entry).1)) =
      (fs.withEntry dir entry inode name).hold (fs.place dir entry).1 := by
  unfold setEntryInode setEntryName Fs.withEntry
  rw [setEntry_setData, same, setWord_storeBytes short]
  rfl

/-- The stores of `add_entry` and of its caller behind the last entry. -/
theorem stored_last
    {inode : Nat}
    (short : name.length ≤ nameLen)
    (last : (fs.inode dir).size ≤ entrySize * entry) :
    setEntryInode (fs.place dir entry).1 (fs.place dir entry).2 inode
        (setEntryName (fs.place dir entry).1 (fs.place dir entry).2 name
          (Fs.setSize dir (entrySize * (entry + 1))
            (setEntryInode (fs.place dir entry).1
              (fs.place dir entry).2 0
              (fs.hold (fs.place dir entry).1)))) =
      (fs.withEntry dir entry inode name).hold (fs.place dir entry).1 := by
  have grows :
      fs.growSize dir (entrySize * (entry + 1)) =
        fs.setSize dir (entrySize * (entry + 1)) := by
    refine if_pos ?_
    unfold entrySize at *
    omega
  have covers : 2 ≤ (entryBytes inode name).length := by
    rw [length_entryBytes short]
    decide
  have data :
      (Fs.setSize dir (entrySize * (entry + 1))
        (setEntryInode (fs.place dir entry).1 (fs.place dir entry).2 0
          (fs.hold (fs.place dir entry).1))).data
        (fs.place dir entry).1 =
      (fs.data (fs.place dir entry).1).setWord
        (entrySize / 2 * (fs.place dir entry).2) 0 := by
    simp [Fs.setSize, setEntryInode, Fs.setEntry, Fs.setData, Fs.hold,
      Fs.setCount, Fs.setInode]
  have earlier :
      Fs.setSize dir (entrySize * (entry + 1))
          (setEntryInode (fs.place dir entry).1 (fs.place dir entry).2 0
            (fs.hold (fs.place dir entry).1)) =
        ((fs.setSize dir (entrySize * (entry + 1))).hold
          (fs.place dir entry).1).setData (fs.place dir entry).1
          ((fs.data (fs.place dir entry).1).setWord
            (entrySize / 2 * (fs.place dir entry).2) 0) :=
    rfl
  unfold Fs.withEntry
  rw [grows]
  unfold setEntryName
  rw [data, earlier, setData_setData]
  unfold setEntryInode
  rw [setEntry_setData, setWord_storeBytes short, storeBytes_setWord covers]
  rfl

theorem growSize_of_le
    {pos : Nat}
    (reached : pos ≤ (fs.inode dir).size) :
    fs.growSize dir pos = fs :=
  if_neg (Nat.not_lt.mpr reached)

theorem ensures_addLoop
    {size number : Nat}
    (consistent : Consistent sb fs)
    (file : fs.IsFile dir)
    (short : name.length ≤ nameLen)
    (size_eq : (fs.inode dir).size = size)
    (whole : entrySize ∣ size)
    (atMost : entrySize * (entriesPerBlock * number + de) ≤ size)
    (few : de ≤ entriesPerBlock)
    (inside : number < 7 + 512 + 512 * 512)
    (present : fs.zoneAt dir (pathOf number) ≠ 0) :
    (addLoop sb dir name size (entriesPerBlock * number + de)
        (fs.zoneAt dir (pathOf number)) de).Ensures
      (fs.hold (fs.zoneAt dir (pathOf number)))
      (Added sb fs dir name) := by
  induction rest :
      size - entrySize * (entriesPerBlock * number + de)
    using Nat.strong_induction_on generalizing fs number de with
  | _ rest inductionHypothesis =>
    rw [addLoop]
    refine (ensures_nextPlace consistent file few inside
      present).andThen ?_
    intro result after nextPlace
    cases nextPlace with
    | full consistent' extension full =>
      exact ensures_pure (.full consistent' extension (Or.inl full))
    | here consistent' extension inside' present' =>
      rename_i middle
      have size' : (middle.inode dir).size = size := by
        rw [extension.size, size_eq]
      have bound : entrySize * (entriesPerBlock * number + de) ≤
          (middle.inode dir).size := by
        rw [size']
        exact atMost
      refine Ensures.mono ?_
        fun _ _ (added : Added sb middle dir name _ _) =>
          added.trans extension
      generalize entriesPerBlock * number + de = entry at *
      change Ensures
        (if _ : size ≤ entrySize * entry then _ else _) _ _
      by_cases last : size ≤ entrySize * entry
      · rw [dif_pos last]
        have free :
            entrySize * entry < (middle.inode dir).size →
              entryInode (middle.entries dir) entry = 0 := by
          rw [size']
          exact fun before => absurd before (Nat.not_lt.mpr last)
        exact ensures_update_bind.mpr (ensures_update_bind.mpr
          (ensures_update_bind.mpr (ensures_pure
            (.added consistent' .refl inside' bound present' free
              fun _ => stored_last short (size'.le.trans last)))))
      · rw [dif_neg last, ensures_read_bind]
        have before := Nat.not_le.mp last
        have file' : middle.IsFile dir := extension.isFile.mpr file
        have looks :
            entryInode (middle.entries dir) entry =
              entryInode (middle.data (middle.place dir entry).1)
                (entry % entriesPerBlock) := by
          rw [entryInode_entries file' inside', blockAt_of_present present']
          rfl
        have nextWhole : entrySize * (entry + 1) ≤ size := by
          obtain ⟨entries, rfl⟩ := whole
          unfold entrySize at *
          omega
        change Ensures
          (if entryInode (middle.data (middle.place dir entry).1)
            (entry % entriesPerBlock) = 0 then _ else _) _ _
        rw [← looks]
        by_cases free : entryInode (middle.entries dir) entry = 0
        · rw [if_pos free]
          have grown :
              middle.growSize dir (entrySize * (entry + 1)) = middle :=
            growSize_of_le (size' ▸ nextWhole)
          exact ensures_update_bind.mpr (ensures_pure
            (.added consistent' .refl inside' bound present'
              (fun _ => free) fun _ => stored_free short grown))
        · rw [if_neg free]
          have next :
              entriesPerBlock * (entry / entriesPerBlock) +
                (entry % entriesPerBlock + 1) = entry + 1 := by
            rw [← Nat.add_assoc, Nat.div_add_mod]
          have more :=
            inductionHypothesis
              (size - entrySize * (entriesPerBlock *
                (entry / entriesPerBlock) + (entry % entriesPerBlock + 1)))
              (by rw [next]; unfold entrySize at *; omega)
              consistent' file' size' (next ▸ nextWhole)
              (Nat.succ_le_of_lt (Nat.mod_lt _ (by decide)))
              (entry_lt_of_lt inside') present' rfl
          rw [next] at more
          exact more

/-- `add_entry` returns a free entry, or the one behind the last. -/
theorem ensures_addEntry
    (directory : IsDirectory sb fs dir)
    (notEmpty : name.take nameLen ≠ []) :
    (addEntry sb dir name).Ensures fs
      (fun result after =>
        Added sb fs dir (name.take nameLen) result after ∧
          (fs.zoneAt dir (pathOf 0) = 0 → result = none)) := by
  unfold addEntry
  simp only
  rw [if_neg notEmpty, ensures_read_bind]
  have start : (fs.inode dir).zone 0 = fs.zoneAt dir (pathOf 0) :=
    rfl
  rw [start]
  by_cases absent : fs.zoneAt dir (pathOf 0) = 0
  · rw [if_pos absent]
    exact ensures_pure
      ⟨.full directory.consistent .refl (Or.inr absent), fun _ => rfl⟩
  · rw [if_neg absent, bread, ensures_update_bind]
    have short : (name.take nameLen).length ≤ nameLen := by
      rw [List.length_take]
      exact Nat.min_le_left _ _
    have adds :=
      ensures_addLoop directory.consistent directory.file short rfl
        directory.whole (Nat.zero_le _) (Nat.zero_le _) (by decide)
        absent
    exact adds.mono fun _ _ added =>
      ⟨added, fun impossible => absurd impossible absent⟩

end Zones

end HitOs
