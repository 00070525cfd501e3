import HitOs.DirectoryCalls
import HitOs.Traces

namespace HitOs

/-!
# Directories as finite maps

Calls of `find_entry` and `add_entry`, and removals of entries, on one directory,
one call after the other, and the same calls on a map from names to entries.
-/

namespace Zones

open Routine

/-- An entry with the number of its inode. -/
structure Binding where
  place : Nat × Nat
  inode : Nat
  deriving Repr, DecidableEq

/-- What the directory says about an entry. -/
def Fs.binding (fs : Fs) (dir entry : Nat) : Binding where
  place := fs.place dir entry
  inode := entryInode (fs.entries dir) entry

/-- A name cut to `NAME_LEN`. -/
abbrev Name :=
  { name : List UInt8 // IsName name }

/-- The first entry that matches each name. -/
def Fs.bindings (fs : Fs) (dir : Nat) (name : Name) : Option Binding :=
  ((List.range (fs.entryCount dir)).find?
    fun entry => matchEntry name.val (fs.entries dir) entry).map
      (fs.binding dir)

/-- No two entries match one name. -/
def Fs.Unique (fs : Fs) (dir : Nat) : Prop :=
  ∀ name entry other, IsName name →
    entry < fs.entryCount dir → other < fs.entryCount dir →
      matchEntry name (fs.entries dir) entry = true →
        matchEntry name (fs.entries dir) other = true → entry = other

/-- Some entry of the directory binds the name. -/
def Fs.Binds
    (fs : Fs)
    (dir : Nat)
    (name : List UInt8)
    (binding : Binding) : Prop :=
  ∃ entry, entry < fs.entryCount dir ∧
    matchEntry name (fs.entries dir) entry = true ∧ binding = fs.binding dir entry

variable {sb : SuperBlock} {fs middle after start : Fs}
variable {dir entry inode : Nat} {name : Name} {binding : Binding}

theorem bindings_eq_some_iff
    (unique : fs.Unique dir) :
    fs.bindings dir name = some binding ↔
      fs.Binds dir name.val binding := by
  unfold Fs.bindings
  rw [Option.map_eq_some_iff]
  constructor
  · rintro ⟨entry, found, rfl⟩
    exact ⟨entry, List.mem_range.mp (List.mem_of_find?_eq_some found),
      by simpa using List.find?_some found, rfl⟩
  · rintro ⟨entry, upper, matched, rfl⟩
    have present :
        ((List.range (fs.entryCount dir)).find? fun entry =>
          matchEntry name.val (fs.entries dir) entry).isSome = true := by
      rw [List.find?_isSome]
      exact ⟨entry, List.mem_range.mpr upper, matched⟩
    obtain ⟨other, found⟩ := Option.isSome_iff_exists.mp present
    have same : other = entry :=
      unique name.val other entry name.property
        (List.mem_range.mp (List.mem_of_find?_eq_some found)) upper
        (by simpa using List.find?_some found) matched
    exact ⟨other, found, by rw [same]⟩

theorem bindings_eq_none
    (free :
      ∀ entry, entry < fs.entryCount dir →
        matchEntry name.val (fs.entries dir) entry = false) :
    fs.bindings dir name = none := by
  unfold Fs.bindings
  rw [Option.map_eq_none_iff, List.find?_eq_none]
  intro entry member
  rw [free entry (List.mem_range.mp member)]
  exact Bool.false_ne_true

/-! ## Entries that change -/

theorem pos_split :
    entrySize * entry % blockSize =
        entrySize * (entry % entriesPerBlock) ∧
      entrySize * entry / blockSize = entry / entriesPerBlock := by
  unfold entrySize blockSize entriesPerBlock
  omega

/-- Bytes stored into one entry do not touch another one. -/
theorem entries_other
    {other : Nat} {bytes : List UInt8}
    (few : bytes.length ≤ entrySize)
    (changed :
      after.entries dir = ((fs.files dir).overwrite (entrySize * entry) bytes).byte)
    (different : other ≠ entry) :
    ∀ index < entrySize,
      after.entries dir (entrySize * other + index) =
        fs.entries dir (entrySize * other + index) := by
  intro index inEntry
  rw [changed]
  refine if_neg ?_
  unfold entrySize at *
  omega

theorem entries_same
    {index : Nat} {bytes : List UInt8}
    (changed :
      after.entries dir = ((fs.files dir).overwrite (entrySize * entry) bytes).byte)
    (inside : index < bytes.length) :
    after.entries dir (entrySize * entry + index) =
      bytes.getD index 0 := by
  have offset :
      entrySize * entry + index - entrySize * entry = index :=
    Nat.add_sub_cancel_left _ _
  rw [changed]
  change (if _ then bytes.getD
    (entrySize * entry + index - entrySize * entry) 0 else _) = _
  rw [if_pos (by omega), offset]

/-- A directory in which one entry has been made. -/
structure Inserted
    (fs : Fs)
    (dir entry inode : Nat)
    (name : List UInt8)
    (after : Fs) : Prop where
  count :
    after.entryCount dir = max (fs.entryCount dir) (entry + 1)
  atMost :
    entry ≤ fs.entryCount dir
  free :
    entry < fs.entryCount dir → entryInode (fs.entries dir) entry = 0
  others :
    ∀ other, other ≠ entry → ∀ index < entrySize,
      after.entries dir (entrySize * other + index) =
        fs.entries dir (entrySize * other + index)
  holds :
    HoldsEntry (after.entries dir) entry inode name
  places :
    ∀ other, other < fs.entryCount dir →
      entryInode (fs.entries dir) other ≠ 0 → after.place dir other = fs.place dir other

/-- The live entries are the old ones, and the new one. -/
theorem Inserted.matches_iff
    {sought : List UInt8} {other : Nat}
    (inserted : Inserted fs dir entry inode name.val after)
    (isName : IsName sought)
    (live : inode ≠ 0)
    (small : inode < 65536) :
    (other < after.entryCount dir ∧
        matchEntry sought (after.entries dir) other = true) ↔
      (other = entry ∧ sought = name.val) ∨
        (other < fs.entryCount dir ∧
          matchEntry sought (fs.entries dir) other = true) := by
  have atMost := inserted.atMost
  rw [inserted.count]
  by_cases new : other = entry
  · subst new
    have notOld :
        ¬ (other < fs.entryCount dir ∧
          matchEntry sought (fs.entries dir) other = true) := by
      rintro ⟨upper, matched⟩
      exact matchEntry_live matched (inserted.free upper)
    rw [inserted.holds.matchEntry_iff name.property isName live small]
    constructor
    · exact fun both => Or.inl ⟨rfl, both.2⟩
    · rintro (⟨_, same⟩ | old)
      · exact ⟨by omega, same⟩
      · exact absurd old notOld
  · rw [matchEntry_congr (inserted.others other new)]
    constructor
    · rintro ⟨upper, matched⟩
      exact Or.inr ⟨by omega, matched⟩
    · rintro (⟨impossible, _⟩ | ⟨upper, matched⟩)
      · exact absurd impossible new
      · exact ⟨by omega, matched⟩

theorem Inserted.unique
    (inserted : Inserted fs dir entry inode name.val after)
    (live : inode ≠ 0)
    (small : inode < 65536)
    (unique : fs.Unique dir)
    (missing : fs.bindings dir name = none) :
    after.Unique dir := by
  intro sought first second isName firstUpper secondUpper firstMatches
    secondMatches
  have noOld
      {other : Nat}
      (same : sought = name.val)
      (old :
        other < fs.entryCount dir ∧ matchEntry sought (fs.entries dir) other = true) :
      False := by
    have binds : fs.Binds dir name.val (fs.binding dir other) :=
      ⟨other, old.1, same ▸ old.2, rfl⟩
    rw [← bindings_eq_some_iff unique, missing] at binds
    cases binds
  rcases (inserted.matches_iff isName live small).mp
      ⟨firstUpper, firstMatches⟩ with ⟨rfl, same⟩ | oldFirst
  · rcases (inserted.matches_iff isName live small).mp
        ⟨secondUpper, secondMatches⟩ with ⟨rfl, _⟩ | oldSecond
    · rfl
    · exact (noOld same oldSecond).elim
  · rcases (inserted.matches_iff isName live small).mp
        ⟨secondUpper, secondMatches⟩ with ⟨rfl, same⟩ | oldSecond
    · exact (noOld same oldFirst).elim
    · exact unique sought first second isName oldFirst.1 oldSecond.1
        oldFirst.2 oldSecond.2

/-- The new entry is bound, and the other names are as they were. -/
theorem Inserted.bindings
    (inserted : Inserted fs dir entry inode name.val after)
    (live : inode ≠ 0)
    (small : inode < 65536)
    (unique : fs.Unique dir)
    (missing : fs.bindings dir name = none) :
    after.bindings dir =
      Function.update (fs.bindings dir) name
        (some { place := after.place dir entry, inode := inode }) := by
  have unique' := inserted.unique live small unique missing
  have old
      {sought : List UInt8} {other : Nat}
      (upper : other < fs.entryCount dir)
      (matched : matchEntry sought (fs.entries dir) other = true) :
      after.binding dir other = fs.binding dir other := by
    have different : other ≠ entry := by
      rintro rfl
      exact matchEntry_live matched (inserted.free upper)
    unfold Fs.binding
    rw [inserted.places other upper (matchEntry_live matched),
      entryInode_congr (inserted.others other different)]
  have new :
      after.binding dir entry =
        { place := after.place dir entry, inode := inode } := by
    unfold Fs.binding
    rw [inserted.holds.inode_eq small]
  funext sought
  ext binding
  rw [bindings_eq_some_iff unique']
  by_cases same : sought = name
  · subst same
    rw [Function.update_self, Option.some_inj, ← new]
    constructor
    · rintro ⟨other, upper, matched, rfl⟩
      rcases (inserted.matches_iff sought.property live small).mp
          ⟨upper, matched⟩ with ⟨rfl, _⟩ | old
      · rfl
      · have binds : fs.Binds dir sought.val (fs.binding dir other) :=
          ⟨other, old.1, old.2, rfl⟩
        rw [← bindings_eq_some_iff unique, missing] at binds
        cases binds
    · rintro rfl
      obtain ⟨upper, matched⟩ :=
        (inserted.matches_iff sought.property live small).mpr
          (Or.inl ⟨rfl, rfl⟩)
      exact ⟨entry, upper, matched, rfl⟩
  · rw [Function.update_of_ne same, bindings_eq_some_iff unique]
    constructor
    · rintro ⟨other, upper, matched, rfl⟩
      rcases (inserted.matches_iff sought.property live small).mp
          ⟨upper, matched⟩ with ⟨_, impossible⟩ | ⟨lower, before⟩
      · exact absurd (Subtype.ext impossible) same
      · exact ⟨other, lower, before, old lower before⟩
    · rintro ⟨other, upper, matched, rfl⟩
      obtain ⟨upper', matches'⟩ :=
        (inserted.matches_iff sought.property live small).mpr
          (Or.inr ⟨upper, matched⟩)
      exact ⟨other, upper', matches', (old upper matched).symm⟩

/-- A directory in which one entry has been freed. -/
structure Removed
    (fs : Fs)
    (dir entry : Nat)
    (after : Fs) : Prop where
  count :
    after.entryCount dir = fs.entryCount dir
  freed :
    entryInode (after.entries dir) entry = 0
  others :
    ∀ other, other ≠ entry → ∀ index < entrySize,
      after.entries dir (entrySize * other + index) =
        fs.entries dir (entrySize * other + index)
  places :
    ∀ other, other < fs.entryCount dir →
      entryInode (fs.entries dir) other ≠ 0 → after.place dir other = fs.place dir other

theorem Removed.matches_iff
    {sought : List UInt8} {other : Nat}
    (removed : Removed fs dir entry after) :
    matchEntry sought (after.entries dir) other = true ↔
      other ≠ entry ∧ matchEntry sought (fs.entries dir) other = true := by
  by_cases same : other = entry
  · subst same
    rw [matchEntry_of_free removed.freed]
    exact ⟨fun impossible => absurd impossible Bool.false_ne_true,
      fun both => absurd rfl both.1⟩
  · rw [matchEntry_congr (removed.others other same)]
    exact ⟨fun matched => ⟨same, matched⟩, And.right⟩

theorem Removed.unique
    (removed : Removed fs dir entry after)
    (unique : fs.Unique dir) :
    after.Unique dir := by
  intro sought first second isName firstUpper secondUpper firstMatches
    secondMatches
  rw [removed.count] at firstUpper secondUpper
  exact unique sought first second isName firstUpper secondUpper
    (removed.matches_iff.mp firstMatches).2
    (removed.matches_iff.mp secondMatches).2

/-- The name of the entry is free, and the other names are as they were. -/
theorem Removed.bindings
    (removed : Removed fs dir entry after)
    (unique : fs.Unique dir)
    (upper : entry < fs.entryCount dir)
    (matched : matchEntry name.val (fs.entries dir) entry = true) :
    after.bindings dir = Function.update (fs.bindings dir) name none := by
  have unique' := removed.unique unique
  funext sought
  by_cases same : sought = name
  · subst same
    rw [Function.update_self]
    apply bindings_eq_none
    intro other lower
    rw [removed.count] at lower
    by_contra found
    rw [Bool.not_eq_false, removed.matches_iff] at found
    exact found.1
      (unique sought.val other entry sought.property lower upper found.2
        matched)
  · rw [Function.update_of_ne same]
    have old
        {other : Nat}
        (lower : other < fs.entryCount dir)
        (found : matchEntry sought.val (fs.entries dir) other = true) :
        other ≠ entry ∧
          after.binding dir other = fs.binding dir other := by
      have different : other ≠ entry := by
        rintro rfl
        exact same (Subtype.ext
          (eq_of_matchEntry sought.property name.property found matched))
      refine ⟨different, ?_⟩
      unfold Fs.binding
      rw [removed.places other lower (matchEntry_live found),
        entryInode_congr (removed.others other different)]
    ext binding
    rw [bindings_eq_some_iff unique', bindings_eq_some_iff unique]
    constructor
    · rintro ⟨other, lower, found, rfl⟩
      rw [removed.count] at lower
      have before := (removed.matches_iff.mp found).2
      exact ⟨other, lower, before, (old lower before).2⟩
    · rintro ⟨other, lower, found, rfl⟩
      obtain ⟨different, unchanged⟩ := old lower found
      exact ⟨other, removed.count ▸ lower,
        removed.matches_iff.mpr ⟨different, found⟩, unchanged.symm⟩

/-! ## The stores of the calls -/

/-- A live entry is in a block. -/
theorem present_of_live
    (file : fs.IsFile dir)
    (inside : entrySize * entry < maxSize)
    (live : entryInode (fs.entries dir) entry ≠ 0) :
    (fs.place dir entry).1 ≠ 0 := by
  intro hole
  apply live
  have nothing : fs.zoneAt dir (pathOf (entry / entriesPerBlock)) = 0 :=
    hole
  rw [entryInode_entries file inside, Fs.blockAt, if_pos nothing]
  rfl

section WithEntry

theorem withEntry_eq
    (short : name.val.length ≤ nameLen) :
    fs.withEntry dir entry inode name.val =
      (fs.growSize dir (entrySize * entry +
        (entryBytes inode name.val).length)).setData
        (fs.zoneAt dir (pathOf (entrySize * entry / blockSize)))
        (storeBytes (entrySize * entry % blockSize)
          (entryBytes inode name.val)
          (fs.data
            (fs.zoneAt dir (pathOf (entrySize * entry / blockSize))))) := by
  rw [length_entryBytes short, pos_split.1, pos_split.2]
  rfl

theorem next_le_of_lt
    (inside : entrySize * entry < maxSize) :
    entrySize * (entry + 1) ≤ maxSize := by
  unfold entrySize maxSize blockSize at *
  omega

theorem pos_mod_add_le :
    entrySize * entry % blockSize + entrySize ≤ blockSize := by
  unfold entrySize blockSize
  omega

theorem zoneAt_withEntry
    {other : Nat} {path : List Nat}
    (consistent : Consistent sb fs)
    (file : fs.IsFile dir)
    (inside : entrySize * entry < maxSize)
    (present : (fs.place dir entry).1 ≠ 0)
    (slot : fs.Slot other path) :
    (fs.withEntry dir entry inode name.val).zoneAt other path =
      fs.zoneAt other path := by
  have grown : Consistent sb
      (fs.growSize dir (entrySize * (entry + 1))) :=
    consistent.growSize
  have same :
      (fs.growSize dir (entrySize * (entry + 1))).zoneAt dir
        (pathOf (entry / entriesPerBlock)) = (fs.place dir entry).1 :=
    growSize_zoneAt
  have stored (contents : Block) :
      ((fs.growSize dir (entrySize * (entry + 1))).setData
        ((fs.growSize dir (entrySize * (entry + 1))).zoneAt dir
          (pathOf (entry / entriesPerBlock))) contents).zoneAt other path =
        (fs.growSize dir (entrySize * (entry + 1))).zoneAt other path :=
    zoneAt_setData grown ((growSize_isFile dir).mpr file)
      (isLeaf_pathOf (entry_lt_of_lt inside))
      (same.trans_ne present) ⟨(growSize_isFile other).mpr slot.1, slot.2⟩
  rw [same, growSize_zoneAt] at stored
  exact stored _

theorem Consistent.withEntry
    (consistent : Consistent sb fs)
    (file : fs.IsFile dir)
    (inside : entrySize * entry < maxSize)
    (present : (fs.place dir entry).1 ≠ 0) :
    Consistent sb (fs.withEntry dir entry inode name.val) := by
  have grown : Consistent sb
      (fs.growSize dir (entrySize * (entry + 1))) :=
    consistent.growSize
  have same :
      (fs.growSize dir (entrySize * (entry + 1))).zoneAt dir
        (pathOf (entry / entriesPerBlock)) = (fs.place dir entry).1 :=
    growSize_zoneAt
  have stored :=
    grown.setData
      (storeBytes (entrySize * (fs.place dir entry).2)
        (entryBytes inode name.val) (fs.data (fs.place dir entry).1))
      ((growSize_isFile dir).mpr file)
      (isLeaf_pathOf (entry_lt_of_lt inside)) (same.trans_ne present)
  rwa [same] at stored

theorem size_withEntry :
    ((fs.withEntry dir entry inode name.val).inode dir).size =
      max (fs.inode dir).size (entrySize * (entry + 1)) := by
  have grown :
      ((fs.growSize dir (entrySize * (entry + 1))).inode dir).size =
        if dir = dir then
          max (fs.inode dir).size (entrySize * (entry + 1))
        else
          (fs.inode dir).size :=
    growSize_size dir
  rwa [if_pos rfl] at grown

end WithEntry

/-- The entry that `add_entry` and its caller have made. -/
theorem inserted_withEntry
    (directory : IsDirectory sb fs dir)
    (consistent : Consistent sb middle)
    (extension : Extends fs middle)
    (started : fs.zoneAt dir (pathOf 0) ≠ 0)
    (inside : entrySize * entry < maxSize)
    (atMost : entrySize * entry ≤ (fs.inode dir).size)
    (present : (middle.place dir entry).1 ≠ 0)
    (free :
      entrySize * entry < (fs.inode dir).size → entryInode (fs.entries dir) entry = 0) :
    IsDirectory sb (middle.withEntry dir entry inode name.val) dir ∧
      Inserted fs dir entry inode name.val
        (middle.withEntry dir entry inode name.val) := by
  have short := name.property.short
  have lengths : (entryBytes inode name.val).length = entrySize :=
    length_entryBytes short
  have file : middle.IsFile dir :=
    extension.isFile.mpr directory.file
  have slot
      {number : Nat}
      (low : number < 7 + 512 + 512 * 512) :
      middle.Slot dir (pathOf number) :=
    ⟨file, (isLeaf_pathOf low).isPath⟩
  have fits :
      entrySize * entry + (entryBytes inode name.val).length ≤
        maxSize := by
    rw [lengths]
    exact next_le_of_lt inside
  have notEmpty : entryBytes inode name.val ≠ [] :=
    List.cons_ne_nil _ _
  have inBlock :
      entrySize * entry % blockSize +
        (entryBytes inode name.val).length ≤ blockSize := by
    rw [lengths]
    exact pos_mod_add_le
  have here :
      middle.zoneAt dir (pathOf (entrySize * entry / blockSize)) ≠ 0 := by
    rw [pos_split.2]
    exact present
  have files :
      (middle.withEntry dir entry inode name.val).files =
        Function.update fs.files dir
          ((fs.files dir).write (entrySize * entry)
            (entryBytes inode name.val)) := by
    rw [withEntry_eq short,
      files_store consistent file fits notEmpty inBlock here,
      extension.files]
  have changed :
      (middle.withEntry dir entry inode name.val).entries dir =
        ((fs.files dir).overwrite (entrySize * entry)
          (entryBytes inode name.val)).byte := by
    unfold Fs.entries
    rw [files, Function.update_self, SparseFile.write_of_ne_nil notEmpty]
    rfl
  have size :
      ((middle.withEntry dir entry inode name.val).inode dir).size =
        max (fs.inode dir).size (entrySize * (entry + 1)) := by
    rw [size_withEntry, extension.size]
  constructor
  · constructor
    case consistent =>
      exact consistent.withEntry file inside present
    case idle =>
      have counts :
          (middle.withEntry dir entry inode name.val).count = fs.count :=
        growSize_rest.2.2.trans extension.count
      rw [counts]
      exact directory.idle
    case isDir =>
      have mode :
          ((middle.withEntry dir entry inode name.val).inode dir).mode =
            (fs.inode dir).mode :=
        (growSize_mode dir).trans (extension.mode dir)
      rw [mode]
      exact directory.isDir
    case whole =>
      rw [size]
      rcases Nat.le_total (fs.inode dir).size
          (entrySize * (entry + 1)) with less | more
      · rw [Nat.max_eq_right less]
        exact Nat.dvd_mul_right _ _
      · rw [Nat.max_eq_left more]
        exact directory.whole
    case fits =>
      rw [size]
      exact Nat.max_le.mpr ⟨directory.fits, next_le_of_lt inside⟩
    case first =>
      intro absent
      rw [zoneAt_withEntry consistent file inside present
          (slot (show 0 < _ by decide)),
        extension.kept dir _ ⟨directory.file,
          (isLeaf_pathOf (show 0 < _ by decide)).isPath⟩ started] at absent
      exact absurd absent started
  · constructor
    case count =>
      unfold Fs.entryCount
      rw [size]
      obtain ⟨entries, whole⟩ := directory.whole
      rw [whole]
      unfold entrySize
      omega
    case atMost =>
      unfold Fs.entryCount
      exact (Nat.le_div_iff_mul_le (by decide)).mpr
        (Nat.mul_comm _ _ ▸ atMost)
    case free =>
      intro upper
      apply free
      unfold Fs.entryCount entrySize at *
      omega
    case others =>
      intro other different
      exact entries_other lengths.le changed different
    case holds =>
      intro index inEntry
      exact entries_same changed (lengths.symm ▸ inEntry)
    case places =>
      intro other upper live
      have low := lt_maxSize_of_lt directory.fits upper
      have block := entry_lt_of_lt low
      have old : (fs.place dir other).1 ≠ 0 :=
        present_of_live directory.file low live
      unfold Fs.place
      rw [zoneAt_withEntry consistent file inside present (slot block),
        extension.kept dir _
          ⟨directory.file, (isLeaf_pathOf block).isPath⟩ old]

/-- The file system with a freed entry. -/
def Fs.withoutEntry (fs : Fs) (dir entry : Nat) : Fs :=
  fs.setData (fs.place dir entry).1
    (storeBytes (entrySize * (fs.place dir entry).2) [0, 0]
      (fs.data (fs.place dir entry).1))

theorem removed_withoutEntry
    (directory : IsDirectory sb fs dir)
    (upper : entry < fs.entryCount dir)
    (present : (fs.place dir entry).1 ≠ 0) :
    IsDirectory sb (fs.withoutEntry dir entry) dir ∧
      Removed fs dir entry (fs.withoutEntry dir entry) := by
  have inside := lt_maxSize_of_lt directory.fits upper
  have block := entry_lt_of_lt inside
  have leaf := isLeaf_pathOf block
  have here :
      fs.zoneAt dir (pathOf (entrySize * entry / blockSize)) ≠ 0 := by
    rw [pos_split.2]
    exact present
  have next := next_le_of_lt inside
  have two : ([0, 0] : List UInt8).length = 2 :=
    rfl
  have inBlock :
      entrySize * entry % blockSize + entrySize ≤ blockSize :=
    pos_mod_add_le
  have fits :
      entrySize * entry + ([0, 0] : List UInt8).length ≤ maxSize := by
    unfold entrySize at *
    omega
  have changed :
      (fs.withoutEntry dir entry).entries dir =
        ((fs.files dir).overwrite (entrySize * entry) [0, 0]).byte := by
    have stored :=
      files_setData directory.consistent directory.file inside fits
        (by unfold entrySize at *; omega) here
    rw [pos_split.1, pos_split.2] at stored
    unfold Fs.entries Fs.withoutEntry Fs.place
    rw [stored, Function.update_self]
  have zones
      {path : List Nat}
      (slot : fs.Slot dir path) :
      (fs.withoutEntry dir entry).zoneAt dir path = fs.zoneAt dir path :=
    zoneAt_setData directory.consistent directory.file leaf present slot
  constructor
  · exact {
      consistent :=
        directory.consistent.setData _ directory.file leaf present
      idle := directory.idle
      isDir := directory.isDir
      whole := directory.whole
      fits := directory.fits
      first := by
        rw [zones ⟨directory.file, (isLeaf_pathOf (show 0 < _ by decide)).isPath⟩]
        exact directory.first }
  · constructor
    case count =>
      rfl
    case freed =>
      have low :
          (fs.withoutEntry dir entry).entries dir
            (entrySize * entry + 0) = 0 :=
        entries_same changed (by decide)
      have high :
          (fs.withoutEntry dir entry).entries dir
            (entrySize * entry + 1) = 0 :=
        entries_same changed (by decide)
      unfold entryInode Block.word
      rw [two_mul_half, high]
      exact congrArg (fun byte : UInt8 => byte.toNat + 256 * 0) low
    case others =>
      intro other different
      exact entries_other (by decide) changed different
    case places =>
      intro other otherUpper live
      unfold Fs.place
      rw [zones ⟨directory.file, (isLeaf_pathOf (entry_lt_of_lt
        (lt_maxSize_of_lt directory.fits otherUpper))).isPath⟩]

end Zones

end HitOs
