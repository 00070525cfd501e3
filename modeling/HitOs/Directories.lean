import HitOs.FileData

namespace HitOs

/-!
# Directories

`match`, `find_entry` and `add_entry`.  An entry is 16 bytes: the number of an
inode, and a name of `NAME_LEN` bytes that zeros fill up.  `find_entry` treats
the name `..` specially; here the name is another one.
-/

namespace Zones

open Routine

/-- `NAME_LEN` -/
def nameLen : Nat := 14

/-- `sizeof (struct dir_entry)` -/
def entrySize : Nat := 16

/-- `DIR_ENTRIES_PER_BLOCK` -/
def entriesPerBlock : Nat := 64

/-- `de->inode` -/
def entryInode (block : Block) (de : Nat) : Nat :=
  block.word (entrySize / 2 * de)

/-- `de->name` -/
def entryName (block : Block) (de : Nat) : List UInt8 :=
  (List.range nameLen).map fun index => block (entrySize * de + 2 + index)

/-- `match`, with the length of the name -/
def matchEntry (name : List UInt8) (block : Block) (de : Nat) : Bool :=
  if entryInode block de = 0 ∨ nameLen < name.length then
    false
  else if name.length < nameLen ∧
      block (entrySize * de + 2 + name.length) ≠ 0 then
    false
  else
    (entryName block de).take name.length == name

/-- `brelse`, which does nothing for `NULL` -/
def release : Option Nat → Routine Fs Unit
  | none => pure ()
  | some bh => brelse bh

/--
The loop of `find_entry`, at entry `i`, with the buffer and the place of the entry
in it.
-/
def findLoop
    (sb : SuperBlock)
    (dir : Nat)
    (name : List UInt8)
    (entries i : Nat)
    (bh : Option Nat)
    (de : Nat) :
    Routine Fs (Option (Nat × Nat)) := do
  if _ : i < entries then
    if bh = none ∨ entriesPerBlock ≤ de then
      release bh
      let block ← bmap sb dir (i / entriesPerBlock)
      if block = 0 then
        findLoop sb dir name entries (i + entriesPerBlock) none de
      else
        bread block
        let fs ← read
        if matchEntry name (fs.data block) 0 then
          pure (some (block, 0))
        else
          findLoop sb dir name entries (i + 1) (some block) 1
    else
      let block := bh.getD 0
      let fs ← read
      if matchEntry name (fs.data block) de then
        pure (some (block, de))
      else
        findLoop sb dir name entries (i + 1) bh (de + 1)
  else
    release bh
    pure none
termination_by entries - i
decreasing_by
  all_goals
    have nonzero : 0 < entriesPerBlock := by decide
    omega

/-- `find_entry`: the buffer with the entry, and the place of the entry in it -/
def findEntry
    (sb : SuperBlock)
    (dir : Nat)
    (name : List UInt8) :
    Routine Fs (Option (Nat × Nat)) := do
  let name := name.take nameLen
  let fs ← read
  let entries := (fs.inode dir).size / entrySize
  if name = [] then
    pure none
  else
    let block := (fs.inode dir).zone 0
    if block = 0 then
      pure none
    else
      bread block
      findLoop sb dir name entries 0 (some block) 0

/-- The bytes that `add_entry` stores as the name of an entry. -/
def padded (name : List UInt8) : List UInt8 :=
  name ++ List.replicate (nameLen - name.length) 0

/-- `de->inode = inode` -/
def setEntryInode (bh de inode : Nat) (fs : Fs) : Fs :=
  fs.setEntry bh (entrySize / 2 * de) inode

/-- The loop of `add_entry` that copies the name. -/
def setEntryName (bh de : Nat) (name : List UInt8) (fs : Fs) : Fs :=
  fs.setData bh (storeBytes (entrySize * de + 2) (padded name) (fs.data bh))

/-- The place of entry `i` of a directory that `add_entry` looks at. -/
def nextPlace
    (sb : SuperBlock)
    (dir i bh de : Nat) :
    Routine Fs (Option (Nat × Nat)) := do
  if entriesPerBlock ≤ de then
    brelse bh
    let block ← createBlock sb dir (i / entriesPerBlock)
    if block = 0 then
      pure none
    else
      bread block
      pure (some (block, 0))
  else
    pure (some (bh, de))

/--
The loop of `add_entry`, at entry `i`.  The size of the directory does not change
before the loop ends.
-/
def addLoop
    (sb : SuperBlock)
    (dir : Nat)
    (name : List UInt8)
    (size i bh de : Nat) :
    Routine Fs (Option (Nat × Nat)) := do
  match ← nextPlace sb dir i bh de with
  | none => pure none
  | some (bh, de) =>
    if _ : size ≤ entrySize * i then
      -- The entry is behind the end: `de->inode=0` makes it a free one.
      update (setEntryInode bh de 0)
      update (Fs.setSize dir (entrySize * (i + 1)))
      update (setEntryName bh de name)
      pure (some (bh, de))
    else
      let fs ← read
      if entryInode (fs.data bh) de = 0 then
        update (setEntryName bh de name)
        pure (some (bh, de))
      else
        addLoop sb dir name size (i + 1) bh (de + 1)
termination_by size - entrySize * i
decreasing_by
  unfold entrySize at *
  omega

/-- `add_entry`: the buffer with the new entry, and the place of the entry in it -/
def addEntry
    (sb : SuperBlock)
    (dir : Nat)
    (name : List UInt8) :
    Routine Fs (Option (Nat × Nat)) := do
  let name := name.take nameLen
  if name = [] then
    pure none
  else
    let fs ← read
    let block := (fs.inode dir).zone 0
    if block = 0 then
      pure none
    else
      bread block
      addLoop sb dir name (fs.inode dir).size 0 block 0

/-! ## Entries -/

/-- The bytes of an entry. -/
def entryBytes (inode : Nat) (name : List UInt8) : List UInt8 :=
  UInt8.ofNat inode :: UInt8.ofNat (inode / 256) :: padded name

variable {block other : Block} {de place inode : Nat}
variable {name : List UInt8}

theorem length_padded
    (short : name.length ≤ nameLen) :
    (padded name).length = nameLen := by
  unfold padded
  rw [List.length_append, List.length_replicate]
  omega

/-- What is in an entry is in its 16 bytes. -/
theorem entryInode_congr
    (same :
      ∀ index < entrySize,
        block (entrySize * de + index) = other (entrySize * place + index)) :
    entryInode block de = entryInode other place := by
  have low := same 0 (by decide)
  have high := same 1 (by decide)
  have even (k : Nat) : 2 * (entrySize / 2 * k) = entrySize * k := by
    unfold entrySize
    omega
  unfold entryInode Block.word
  rw [even, even, high]
  exact congrArg (fun byte : UInt8 => byte.toNat + _) low

theorem matchEntry_congr
    (same :
      ∀ index < entrySize,
        block (entrySize * de + index) = other (entrySize * place + index)) :
    matchEntry name block de = matchEntry name other place := by
  have names : entryName block de = entryName other place := by
    apply List.map_congr_left
    intro index member
    have inside := List.mem_range.mp member
    have bytes := same (2 + index) (by unfold entrySize nameLen at *; omega)
    rwa [← Nat.add_assoc, ← Nat.add_assoc] at bytes
  unfold matchEntry
  rw [entryInode_congr same, names]
  by_cases short : name.length < nameLen
  · have bytes :=
      same (2 + name.length) (by unfold entrySize nameLen at *; omega)
    rw [← Nat.add_assoc, ← Nat.add_assoc] at bytes
    rw [bytes]
  · simp only [short, false_and]

/-- A free entry matches no name. -/
theorem matchEntry_of_free
    (free : entryInode block de = 0) :
    matchEntry name block de = false :=
  if_pos (Or.inl free)

theorem matchEntry_live
    (matched : matchEntry name block de = true) :
    entryInode block de ≠ 0 := by
  intro free
  rw [matchEntry_of_free free] at matched
  exact absurd matched Bool.false_ne_true

theorem length_entryBytes
    (short : name.length ≤ nameLen) :
    (entryBytes inode name).length = entrySize := by
  change (padded name).length + 1 + 1 = entrySize
  rw [length_padded short]
  rfl

theorem setWord_apply
    {index value : Nat} :
    Block.setWord index value block place =
      if place = 2 * index + 1 then UInt8.ofNat (value / 256)
      else if place = 2 * index then UInt8.ofNat value
      else block place :=
  rfl

theorem storeBytes_apply
    {offset : Nat} {bytes : List UInt8} :
    storeBytes offset bytes block place =
      if offset ≤ place ∧ place < offset + bytes.length then
        bytes.getD (place - offset) 0
      else
        block place :=
  rfl

/-- The byte where an entry starts, as `Block.word` counts. -/
theorem two_mul_half : 2 * (entrySize / 2 * de) = entrySize * de := by
  unfold entrySize
  omega

/-- The two stores that make an entry are one. -/
theorem setWord_storeBytes
    (short : name.length ≤ nameLen) :
    Block.setWord (entrySize / 2 * de) inode
        (storeBytes (entrySize * de + 2) (padded name) block) =
      storeBytes (entrySize * de) (entryBytes inode name) block := by
  have lengths : (padded name).length + 2 = entrySize := by
    rw [length_padded short]
    rfl
  have whole : (entryBytes inode name).length = entrySize :=
    length_entryBytes short
  funext place
  rw [setWord_apply, storeBytes_apply, storeBytes_apply, two_mul_half, whole]
  by_cases high : place = entrySize * de + 1
  · have second : place - entrySize * de = 1 := by
      omega
    rw [if_pos high, if_pos (by omega), second]
    rfl
  · by_cases low : place = entrySize * de
    · have first : place - entrySize * de = 0 := by
        omega
      rw [if_neg high, if_pos low, if_pos (by omega), first]
      rfl
    · rw [if_neg high, if_neg low]
      by_cases inside :
          entrySize * de + 2 ≤ place ∧ place < entrySize * de + 2 + (padded name).length
      · have offset :
            place - entrySize * de =
              place - (entrySize * de + 2) + 1 + 1 := by
          omega
        rw [if_pos inside, if_pos (by omega), offset]
        rfl
      · rw [if_neg inside, if_neg (by omega)]

/-- A store over a word that it covers. -/
theorem storeBytes_setWord
    {bytes : List UInt8}
    (covers : 2 ≤ bytes.length) :
    storeBytes (entrySize * de) bytes
        (Block.setWord (entrySize / 2 * de) inode block) =
      storeBytes (entrySize * de) bytes block := by
  funext place
  rw [storeBytes_apply, storeBytes_apply, setWord_apply, two_mul_half]
  by_cases inside :
      entrySize * de ≤ place ∧ place < entrySize * de + bytes.length
  · rw [if_pos inside, if_pos inside]
  · rw [if_neg inside, if_neg inside, if_neg (by omega),
      if_neg (by omega)]

/-- `de->inode = 0` stores two bytes. -/
theorem setWord_zero :
    Block.setWord (entrySize / 2 * de) 0 block =
      storeBytes (entrySize * de) [0, 0] block := by
  have two : ([0, 0] : List UInt8).length = 2 :=
    rfl
  funext place
  rw [setWord_apply, storeBytes_apply, two_mul_half, two]
  by_cases high : place = entrySize * de + 1
  · have second : place - entrySize * de = 1 := by
      omega
    rw [if_pos high, if_pos (by omega), second]
    rfl
  · by_cases low : place = entrySize * de
    · have first : place - entrySize * de = 0 := by
        omega
      rw [if_neg high, if_pos low, if_pos (by omega), first]
      rfl
    · rw [if_neg high, if_neg low, if_neg (by omega)]

/-! ## The names that an entry matches -/

/-- A name that a path can have, cut to `NAME_LEN`. -/
structure IsName (name : List UInt8) : Prop where
  notEmpty :
    name ≠ []
  noZero :
    0 ∉ name
  short :
    name.length ≤ nameLen

/-- The bytes of an entry's name say this name. -/
structure Spells (bytes name : List UInt8) : Prop where
  short :
    name.length ≤ nameLen
  stops :
    name.length < nameLen → bytes.getD name.length 0 = 0
  begins :
    bytes.take name.length = name

theorem length_entryName : (entryName block de).length = nameLen := by
  simp [entryName]

theorem getD_entryName
    {index : Nat}
    (inside : index < nameLen) :
    (entryName block de).getD index 0 =
      block (entrySize * de + 2 + index) := by
  rw [List.getD_eq_getElem _ _ (by rwa [length_entryName])]
  simp [entryName]

theorem matchEntry_iff :
    matchEntry name block de = true ↔
      entryInode block de ≠ 0 ∧ Spells (entryName block de) name := by
  unfold matchEntry
  by_cases skipped :
      entryInode block de = 0 ∨ nameLen < name.length
  · rw [if_pos skipped]
    refine ⟨fun impossible => absurd impossible Bool.false_ne_true, ?_⟩
    rintro ⟨live, spells⟩
    rcases skipped with free | long
    · exact absurd free live
    · exact absurd spells.short (Nat.not_le.mpr long)
  · rw [if_neg skipped]
    have short : name.length ≤ nameLen :=
      Nat.not_lt.mp fun long => skipped (Or.inr long)
    have live : entryInode block de ≠ 0 :=
      fun free => skipped (Or.inl free)
    by_cases longer :
        name.length < nameLen ∧ block (entrySize * de + 2 + name.length) ≠ 0
    · rw [if_pos longer]
      refine ⟨fun impossible => absurd impossible Bool.false_ne_true, ?_⟩
      rintro ⟨_, spells⟩
      have stops := spells.stops longer.1
      rw [getD_entryName longer.1] at stops
      exact absurd stops longer.2
    · rw [if_neg longer, beq_iff_eq]
      constructor
      · intro begins
        refine ⟨live, short, ?_, begins⟩
        intro inside
        rw [getD_entryName inside]
        exact not_not.mp fun different => longer ⟨inside, different⟩
      · exact fun both => both.2.begins

/-- Bytes do not say a name that has another one in front. -/
theorem Spells.length_le
    {bytes other : List UInt8}
    (spells : Spells bytes name)
    (spellsOther : Spells bytes other)
    (noZero : 0 ∉ other) :
    other.length ≤ name.length := by
  by_contra longer
  have inside : name.length < other.length := Nat.not_le.mp longer
  have zero := spells.stops (Nat.lt_of_lt_of_le inside spellsOther.short)
  have same : bytes.getD name.length 0 = other[name.length] := by
    have taken :
        other[name.length]? = bytes[name.length]? := by
      conv =>
        lhs
        rw [← spellsOther.begins]
      exact List.getElem?_take_of_lt inside
    rw [List.getD, ← taken, List.getElem?_eq_getElem inside, Option.getD_some]
  rw [same] at zero
  exact noZero (zero ▸ List.getElem_mem inside)

theorem Spells.unique
    {bytes other : List UInt8}
    (spells : Spells bytes name)
    (spellsOther : Spells bytes other)
    (noZero : 0 ∉ name)
    (noZeroOther : 0 ∉ other) :
    name = other := by
  have same : name.length = other.length :=
    Nat.le_antisymm (spellsOther.length_le spells noZero)
      (spells.length_le spellsOther noZeroOther)
  rw [← spells.begins, ← spellsOther.begins, same]

theorem spells_padded
    (short : name.length ≤ nameLen) :
    Spells (padded name) name := by
  refine ⟨short, ?_, List.take_left⟩
  intro _
  unfold padded
  rw [List.getD_append_right _ _ _ _ (Nat.le_refl _)]
  simp [List.getD]

/-- Two names that one entry matches are equal. -/
theorem eq_of_matchEntry
    {sought : List UInt8}
    (isName : IsName name)
    (isSought : IsName sought)
    (first : matchEntry name block de = true)
    (second : matchEntry sought block de = true) :
    name = sought :=
  (matchEntry_iff.mp first).2.unique (matchEntry_iff.mp second).2
    isName.noZero isSought.noZero

/-- The block has an entry at this place. -/
def HoldsEntry
    (block : Block)
    (de inode : Nat)
    (name : List UInt8) : Prop :=
  ∀ index < entrySize,
    block (entrySize * de + index) = (entryBytes inode name).getD index 0

theorem HoldsEntry.inode_eq
    (holds : HoldsEntry block de inode name)
    (small : inode < 65536) :
    entryInode block de = inode := by
  have low : block (entrySize * de) = UInt8.ofNat inode :=
    holds 0 (by decide)
  have high : block (entrySize * de + 1) = UInt8.ofNat (inode / 256) :=
    holds 1 (by decide)
  unfold entryInode Block.word
  rw [two_mul_half, low, high, UInt8.toNat_ofNat', UInt8.toNat_ofNat']
  omega

theorem HoldsEntry.name_eq
    (holds : HoldsEntry block de inode name)
    (short : name.length ≤ nameLen) :
    entryName block de = padded name := by
  have lengths := length_padded short
  apply List.ext_getElem
  · rw [length_entryName, lengths]
  · intro index inside bound
    rw [length_entryName] at inside
    have padding :
        (entryBytes inode name).getD (2 + index) 0 =
          (padded name).getD index 0 := by
      rw [Nat.add_comm]
      rfl
    have byte :=
      holds (2 + index) (by unfold entrySize nameLen at *; omega)
    have same :
        (entryName block de).getD index 0 = (padded name).getD index 0 :=
      (getD_entryName inside).trans
        ((congrArg block (Nat.add_assoc _ _ _)).trans
          (byte.trans padding))
    rwa [List.getD_eq_getElem _ _ (by rwa [length_entryName]),
      List.getD_eq_getElem _ _ bound] at same

/-- `match` finds the name that `add_entry` stored, and no other one. -/
theorem HoldsEntry.matchEntry_iff
    {sought : List UInt8}
    (holds : HoldsEntry block de inode name)
    (isName : IsName name)
    (isSought : IsName sought)
    (live : inode ≠ 0)
    (small : inode < 65536) :
    matchEntry sought block de = true ↔ sought = name := by
  rw [Zones.matchEntry_iff, holds.inode_eq small, holds.name_eq isName.short]
  constructor
  · rintro ⟨_, spells⟩
    exact spells.unique (spells_padded isName.short) isSought.noZero
      isName.noZero
  · rintro rfl
    exact ⟨live, spells_padded isName.short⟩

end Zones

end HitOs
