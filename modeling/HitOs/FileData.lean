import HitOs.BlockMap
import HitOs.SparseFiles

namespace HitOs

/-!
# Reading and writing files

`file_read`, `file_write` and the branch of `sys_read` for files, and the byte
array that a file is.
-/

namespace Zones

open Routine

/-- `BLOCK_SIZE` -/
def blockSize : Nat := 1024

/-- The first byte position that `_bmap` does not support. -/
def maxSize : Nat := (7 + 512 + 512 * 512) * blockSize

/-- The fields of `struct file` that reads and writes use. -/
structure File where
  append : Bool
  pos : Nat
  deriving Repr, DecidableEq

/-- The bytes of the user copied into a block. -/
def storeBytes
    (offset : Nat)
    (bytes : List UInt8)
    (block : Block) : Block :=
  fun place =>
    if offset ≤ place ∧ place < offset + bytes.length then
      bytes.getD (place - offset) 0
    else
      block place

/-- `if (pos > inode->i_size) inode->i_size = pos` -/
def Fs.growSize (inode pos : Nat) (fs : Fs) : Fs :=
  if (fs.inode inode).size < pos then fs.setSize inode pos else fs

/-- The loop of `file_write`, from a position on, with the bytes that are left. -/
def fileWriteLoop
    (sb : SuperBlock)
    (inode pos : Nat)
    (buf : List UInt8) :
    Routine Fs (Nat × List UInt8) := do
  if _ : buf = [] then
    pure (pos, buf)
  else
    let block ← createBlock sb inode (pos / blockSize)
    if block = 0 then
      pure (pos, buf)
    else
      bread block
      let c := min (blockSize - pos % blockSize) buf.length
      update (Fs.growSize inode (pos + c))
      let fs ← read
      update (Fs.setData block
        (storeBytes (pos % blockSize) (buf.take c) (fs.data block)))
      brelse block
      fileWriteLoop sb inode (pos + c) (buf.drop c)
termination_by buf.length
decreasing_by
  have nonzero : 0 < buf.length := List.length_pos_iff.mpr ‹_›
  have rest : pos % blockSize < blockSize := Nat.mod_lt pos (by decide)
  rw [List.length_drop]
  omega

/-- `(i?i:-1)` -/
def written (i : Nat) : Int :=
  if i = 0 then -1 else i

/-- `file_write` -/
def fileWrite
    (sb : SuperBlock)
    (inode : Nat)
    (filp : File)
    (buf : List UInt8) :
    Routine Fs (Int × File) := do
  let fs ← read
  let pos := if filp.append then (fs.inode inode).size else filp.pos
  let (pos, rest) ← fileWriteLoop sb inode pos buf
  let i := buf.length - rest.length
  pure (written i, if filp.append then filp else { filp with pos := pos })

/-- The loop of `file_read`, with the count of the bytes that are left. -/
def fileReadLoop
    (sb : SuperBlock)
    (inode pos left : Nat) :
    Routine Fs (List UInt8) := do
  if _ : left = 0 then
    pure []
  else
    let nr ← bmap sb inode (pos / blockSize)
    let chars := min (blockSize - pos % blockSize) left
    if nr = 0 then
      let rest ← fileReadLoop sb inode (pos + chars) (left - chars)
      pure (List.replicate chars 0 ++ rest)
    else
      bread nr
      let fs ← read
      let bytes :=
        (List.range chars).map fun index =>
          fs.data nr (pos % blockSize + index)
      brelse nr
      let rest ← fileReadLoop sb inode (pos + chars) (left - chars)
      pure (bytes ++ rest)
termination_by left
decreasing_by
  all_goals
    have rest : pos % blockSize < blockSize := Nat.mod_lt pos (by decide)
    omega

/-- `file_read`, with the bytes it puts into the buffer of the user -/
def fileRead
    (sb : SuperBlock)
    (inode : Nat)
    (filp : File)
    (count : Nat) :
    Routine Fs (List UInt8 × File) := do
  let bytes ← fileReadLoop sb inode filp.pos count
  pure (bytes, { filp with pos := filp.pos + count })

/-- `sys_read` for a regular file or a directory -/
def sysRead
    (sb : SuperBlock)
    (inode : Nat)
    (filp : File)
    (count : Nat) :
    Routine Fs (List UInt8 × File) := do
  let fs ← read
  let size := (fs.inode inode).size
  let count : Int := if size < count + filp.pos then size - filp.pos else count
  if count ≤ 0 then
    pure ([], filp)
  else
    fileRead sb inode filp count.toNat

/-! ## The byte array of a file -/

/-- What the zones of a file say its bytes are. -/
def Fs.contents (fs : Fs) (inode : Nat) : SparseFile where
  size := (fs.inode inode).size
  byte place :=
    if place < maxSize then
      fs.blockAt inode (pathOf (place / blockSize)) (place % blockSize)
    else
      0

/-- The files of the file system; other inodes show nothing. -/
def Fs.files (fs : Fs) (inode : Nat) : SparseFile :=
  if isReg (fs.inode inode).mode || isDir (fs.inode inode).mode then
    fs.contents inode
  else
    .empty

variable {sb : SuperBlock} {fs after : Fs} {inode zone : Nat}
variable {path : List Nat}

theorem block_lt_of_lt_maxSize
    {place : Nat}
    (inside : place < maxSize) :
    place / blockSize < 7 + 512 + 512 * 512 :=
  Nat.div_lt_of_lt_mul (Nat.mul_comm _ _ ▸ inside)

theorem files_of_isFile
    (file : fs.IsFile inode) :
    fs.files inode = fs.contents inode :=
  if_pos file

/-- Two file systems with the same files. -/
theorem files_congr
    (modes : ∀ inode, (after.inode inode).mode = (fs.inode inode).mode)
    (same :
      ∀ inode, fs.IsFile inode → after.contents inode = fs.contents inode) :
    after.files = fs.files := by
  funext inode
  unfold Fs.files
  rw [modes]
  by_cases file :
      (isReg (fs.inode inode).mode || isDir (fs.inode inode).mode) = true
  · rw [if_pos file, if_pos file, same inode file]
  · rw [if_neg file, if_neg file]

/-- Filling slots does not change any file. -/
theorem Extends.files
    (extension : Extends fs after) :
    after.files = fs.files := by
  refine files_congr extension.mode ?_
  intro inode file
  ext place
  · exact extension.size inode
  · unfold Fs.contents
    simp only
    by_cases inside : place < maxSize
    · rw [if_pos inside, if_pos inside,
        extension.contents inode _ file
          (isLeaf_pathOf (block_lt_of_lt_maxSize inside))]
    · rw [if_neg inside, if_neg inside]

/-! ## Storing into a block of a file -/

/-- A block of a file is no indirect block. -/
theorem zoneAt_setData
    {contents : Block}
    {other : Nat} {otherPath : List Nat}
    (consistent : Consistent sb fs)
    (file : fs.IsFile inode)
    (leaf : IsLeaf path)
    (present : fs.zoneAt inode path ≠ 0)
    (slot : fs.Slot other otherPath) :
    (fs.setData (fs.zoneAt inode path) contents).zoneAt other otherPath =
      fs.zoneAt other otherPath := by
  induction otherPath with
  | nil =>
    rfl
  | cons index parent inductionHypothesis =>
    match parent with
    | [] =>
      rfl
    | next :: rest =>
      have parentSlot : fs.Slot other (next :: rest) :=
        ⟨slot.1, slot.2.parent⟩
      change Fs.entry _ (Fs.zoneAt _ other (next :: rest)) index =
        fs.entry (fs.zoneAt other (next :: rest)) index
      rw [inductionHypothesis parentSlot]
      have different :
          fs.zoneAt other (next :: rest) ≠ fs.zoneAt inode path := by
        intro same
        obtain ⟨_, rfl⟩ :=
          consistent.unique _ _ _ _ ⟨file, leaf.isPath⟩ parentSlot
            present same.symm
        exact not_isLeaf_parent slot.2 leaf
      unfold Fs.entry Fs.setData
      simp only [Function.update_of_ne different]

theorem Consistent.setData
    (consistent : Consistent sb fs)
    (contents : Block)
    (file : fs.IsFile inode)
    (leaf : IsLeaf path)
    (present : fs.zoneAt inode path ≠ 0) :
    Consistent sb (fs.setData (fs.zoneAt inode path) contents) :=
  consistent.congr rfl consistent.idle (fun _ => Iff.rfl)
    fun _ _ slot => zoneAt_setData consistent file leaf present slot

/-- The blocks of the files after a store into one of them. -/
theorem blockAt_setData
    {contents : Block}
    {other : Nat} {otherPath : List Nat}
    (consistent : Consistent sb fs)
    (file : fs.IsFile inode)
    (leaf : IsLeaf path)
    (present : fs.zoneAt inode path ≠ 0)
    (slot : fs.Slot other otherPath) :
    (fs.setData (fs.zoneAt inode path) contents).blockAt other otherPath =
      if other = inode ∧ otherPath = path then contents
      else fs.blockAt other otherPath := by
  unfold Fs.blockAt
  rw [zoneAt_setData consistent file leaf present slot]
  by_cases self : other = inode ∧ otherPath = path
  · obtain ⟨rfl, rfl⟩ := self
    rw [if_neg present, if_pos ⟨rfl, rfl⟩]
    simp [Fs.setData]
  · rw [if_neg self]
    by_cases absent : fs.zoneAt other otherPath = 0
    · rw [if_pos absent, if_pos absent]
    · have different :
          fs.zoneAt other otherPath ≠ fs.zoneAt inode path := by
        intro same
        exact self
          (consistent.unique _ _ _ _ slot ⟨file, leaf.isPath⟩ absent same)
      rw [if_neg absent, if_neg absent]
      unfold Fs.setData
      simp only [Function.update_of_ne different]

section GrowSize

variable {pos : Nat}

theorem growSize_mode
    (other : Nat) :
    ((fs.growSize inode pos).inode other).mode =
      (fs.inode other).mode := by
  unfold Fs.growSize
  by_cases larger : (fs.inode inode).size < pos
  · rw [if_pos larger]
    by_cases same : other = inode
    · simp [Fs.setSize, Fs.setInode, same]
    · simp [Fs.setSize, Fs.setInode, same]
  · rw [if_neg larger]

theorem growSize_zone
    (other : Nat) :
    ((fs.growSize inode pos).inode other).zone =
      (fs.inode other).zone := by
  unfold Fs.growSize
  by_cases larger : (fs.inode inode).size < pos
  · rw [if_pos larger]
    by_cases same : other = inode
    · simp [Fs.setSize, Fs.setInode, same]
    · simp [Fs.setSize, Fs.setInode, same]
  · rw [if_neg larger]

theorem growSize_size
    (other : Nat) :
    ((fs.growSize inode pos).inode other).size =
      if other = inode then max (fs.inode inode).size pos
      else (fs.inode other).size := by
  unfold Fs.growSize
  by_cases larger : (fs.inode inode).size < pos
  · rw [if_pos larger]
    by_cases same : other = inode
    · simp [Fs.setSize, Fs.setInode, same, Nat.le_of_lt larger]
    · simp [Fs.setSize, Fs.setInode, same]
  · rw [if_neg larger]
    by_cases same : other = inode
    · simp [same, Nat.not_lt.mp larger]
    · simp [same]

theorem growSize_rest :
    (fs.growSize inode pos).zmap = fs.zmap ∧
      (fs.growSize inode pos).data = fs.data ∧
      (fs.growSize inode pos).count = fs.count := by
  unfold Fs.growSize
  by_cases larger : (fs.inode inode).size < pos
  · rw [if_pos larger]
    exact ⟨rfl, rfl, rfl⟩
  · rw [if_neg larger]
    exact ⟨rfl, rfl, rfl⟩

theorem growSize_setCount
    {block value : Nat} :
    (fs.setCount block value).growSize inode pos =
      (fs.growSize inode pos).setCount block value := by
  have size :
      ((fs.setCount block value).inode inode).size = (fs.inode inode).size :=
    rfl
  unfold Fs.growSize
  rw [size]
  by_cases larger : (fs.inode inode).size < pos
  · rw [if_pos larger, if_pos larger]
    rfl
  · rw [if_neg larger, if_neg larger]

theorem growSize_zoneAt
    {other : Nat} {otherPath : List Nat} :
    (fs.growSize inode pos).zoneAt other otherPath = fs.zoneAt other otherPath :=
  zoneAt_congr (fun index => congrFun (growSize_zone other) index)
    growSize_rest.2.1

theorem growSize_isFile
    (other : Nat) :
    (fs.growSize inode pos).IsFile other ↔ fs.IsFile other := by
  unfold Fs.IsFile
  rw [growSize_mode]

theorem Consistent.growSize
    (consistent : Consistent sb fs) :
    Consistent sb (fs.growSize inode pos) := by
  refine consistent.congr growSize_rest.1 ?_ growSize_isFile
    (fun _ _ _ => growSize_zoneAt)
  rw [growSize_rest.2.2]
  exact consistent.idle

end GrowSize

/-- A store that fits stays in one block. -/
theorem same_block
    {pos place count : Nat}
    (fits : pos % blockSize + count ≤ blockSize)
    (lower : pos ≤ place)
    (upper : place < pos + count) :
    place / blockSize = pos / blockSize := by
  unfold blockSize at *
  omega

/-- The bytes that a store into a block leaves at a position of the file. -/
theorem storeBytes_at
    {pos place : Nat} {bytes : List UInt8} {block : Block}
    (same : place / blockSize = pos / blockSize) :
    storeBytes (pos % blockSize) bytes block (place % blockSize) =
      if pos ≤ place ∧ place < pos + bytes.length then
        bytes.getD (place - pos) 0
      else
        block (place % blockSize) := by
  have splitPlace := Nat.div_add_mod place blockSize
  have splitPos := Nat.div_add_mod pos blockSize
  rw [same] at splitPlace
  unfold storeBytes
  by_cases inside : pos ≤ place ∧ place < pos + bytes.length
  · rw [if_pos inside, if_pos (by omega)]
    congr 1
    omega
  · rw [if_neg inside, if_neg (by omega)]

/-- A change of one file. -/
theorem files_update
    {file' : SparseFile}
    (modes : ∀ other, (after.inode other).mode = (fs.inode other).mode)
    (file : fs.IsFile inode)
    (changed : after.contents inode = file')
    (others :
      ∀ other, other ≠ inode → fs.IsFile other →
        after.contents other = fs.contents other) :
    after.files = Function.update fs.files inode file' := by
  funext other
  by_cases same : other = inode
  · have isFile' : after.IsFile inode := by
      unfold Fs.IsFile
      rw [modes]
      exact file
    rw [same, Function.update_self, files_of_isFile isFile', changed]
  · rw [Function.update_of_ne same]
    unfold Fs.files
    rw [modes]
    by_cases isFile :
        (isReg (fs.inode other).mode || isDir (fs.inode other).mode) = true
    · rw [if_pos isFile, if_pos isFile, others other same isFile]
    · rw [if_neg isFile, if_neg isFile]

theorem files_growSize
    {pos : Nat}
    (file : fs.IsFile inode) :
    (fs.growSize inode pos).files =
      Function.update fs.files inode ((fs.files inode).grow pos) := by
  have blocks :
      ∀ other otherPath,
        (fs.growSize inode pos).blockAt other otherPath =
          fs.blockAt other otherPath := by
    intro other otherPath
    unfold Fs.blockAt
    rw [growSize_zoneAt, growSize_rest.2.1]
  refine files_update growSize_mode file ?_ ?_
  · rw [files_of_isFile file]
    unfold Fs.contents SparseFile.grow
    simp only [blocks, growSize_size, if_true]
  · intro other different _
    unfold Fs.contents
    simp only [blocks, growSize_size, if_neg different]

/-- Bytes stored into one block of a file. -/
theorem files_setData
    {pos : Nat} {bytes : List UInt8}
    (consistent : Consistent sb fs)
    (file : fs.IsFile inode)
    (start : pos < maxSize)
    (inside : pos + bytes.length ≤ maxSize)
    (fits : pos % blockSize + bytes.length ≤ blockSize)
    (present : fs.zoneAt inode (pathOf (pos / blockSize)) ≠ 0) :
    (fs.setData (fs.zoneAt inode (pathOf (pos / blockSize)))
        (storeBytes (pos % blockSize) bytes
          (fs.data (fs.zoneAt inode (pathOf (pos / blockSize)))))).files =
      Function.update fs.files inode
        ((fs.files inode).overwrite pos bytes) := by
  have leaf := isLeaf_pathOf (block_lt_of_lt_maxSize start)
  generalize contents :
    storeBytes (pos % blockSize) bytes
      (fs.data (fs.zoneAt inode (pathOf (pos / blockSize)))) = stored
  have blocks :
      ∀ other place, fs.IsFile other → place < maxSize →
        (fs.setData (fs.zoneAt inode (pathOf (pos / blockSize)))
            stored).blockAt other (pathOf (place / blockSize)) =
          if other = inode ∧
              pathOf (place / blockSize) = pathOf (pos / blockSize) then
            stored
          else
            fs.blockAt other (pathOf (place / blockSize)) := by
    intro other place otherFile low
    exact blockAt_setData consistent file leaf present
      ⟨otherFile, (isLeaf_pathOf (block_lt_of_lt_maxSize low)).isPath⟩
  refine files_update (fun _ => rfl) file ?_ ?_
  · rw [files_of_isFile file]
    unfold Fs.contents SparseFile.overwrite
    ext place
    · rfl
    · simp only
      by_cases low : place < maxSize
      · rw [if_pos low, if_pos low, blocks inode place file low]
        by_cases same : place / blockSize = pos / blockSize
        · rw [if_pos ⟨rfl, by rw [same]⟩, ← contents,
            storeBytes_at same, same]
          unfold Fs.blockAt
          rw [if_neg present]
        · have outside : ¬ (pos ≤ place ∧ place < pos + bytes.length) :=
            fun range => same (same_block fits range.1 range.2)
          rw [if_neg fun both => same (pathOf_inj both.2), if_neg outside]
      · rw [if_neg low, if_neg low, if_neg (by omega)]
  · intro other different otherFile
    unfold Fs.contents
    ext place
    · rfl
    · simp only
      by_cases low : place < maxSize
      · rw [if_pos low, if_pos low, blocks other place otherFile low,
          if_neg fun both => different both.1]
      · rw [if_neg low, if_neg low]

/-- Bytes stored into one block of a file are written to its byte array. -/
theorem files_store
    {pos : Nat} {bytes : List UInt8}
    (consistent : Consistent sb fs)
    (file : fs.IsFile inode)
    (inside : pos + bytes.length ≤ maxSize)
    (notEmpty : bytes ≠ [])
    (fits : pos % blockSize + bytes.length ≤ blockSize)
    (present : fs.zoneAt inode (pathOf (pos / blockSize)) ≠ 0) :
    ((fs.growSize inode (pos + bytes.length)).setData
        (fs.zoneAt inode (pathOf (pos / blockSize)))
        (storeBytes (pos % blockSize) bytes
          (fs.data (fs.zoneAt inode (pathOf (pos / blockSize)))))).files =
      Function.update fs.files inode
        ((fs.files inode).write pos bytes) := by
  have start : pos < maxSize := by
    have nonzero := List.length_pos_iff.mpr notEmpty
    omega
  have consistent' :
      Consistent sb (fs.growSize inode (pos + bytes.length)) :=
    consistent.growSize
  have grown :=
    files_setData consistent' ((growSize_isFile inode).mpr file) start
      inside fits (growSize_zoneAt.trans_ne present)
  rw [growSize_zoneAt, growSize_rest.2.1, files_growSize file,
    Function.update_self, Function.update_idem] at grown
  rw [grown, SparseFile.write_of_ne_nil notEmpty]

end Zones

end HitOs
