import HitOs.DeviceErrors
import HitOs.Machine
import HitOs.MachineInts
import HitOs.MissingZones
import HitOs.OpenFiles

namespace HitOs

/-!
# File positions

`sys_lseek`, `sys_read` and `sys_write` with the signed arithmetic of positions:
which runs of these calls keep to the blocks that `_bmap` can number.
-/

namespace FileOffsets

open Routine Zones DeviceErrors
open Files (nrOpen ebadf einval major isSeekable)

/-- `struct file` of a regular file -/
structure OpenFile where
  inode : Nat
  append : Bool
  pos : Int
  deriving Repr, DecidableEq

/-- The open files of a process, in a mounted file system. -/
structure Session where
  fs : Fs
  filp : Nat → Option Nat
  file : Nat → OpenFile

def Session.setFs (fs : Fs) (session : Session) : Session :=
  { session with fs := fs }

def Session.setFile
    (index : Nat)
    (file : OpenFile)
    (session : Session) : Session :=
  { session with file := Function.update session.file index file }

/-- The entry of the file table that a descriptor stands for. -/
def Session.opened (session : Session) (fd : Nat) : Option Nat :=
  if fd < nrOpen then session.filp fd else none

/-! ## Bytes at signed positions -/

/-- What lies before the data of a buffer: the position of the data decides that. -/
structure Neighbours where
  load : Fs → Nat → Int → UInt8
  store : Nat → Int → List UInt8 → Fs → Fs

section Calls

variable (near : Neighbours) (sb : SuperBlock) (dev : Nat)
variable (readable : Int → Nat → Bool)

/--
The loop of `file_write`.  What the device can read is given for each turn by the
position of the turn.
-/
def fileWriteLoop
    (inode : Nat)
    (pos : Int)
    (buf : List UInt8) :
    Routine Fs (Int × List UInt8) := do
  if _ : buf = [] then
    pure (pos, buf)
  else
    let block ←
      bmapOrCreate (readable pos) sb inode (pos.tdiv blockSize) true
    if block = 0 then
      pure (pos, buf)
    else if !readable pos block then
      pure (pos, buf)
    else
      bread block
      let offset := pos.tmod blockSize
      let c := min (blockSize - offset).toNat buf.length
      update (Fs.growSize inode (unsigned32 (pos + c)))
      let fs ← read
      update
        (if 0 ≤ offset then
          Fs.setData block
            (storeBytes offset.toNat (buf.take c) (fs.data block))
        else
          near.store block offset (buf.take c))
      brelse block
      fileWriteLoop inode (pos + c) (buf.drop c)
termination_by buf.length
decreasing_by
  have nonzero : 0 < buf.length := List.length_pos_iff.mpr ‹_›
  have rest : pos.tmod blockSize < blockSize :=
    Int.tmod_lt_of_pos pos (by decide)
  rw [List.length_drop]
  omega

/-- The position at which `file_write` starts. -/
def OpenFile.start (file : OpenFile) (fs : Fs) : Int :=
  if file.append then int32 (fs.inode file.inode).size else file.pos

/-- `file_write` -/
def fileWrite
    (filp : OpenFile)
    (buf : List UInt8) :
    Routine Fs (Int × OpenFile) := do
  let fs ← read
  let (pos, rest) ←
    fileWriteLoop near sb readable filp.inode (filp.start fs) buf
  pure (written (buf.length - rest.length),
    if filp.append then filp else { filp with pos := pos })

/-- The loop of `file_read`, with the position after it. -/
def fileReadLoop
    (inode : Nat)
    (pos : Int)
    (left : Nat) :
    Routine Fs (Int × List UInt8) := do
  if _ : left = 0 then
    pure (pos, [])
  else
    let nr ←
      bmapOrCreate (readable pos) sb inode (pos.tdiv blockSize) false
    let offset := pos.tmod blockSize
    let chars := min (blockSize - offset).toNat left
    if nr = 0 then
      let (last, rest) ← fileReadLoop inode (pos + chars) (left - chars)
      pure (last, List.replicate chars 0 ++ rest)
    else if !readable pos nr then
      pure (pos, [])
    else
      bread nr
      let fs ← read
      let bytes :=
        (List.range chars).map fun (index : Nat) =>
          if 0 ≤ offset + index then
            fs.data nr (offset + index).toNat
          else
            near.load fs nr (offset + index)
      brelse nr
      let (last, rest) ← fileReadLoop inode (pos + chars) (left - chars)
      pure (last, bytes ++ rest)
termination_by left
decreasing_by
  all_goals
    have rest : pos.tmod blockSize < blockSize :=
      Int.tmod_lt_of_pos pos (by decide)
    omega

/-- `(count-left)?(count-left):-ERROR`, where `ERROR` is 99 -/
def gotten (bytes : List UInt8) : Int :=
  if bytes = [] then -99 else bytes.length

/-- `file_read` -/
def fileRead
    (filp : OpenFile)
    (count : Nat) :
    Routine Fs (List UInt8 × OpenFile) := do
  let (pos, bytes) ←
    fileReadLoop near sb readable filp.inode filp.pos count
  pure (bytes, { filp with pos := pos })

/-! ## The system calls -/

/-- A new position, unless it would be negative. -/
def setPos (index : Nat) (pos : Int) : Routine Session Int :=
  if pos < 0 then
    pure (-einval)
  else do
    let session ← read
    update (Session.setFile index { session.file index with pos := pos })
    pure pos

/-- `sys_lseek` -/
def sysLseek (fd : Nat) (offset : Int) (origin : Nat) : Routine Session Int := do
  let session ← read
  match session.opened fd with
  | none => pure (-ebadf)
  | some index =>
    if !isSeekable (major dev) then
      pure (-ebadf)
    else
      match origin with
      | 0 => setPos index offset
      | 1 => setPos index (int32 ((session.file index).pos + offset))
      | 2 =>
        setPos index
          (int32
            ((session.fs.inode (session.file index).inode).size + offset))
      | _ => pure (-einval)

/-- The count of a read, clipped by `i_size`. -/
def OpenFile.clipped (file : OpenFile) (fs : Fs) (count : Int) : Int :=
  if (fs.inode file.inode).size < unsigned32 (count + file.pos) then
    int32 ((fs.inode file.inode).size - file.pos)
  else
    count

/-- A routine of the file system, for an open file. -/
def onFile
    {α : Type}
    (index : Nat)
    (routine : OpenFile → Routine Fs (α × OpenFile)) :
    Routine Session α := do
  let session ← read
  let (value, file) ←
    zoom Session.fs Session.setFs (routine (session.file index))
  update (Session.setFile index file)
  pure value

/-- `sys_read`, with the bytes that it puts into the buffer of the user -/
def sysRead (fd : Nat) (count : Int) : Routine Session (Int × List UInt8) := do
  let session ← read
  match if count < 0 then none else session.opened fd with
  | none => pure (-einval, [])
  | some index =>
    if count = 0 then
      pure (0, [])
    else
      let count := (session.file index).clipped session.fs count
      if count ≤ 0 then
        pure (0, [])
      else
        let bytes ←
          onFile index fun filp =>
            fileRead near sb readable filp count.toNat
        pure (gotten bytes, bytes)

/-- `sys_write` of the bytes at an address of the user -/
def sysWrite
    (fd : Nat)
    (bytes : Nat → UInt8)
    (count : Int) : Routine Session Int := do
  let session ← read
  match if count < 0 then none else session.opened fd with
  | none => pure (-einval)
  | some index =>
    if count = 0 then
      pure 0
    else
      onFile index fun filp =>
        fileWrite near sb readable filp ((List.range count.toNat).map bytes)

end Calls

/-! ## What the calls leave alone -/

variable {near : Neighbours} {sb : SuperBlock} {fs middle after : Fs}
variable {readable : Int → Nat → Bool} {inode : Nat}

/-- A position that is not negative. -/
def IsPosition (pos : Int) : Prop :=
  0 ≤ pos ∧ Fits pos

theorem IsPosition.of_le_maxSize
    {pos : Int}
    (lower : 0 ≤ pos)
    (upper : pos ≤ maxSize) :
    IsPosition pos := by
  have small : (maxSize : Int) < 2 ^ 31 := by
    decide
  exact ⟨lower, by omega, by omega⟩

/-- Inodes keep their modes, and grow up to the limit of `_bmap` only. -/
structure Kept (sb : SuperBlock) (fs after : Fs) : Prop where
  consistent :
    Consistent sb after
  mode :
    ∀ other, (after.inode other).mode = (fs.inode other).mode
  size :
    ∀ other, (after.inode other).size ≤ max (fs.inode other).size maxSize

theorem Kept.refl
    (consistent : Consistent sb fs) :
    Kept sb fs fs :=
  ⟨consistent, fun _ => rfl, fun _ => Nat.le_max_left _ _⟩

theorem Kept.trans
    (head : Kept sb fs middle)
    (rest : Kept sb middle after) :
    Kept sb fs after where
  consistent := rest.consistent
  mode other := (rest.mode other).trans (head.mode other)
  size other :=
    (rest.size other).trans
      (Nat.max_le.mpr ⟨head.size other, Nat.le_max_right _ _⟩)

theorem Kept.isFile
    (kept : Kept sb fs after) :
    after.IsFile inode ↔ fs.IsFile inode := by
  unfold Fs.IsFile
  rw [kept.mode]

theorem Kept.of_extends
    (consistent : Consistent sb after)
    (extension : Extends fs after) :
    Kept sb fs after where
  consistent := consistent
  mode := extension.mode
  size other := by
    rw [extension.size]
    exact Nat.le_max_left _ _

theorem Kept.of_mapped
    {path : List Nat} {create : Bool} {zone : Nat}
    (mapped : Mapped sb fs inode path create zone after) :
    Kept sb fs after :=
  .of_extends mapped.consistent mapped.extension

theorem writeTurn_size
    {pos zone : Nat} {bytes : List UInt8}
    (other : Nat) :
    ((middle.writeTurn inode pos zone bytes).inode other).size =
      if other = inode then max (middle.inode inode).size (pos + bytes.length)
      else (middle.inode other).size :=
  growSize_size other

/-- A turn of the loop of `file_write` that has found a zone. -/
theorem Kept.writeTurn
    {pos zone : Nat} {buf : List UInt8}
    (mapped :
      Mapped sb fs inode (pathOf (pos / blockSize)) true zone middle)
    (file : fs.IsFile inode)
    (present : zone ≠ 0)
    (notEmpty : buf ≠ [])
    (start : pos < maxSize) :
    Kept sb fs
      (middle.writeTurn inode pos zone
        (buf.take (turnSize pos buf.length))) := by
  have lengths := length_take_turnSize pos buf
  have positive : 0 < turnSize pos buf.length :=
    turnSize_pos (List.length_pos_iff.mpr notEmpty)
  have remainder : pos % blockSize < blockSize :=
    Nat.mod_lt pos (by decide)
  have fits : pos % blockSize + turnSize pos buf.length ≤ blockSize := by
    unfold turnSize
    omega
  have inside : pos + turnSize pos buf.length ≤ maxSize := by
    unfold maxSize at start ⊢
    unfold blockSize at *
    omega
  have wrote :
      Wrote sb fs inode pos _ _
        (middle.writeTurn inode pos zone
          (buf.take (turnSize pos buf.length))) :=
    wrote_turn mapped file present
      (by rw [← List.length_pos_iff, lengths]; exact positive)
      (by rw [lengths]; exact fits) (by rw [lengths]; exact inside)
  refine ⟨wrote.consistent, wrote.mode, ?_⟩
  intro other
  rw [writeTurn_size, lengths, mapped.extension.size, mapped.extension.size]
  by_cases same : other = inode
  · rw [if_pos same, same]
    omega
  · rw [if_neg same]
    exact Nat.le_max_left _ _

theorem natCast_tmod
    (pos : Nat) :
    (pos : Int).tmod blockSize = (pos % blockSize : Nat) :=
  (Int.ofNat_tmod pos blockSize).symm

/-- One turn of the loop that gets its zone. -/
theorem fileWriteLoop_of_some
    {pos zone : Nat} {buf : List UInt8}
    (notEmpty : buf ≠ [])
    (present : zone ≠ 0)
    (delivered : readable pos zone = true)
    (start : pos < maxSize)
    (created :
      bmapOrCreate (readable pos) sb inode (pos / blockSize : Nat) true fs =
        .ret zone middle) :
    fileWriteLoop near sb readable inode pos buf fs =
      fileWriteLoop near sb readable inode
        (pos + turnSize pos buf.length : Nat)
        (buf.drop (turnSize pos buf.length))
        (middle.writeTurn inode pos zone
          (buf.take (turnSize pos buf.length))) := by
  rw [fileWriteLoop, dif_neg notEmpty, ← Int.ofNat_tdiv,
    bind_of_ret created, if_neg present, delivered, Bool.not_true,
    if_neg Bool.false_ne_true]
  have size :
      min ((blockSize : Int) - (pos : Int).tmod blockSize).toNat buf.length =
        turnSize pos buf.length := by
    rw [natCast_tmod]
    unfold turnSize
    omega
  have inside : pos + turnSize pos buf.length < 2 ^ 32 := by
    unfold turnSize
    unfold maxSize blockSize at *
    omega
  have position :
      unsigned32 (pos + turnSize pos buf.length : Nat) =
        pos + turnSize pos buf.length := by
    unfold unsigned32
    omega
  simp only
  rw [size, natCast_tmod, ← Int.natCast_add, position]
  simp only [Int.natCast_nonneg, if_true, Int.toNat_natCast]
  exact writeTurn_eq _ (turnSize_le pos buf.length)

/--
What the device cannot read ends a write earlier, so it gets no further than the
same write with a perfect device.
-/
theorem satisfies_fileWriteLoop
    {pos last : Nat} {buf rest : List UInt8}
    (consistent : Consistent sb fs)
    (file : fs.IsFile inode)
    (inside : last ≤ maxSize)
    (returned :
      Zones.fileWriteLoop sb inode pos buf fs = .ret (last, rest) after) :
    (fileWriteLoop near sb readable inode pos buf).Satisfies fs
      (fun result after =>
        0 ≤ result.1 ∧ result.1 ≤ maxSize ∧ Kept sb fs after)
      (fun _ => False) := by
  induction length : buf.length using Nat.strong_induction_on
    generalizing fs pos buf with
  | _ count inductionHypothesis =>
    by_cases empty : buf = []
    · rw [Zones.fileWriteLoop, dif_pos empty] at returned
      cases returned
      rw [fileWriteLoop, dif_pos empty, satisfies_pure]
      exact ⟨Int.natCast_nonneg last, Int.ofNat_le.mpr inside, .refl consistent⟩
    · have nonzero := List.length_pos_iff.mpr empty
      have start : pos < maxSize := by
        by_contra far
        rw [Zones.fileWriteLoop, dif_neg empty,
          createBlock_of_big
            ((Nat.le_div_iff_mul_le (by decide)).mpr
              (Nat.not_lt.mp far))] at returned
        change Outcome.panic _ = _ at returned
        cases returned
      have stops :
          ∀ {after : Fs}, Kept sb fs after →
            0 ≤ (pos : Int) ∧ (pos : Int) ≤ maxSize ∧ Kept sb fs after :=
        fun kept =>
          ⟨Int.natCast_nonneg pos, Int.ofNat_le.mpr (Nat.le_of_lt start), kept⟩
      have inRange := block_lt_of_lt_maxSize start
      have creates :
          (createBlock sb inode (pos / blockSize)).Satisfies fs
            (Mapped sb fs inode (pathOf (pos / blockSize)) true)
            (fun _ => False) :=
        satisfies_bmapOrCreate consistent file inRange
      obtain ⟨zone, middle, created, mapped⟩ := creates.returns
      have ends :
          bmapOrCreate (readable pos) sb inode (pos / blockSize : Nat)
              true fs = createBlock sb inode (pos / blockSize) fs ∨ _ :=
        bmapOrCreate_cases consistent file inRange
      unfold Satisfies
      rcases ends with same | ⟨middle, gave, consistent', extension, _⟩
      · rw [created] at same
        by_cases absent : zone = 0
        · rw [fileWriteLoop, dif_neg empty, ← Int.ofNat_tdiv,
            bind_of_ret same, if_pos absent]
          exact stops (.of_mapped mapped)
        · by_cases delivered : readable pos zone = true
          · rw [fileWriteLoop_of_some empty absent delivered start same]
            rw [Zones.fileWriteLoop_of_some empty absent created] at returned
            have turn := Kept.writeTurn mapped file absent empty start
            have positive : 0 < turnSize pos buf.length :=
              turnSize_pos nonzero
            have left :
                (buf.drop (turnSize pos buf.length)).length =
                  buf.length - turnSize pos buf.length :=
              List.length_drop
            refine (inductionHypothesis _ (by omega) turn.consistent
              (turn.isFile.mpr file) returned rfl).mono ?_ (fun _ => id)
            rintro result last ⟨lower, upper, kept⟩
            exact ⟨lower, upper, turn.trans kept⟩
          · rw [Bool.not_eq_true] at delivered
            rw [fileWriteLoop, dif_neg empty, ← Int.ofNat_tdiv,
              bind_of_ret same, if_neg absent, delivered, Bool.not_false,
              if_pos rfl]
            exact stops (.of_mapped mapped)
      · rw [fileWriteLoop, dif_neg empty, ← Int.ofNat_tdiv,
          bind_of_ret gave, if_pos rfl]
        exact stops (.of_extends consistent' extension)

/-- A write that stays before the limit of `_bmap`. -/
theorem satisfies_fileWrite
    {filp : OpenFile} {buf : List UInt8}
    (consistent : Consistent sb fs)
    (file : fs.IsFile filp.inode)
    (position : IsPosition filp.pos)
    (start : 0 ≤ filp.start fs)
    (stays : Stays sb fs filp.inode (filp.start fs).toNat buf.length) :
    (fileWrite near sb readable filp buf).Satisfies fs
      (fun result after =>
        result.2.inode = filp.inode ∧ IsPosition result.2.pos ∧ Kept sb fs after)
      (fun _ => False) := by
  obtain ⟨_, last, returned, taken, rfl, inside, _⟩ :=
    (satisfies_fileWriteLoop_of_stays consistent file stays).returns
  have loop :
      (fileWriteLoop near sb readable filp.inode (filp.start fs).toNat
        buf).Satisfies fs _ _ :=
    satisfies_fileWriteLoop consistent file inside returned
  rw [Int.toNat_of_nonneg start] at loop
  unfold fileWrite
  rw [satisfies_bind, satisfies_read]
  refine loop.andThen ?_
  rintro ⟨pos, rest⟩ after ⟨lower, upper, kept⟩
  rw [satisfies_pure]
  by_cases appends : filp.append = true
  · rw [if_pos appends]
    exact ⟨rfl, position, kept⟩
  · rw [if_neg appends]
    exact ⟨rfl, .of_le_maxSize lower upper, kept⟩

/-- The loop of `file_read` changes nothing but the position. -/
theorem satisfies_fileReadLoop
    {pos left : Nat}
    (consistent : Consistent sb fs)
    (file : fs.IsFile inode)
    (inside : pos + left ≤ maxSize) :
    (fileReadLoop near sb readable inode pos left).Satisfies fs
      (fun result after =>
        0 ≤ result.1 ∧ result.1 ≤ maxSize ∧ after = fs)
      (fun _ => False) := by
  induction left using Nat.strong_induction_on generalizing pos with
  | _ left inductionHypothesis =>
    rw [fileReadLoop]
    by_cases nothing : left = 0
    · rw [dif_pos nothing, satisfies_pure]
      exact ⟨Int.natCast_nonneg pos, by omega, rfl⟩
    · rw [dif_neg nothing, ← Int.ofNat_tdiv]
      have inRange :=
        block_lt_of_lt_maxSize (show pos < maxSize by omega)
      have finds :
          ∃ nr,
            bmapOrCreate (readable pos) sb inode (pos / blockSize : Nat)
              false fs = .ret nr fs := by
        have ends :
            bmapOrCreate (readable pos) sb inode (pos / blockSize : Nat)
                false fs = bmap sb inode (pos / blockSize) fs ∨ _ :=
          bmapOrCreate_cases consistent file inRange
        rcases ends with same | ⟨after, gave, _, _, unchanged⟩
        · obtain ⟨nr, after, found, _, rfl⟩ :=
            (satisfies_bmap consistent file inRange).returns
          exact ⟨nr, same.trans found⟩
        · rw [unchanged rfl] at gave
          exact ⟨0, gave⟩
      obtain ⟨nr, found⟩ := finds
      rw [satisfies_bind_of_ret found]
      simp only
      rw [natCast_tmod]
      generalize chosen :
        min ((blockSize : Int) - (pos % blockSize : Nat)).toNat left = chars
      have remainder : pos % blockSize < blockSize :=
        Nat.mod_lt pos (by decide)
      have next :=
        inductionHypothesis (left - chars) (by omega)
          (show pos + chars + (left - chars) ≤ maxSize by omega)
      rw [Int.natCast_add] at next
      by_cases hole : nr = 0
      · rw [if_pos hole]
        refine next.andThen ?_
        rintro ⟨last, rest⟩ _ ⟨lower, upper, rfl⟩
        exact ⟨lower, upper, rfl⟩
      · rw [if_neg hole]
        by_cases delivered : readable pos nr = true
        · rw [delivered, Bool.not_true, if_neg Bool.false_ne_true, bread,
            satisfies_bind, satisfies_update, satisfies_bind,
            satisfies_read]
          have held :
              (fs.setCount nr (fs.count nr + 1)).count nr = fs.count nr + 1 :=
            setCount_count _
          rw [satisfies_bind_of_ret (brelse_of_succ held), setCount_back _ rfl]
          refine next.andThen ?_
          rintro ⟨last, rest⟩ _ ⟨lower, upper, rfl⟩
          exact ⟨lower, upper, rfl⟩
        · rw [Bool.not_eq_true] at delivered
          rw [delivered, Bool.not_false, if_pos rfl, satisfies_pure]
          exact ⟨Int.natCast_nonneg pos, by omega, rfl⟩

theorem satisfies_fileRead
    {filp : OpenFile} {count : Nat}
    (consistent : Consistent sb fs)
    (file : fs.IsFile filp.inode)
    (position : IsPosition filp.pos)
    (inside : filp.pos + count ≤ maxSize) :
    (fileRead near sb readable filp count).Satisfies fs
      (fun result after =>
        result.2.inode = filp.inode ∧ IsPosition result.2.pos ∧ Kept sb fs after)
      (fun _ => False) := by
  have loop :
      (fileReadLoop near sb readable filp.inode filp.pos.toNat
        count).Satisfies fs _ _ :=
    satisfies_fileReadLoop consistent file
      (by have := position.1; omega)
  rw [Int.toNat_of_nonneg position.1] at loop
  unfold fileRead
  refine loop.andThen ?_
  rintro ⟨pos, bytes⟩ _ ⟨lower, upper, rfl⟩
  rw [satisfies_pure]
  exact ⟨rfl, .of_le_maxSize lower upper, .refl consistent⟩

end FileOffsets

end HitOs
