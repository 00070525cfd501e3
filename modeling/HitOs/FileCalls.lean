import HitOs.FileData
import HitOs.Truncation

namespace HitOs

/-!
# What the file calls do to byte arrays
-/

namespace Zones

open Routine

variable {sb : SuperBlock} {fs middle after : Fs} {inode : Nat}

/-- Bytes have been written, all of them unless the zones ran out. -/
structure Wrote
    (sb : SuperBlock)
    (fs : Fs)
    (inode pos : Nat)
    (buf : List UInt8)
    (taken : Nat)
    (after : Fs) : Prop where
  consistent :
    Consistent sb after
  mode :
    ∀ other, (after.inode other).mode = (fs.inode other).mode
  count :
    after.count = fs.count
  taken_le :
    taken ≤ buf.length
  files :
    after.files =
      Function.update fs.files inode
        ((fs.files inode).write pos (buf.take taken))
  all :
    taken < buf.length → after.Full sb

/-- Nothing has been written. -/
theorem Wrote.nothing
    {pos : Nat} {buf : List UInt8}
    (consistent : Consistent sb after)
    (extension : Extends fs after)
    (all : 0 < buf.length → after.Full sb) :
    Wrote sb fs inode pos buf 0 after where
  consistent := consistent
  mode := extension.mode
  count := extension.count
  taken_le := Nat.zero_le _
  files := by
    rw [List.take_zero, SparseFile.write_nil, Function.update_eq_self]
    exact extension.files
  all := all

/-- One turn of the loop, and the turns after it. -/
theorem Wrote.andThen
    {pos first taken : Nat} {buf : List UInt8}
    (wrote : Wrote sb fs inode pos (buf.take first) first middle)
    (lower : first ≤ buf.length)
    (rest :
      Wrote sb middle inode (pos + first) (buf.drop first) taken after) :
    Wrote sb fs inode pos buf (first + taken) after where
  consistent := rest.consistent
  mode other := (rest.mode other).trans (wrote.mode other)
  count := rest.count.trans wrote.count
  taken_le := by
    have bound := rest.taken_le
    rw [List.length_drop] at bound
    omega
  files := by
    have lengths : (buf.take first).length = first := by
      rw [List.length_take]
      exact Nat.min_eq_left lower
    rw [rest.files, wrote.files, Function.update_self,
      Function.update_idem, List.take_add, SparseFile.write_append,
      lengths, List.take_take, Nat.min_self]
  all short := by
    apply rest.all
    rw [List.length_drop]
    omega

/-- One turn of the loop that found a zone. -/
theorem wrote_turn
    {pos zone : Nat} {bytes : List UInt8}
    (mapped :
      Mapped sb fs inode (pathOf (pos / blockSize)) true zone middle)
    (file : fs.IsFile inode)
    (present : zone ≠ 0)
    (notEmpty : bytes ≠ [])
    (fits : pos % blockSize + bytes.length ≤ blockSize)
    (inside : pos + bytes.length ≤ maxSize) :
    Wrote sb fs inode pos bytes bytes.length
      ((middle.growSize inode (pos + bytes.length)).setData zone
        (storeBytes (pos % blockSize) bytes (middle.data zone))) := by
  have start : pos < maxSize := by
    have nonzero := List.length_pos_iff.mpr notEmpty
    omega
  have leaf := isLeaf_pathOf (block_lt_of_lt_maxSize start)
  have file' : middle.IsFile inode :=
    mapped.extension.isFile.mpr file
  have zone_eq := mapped.zone_eq
  subst zone_eq
  have consistent :
      Consistent sb (middle.growSize inode (pos + bytes.length)) :=
    mapped.consistent.growSize
  have grownFile :
      (middle.growSize inode (pos + bytes.length)).IsFile inode :=
    (growSize_isFile inode).mpr file'
  constructor
  case consistent =>
    have stored :=
      consistent.setData
        (storeBytes (pos % blockSize) bytes
          (middle.data (middle.zoneAt inode (pathOf (pos / blockSize)))))
        grownFile leaf (growSize_zoneAt.trans_ne present)
    rwa [growSize_zoneAt] at stored
  case mode =>
    exact fun other =>
      (growSize_mode other).trans (mapped.extension.mode other)
  case count =>
    exact growSize_rest.2.2.trans mapped.extension.count
  case taken_le =>
    exact Nat.le_refl _
  case files =>
    rw [files_store mapped.consistent file' inside notEmpty fits present,
      mapped.extension.files, List.take_length]
  case all =>
    exact fun short => absurd short (Nat.lt_irrefl _)

/-- What one turn of the loop of `file_write` stores, in a zone that it has found. -/
def Fs.writeTurn
    (fs : Fs)
    (inode pos zone : Nat)
    (bytes : List UInt8) : Fs :=
  (fs.growSize inode (pos + bytes.length)).setData zone
    (storeBytes (pos % blockSize) bytes (fs.data zone))

/-- The number of bytes that one turn writes. -/
def turnSize (pos left : Nat) : Nat :=
  min (blockSize - pos % blockSize) left

theorem turnSize_pos
    {pos left : Nat}
    (nonzero : 0 < left) :
    0 < turnSize pos left := by
  have remainder : pos % blockSize < blockSize :=
    Nat.mod_lt pos (by decide)
  unfold turnSize
  omega

theorem turnSize_le (pos left : Nat) :
    turnSize pos left ≤ left :=
  Nat.min_le_right _ _

theorem length_take_turnSize
    (pos : Nat)
    (buf : List UInt8) :
    (buf.take (turnSize pos buf.length)).length =
      turnSize pos buf.length := by
  rw [List.length_take]
  exact Nat.min_eq_left (turnSize_le pos buf.length)

/-- The loop stops where there is no zone. -/
theorem fileWriteLoop_of_none
    {pos : Nat} {buf : List UInt8}
    (notEmpty : buf ≠ [])
    (created :
      createBlock sb inode (pos / blockSize) fs = .ret 0 middle) :
    fileWriteLoop sb inode pos buf fs = .ret (pos, buf) middle := by
  rw [fileWriteLoop, dif_neg notEmpty, bind_of_ret created, if_pos rfl]
  rfl

/-- What the statements of one turn do, from the `bread` of a zone that it has found. -/
theorem writeTurn_eq
    {β : Type}
    {pos zone c : Nat} {buf : List UInt8}
    (next : Routine Fs β)
    (few : c ≤ buf.length) :
    (do
      bread zone
      update (Fs.growSize inode (pos + c))
      let fs ← read
      update (Fs.setData zone
        (storeBytes (pos % blockSize) (buf.take c) (fs.data zone)))
      brelse zone
      next) middle =
      next (middle.writeTurn inode pos zone (buf.take c)) := by
  have lengths : (buf.take c).length = c := by
    rw [List.length_take]
    exact Nat.min_eq_left few
  have holds :
      bread zone middle = .ret () (middle.setCount zone (middle.count zone + 1)) := rfl
  rw [bind_of_ret holds]
  unfold Fs.writeTurn
  rw [lengths]
  have grows :
      (update (Fs.growSize inode (pos + c)))
          (middle.setCount zone (middle.count zone + 1)) =
        .ret ()
          ((middle.growSize inode (pos + c)).setCount zone
            (middle.count zone + 1)) := by
    rw [← growSize_setCount]
    rfl
  rw [bind_of_ret grows]
  have held :
      (((middle.growSize inode (pos + c)).setCount zone
          (middle.count zone + 1)).setData zone
        (storeBytes (pos % blockSize) (buf.take c)
          (((middle.growSize inode (pos + c)).setCount zone
            (middle.count zone + 1)).data zone))).count zone =
        middle.count zone + 1 :=
    setCount_count _
  have data :
      ((middle.growSize inode (pos + c)).setCount zone
        (middle.count zone + 1)).data = middle.data :=
    growSize_rest.2.1
  have unheld :
      ((middle.growSize inode (pos + c)).setData zone
        (storeBytes (pos % blockSize) (buf.take c)
          (middle.data zone))).count zone = middle.count zone :=
    congrFun growSize_rest.2.2 zone
  have back :
      ((((middle.growSize inode (pos + c)).setCount zone
        (middle.count zone + 1)).setData zone
          (storeBytes (pos % blockSize) (buf.take c)
            (middle.data zone)))).setCount zone
        (middle.count zone) =
      (middle.growSize inode (pos + c)).setData zone
        (storeBytes (pos % blockSize) (buf.take c)
          (middle.data zone)) :=
    setCount_back _ unheld
  have releases := brelse_of_succ held
  rw [data, back] at releases
  have reads :
      (read : Routine Fs Fs)
          ((middle.growSize inode (pos + c)).setCount zone
            (middle.count zone + 1)) =
        .ret _ _ := rfl
  rw [bind_of_ret reads, data]
  have stores :
      (update (Fs.setData zone
          (storeBytes (pos % blockSize) (buf.take c) (middle.data zone))))
          ((middle.growSize inode (pos + c)).setCount zone
            (middle.count zone + 1)) =
        .ret () _ := rfl
  rw [bind_of_ret stores, bind_of_ret releases]

/-- The loop goes on where there is a zone. -/
theorem fileWriteLoop_of_some
    {pos zone : Nat} {buf : List UInt8}
    (notEmpty : buf ≠ [])
    (present : zone ≠ 0)
    (created :
      createBlock sb inode (pos / blockSize) fs = .ret zone middle) :
    fileWriteLoop sb inode pos buf fs =
      fileWriteLoop sb inode (pos + turnSize pos buf.length)
        (buf.drop (turnSize pos buf.length))
        (middle.writeTurn inode pos zone
          (buf.take (turnSize pos buf.length))) := by
  rw [fileWriteLoop, dif_neg notEmpty, bind_of_ret created, if_neg present]
  exact writeTurn_eq _ (turnSize_le pos buf.length)

/-- The loop of `file_write`. -/
theorem satisfies_fileWriteLoop
    {pos : Nat} {buf : List UInt8}
    (consistent : Consistent sb fs)
    (file : fs.IsFile inode)
    (inside : pos + buf.length ≤ maxSize) :
    (fileWriteLoop sb inode pos buf).Satisfies fs
      (fun result after =>
        ∃ taken, result = (pos + taken, buf.drop taken) ∧
          Wrote sb fs inode pos buf taken after)
      (fun _ => False) := by
  induction length : buf.length using Nat.strong_induction_on
    generalizing fs pos buf with
  | _ count inductionHypothesis =>
    by_cases empty : buf = []
    · rw [fileWriteLoop, dif_pos empty, satisfies_pure]
      refine ⟨0, rfl, .nothing consistent .refl ?_⟩
      rw [empty]
      exact fun impossible => absurd impossible (Nat.lt_irrefl 0)
    · have nonzero := List.length_pos_iff.mpr empty
      have start : pos < maxSize := by
        omega
      have creates :
          (createBlock sb inode (pos / blockSize)).Satisfies fs
            (Mapped sb fs inode (pathOf (pos / blockSize)) true)
            (fun _ => False) :=
        satisfies_bmapOrCreate consistent file
          (block_lt_of_lt_maxSize start)
      obtain ⟨zone, middle, created, mapped⟩ := creates.returns
      unfold Satisfies
      by_cases absent : zone = 0
      · subst absent
        rw [fileWriteLoop_of_none empty created]
        exact ⟨0, rfl, .nothing mapped.consistent mapped.extension
          fun _ => mapped.full rfl rfl⟩
      · rw [fileWriteLoop_of_some empty absent created]
        have positive : 0 < turnSize pos buf.length := turnSize_pos nonzero
        have few := turnSize_le pos buf.length
        have lengths := length_take_turnSize pos buf
        have notEmpty : buf.take (turnSize pos buf.length) ≠ [] := by
          rw [← List.length_pos_iff, lengths]
          exact positive
        have remainder : pos % blockSize < blockSize :=
          Nat.mod_lt pos (by decide)
        have turn :
            Wrote sb fs inode pos _ _
              (middle.writeTurn inode pos zone
                (buf.take (turnSize pos buf.length))) :=
          wrote_turn mapped file absent notEmpty
            (by rw [lengths]; unfold turnSize; omega)
            (by rw [lengths]; omega)
        rw [lengths] at turn
        have file' :
            (middle.writeTurn inode pos zone
              (buf.take (turnSize pos buf.length))).IsFile inode := by
          unfold Fs.IsFile
          rw [turn.mode]
          exact file
        have left :
            (buf.drop (turnSize pos buf.length)).length =
              buf.length - turnSize pos buf.length :=
          List.length_drop
        refine (inductionHypothesis _ (by omega) turn.consistent file'
          (by omega) rfl).mono ?_ (fun _ => id)
        rintro _ last ⟨taken, rfl, wrote⟩
        refine ⟨turnSize pos buf.length + taken, ?_, turn.andThen few wrote⟩
        rw [Nat.add_assoc, List.drop_drop]

/-- `file_write` writes a front part of the bytes, from the position on. -/
theorem satisfies_fileWrite
    {filp : File} {buf : List UInt8} {start : Nat}
    (consistent : Consistent sb fs)
    (file : fs.IsFile inode)
    (starts :
      start = if filp.append then (fs.inode inode).size else filp.pos)
    (inside : start + buf.length ≤ maxSize) :
    (fileWrite sb inode filp buf).Satisfies fs
      (fun result after =>
        ∃ taken,
          result =
            (written taken,
              if filp.append then filp
              else { filp with pos := start + taken }) ∧
          Wrote sb fs inode start buf taken after)
      (fun _ => False) := by
  unfold fileWrite
  rw [satisfies_bind, satisfies_read, ← starts]
  refine (satisfies_fileWriteLoop consistent file inside).andThen ?_
  rintro _ after ⟨taken, rfl, wrote⟩
  have count : buf.length - (buf.drop taken).length = taken := by
    have bound := wrote.taken_le
    rw [List.length_drop]
    omega
  rw [satisfies_pure]
  exact ⟨taken, by rw [count], wrote⟩

/-! ## Reading -/

/-- The bytes of one block of a file. -/
theorem slice_block
    {pos chars : Nat}
    (file : fs.IsFile inode)
    (fits : pos % blockSize + chars ≤ blockSize)
    (inside : pos + chars ≤ maxSize) :
    (fs.files inode).slice pos chars =
      (List.range chars).map fun index =>
        fs.blockAt inode (pathOf (pos / blockSize))
          (pos % blockSize + index) := by
  rw [files_of_isFile file]
  apply List.map_congr_left
  intro index member
  have lower := List.mem_range.mp member
  have same : (pos + index) / blockSize = pos / blockSize :=
    same_block fits (Nat.le_add_right pos index) (by omega)
  have offset : (pos + index) % blockSize = pos % blockSize + index := by
    have splitPlace := Nat.div_add_mod (pos + index) blockSize
    have splitPos := Nat.div_add_mod pos blockSize
    rw [same] at splitPlace
    omega
  unfold Fs.contents
  simp only
  rw [if_pos (by omega), same, offset]

/-- A hole reads as zeros. -/
theorem map_blockAt_hole
    {path : List Nat} {chars offset : Nat}
    (absent : fs.zoneAt inode path = 0) :
    (List.range chars).map
        (fun index => fs.blockAt inode path (offset + index)) =
      List.replicate chars 0 := by
  unfold Fs.blockAt
  rw [if_pos absent]
  simp [List.map_const']

/-- The loop of `file_read` returns the bytes of the file and changes nothing. -/
theorem satisfies_fileReadLoop
    {pos left : Nat}
    (consistent : Consistent sb fs)
    (file : fs.IsFile inode)
    (inside : pos + left ≤ maxSize) :
    (fileReadLoop sb inode pos left).Satisfies fs
      (fun bytes after =>
        bytes = (fs.files inode).slice pos left ∧ after = fs)
      (fun _ => False) := by
  induction left using Nat.strong_induction_on generalizing pos with
  | _ left inductionHypothesis =>
    rw [fileReadLoop]
    by_cases nothing : left = 0
    · rw [dif_pos nothing, satisfies_pure, nothing]
      exact ⟨rfl, rfl⟩
    · rw [dif_neg nothing]
      have start : pos < maxSize := by
        omega
      refine (satisfies_bmap consistent file
        (block_lt_of_lt_maxSize start)).andThen ?_
      rintro _ after ⟨rfl, rfl⟩
      generalize chosen : min (blockSize - pos % blockSize) left = chars
      have remainder : pos % blockSize < blockSize :=
        Nat.mod_lt pos (by decide)
      have whole : chars + (left - chars) = left := by
        omega
      have next :=
        inductionHypothesis (left - chars) (by omega)
          (show pos + chars + (left - chars) ≤ maxSize by omega)
      have block := slice_block file
        (show pos % blockSize + chars ≤ blockSize by omega)
        (show pos + chars ≤ maxSize by omega)
      by_cases absent : after.zoneAt inode (pathOf (pos / blockSize)) = 0
      · rw [if_pos absent]
        refine next.andThen ?_
        rintro _ _ ⟨rfl, rfl⟩
        rw [satisfies_pure, ← map_blockAt_hole absent, ← block,
          ← SparseFile.slice_add, whole]
        exact ⟨rfl, rfl⟩
      · generalize stands :
          after.zoneAt inode (pathOf (pos / blockSize)) = zone
        rw [stands] at absent
        rw [if_neg absent, bread, satisfies_bind, satisfies_update,
          satisfies_bind, satisfies_read]
        have held :
            (after.setCount zone (after.count zone + 1)).count zone =
              after.count zone + 1 :=
          setCount_count _
        have bytes :
            ((List.range chars).map fun index =>
              (after.setCount zone (after.count zone + 1)).data zone
                (pos % blockSize + index)) =
            (after.files inode).slice pos chars := by
          rw [block]
          unfold Fs.blockAt
          rw [stands, if_neg absent]
          rfl
        rw [satisfies_bind_of_ret (brelse_of_succ held), setCount_back _ rfl, bytes]
        refine next.andThen ?_
        rintro _ _ ⟨rfl, rfl⟩
        rw [satisfies_pure, ← SparseFile.slice_add, whole]
        exact ⟨rfl, rfl⟩

/-- `file_read` -/
theorem satisfies_fileRead
    {filp : File} {count : Nat}
    (consistent : Consistent sb fs)
    (file : fs.IsFile inode)
    (inside : filp.pos + count ≤ maxSize) :
    (fileRead sb inode filp count).Satisfies fs
      (fun result after =>
        result =
          ((fs.files inode).slice filp.pos count,
            { filp with pos := filp.pos + count }) ∧
        after = fs)
      (fun _ => False) := by
  unfold fileRead
  refine (satisfies_fileReadLoop consistent file inside).andThen ?_
  rintro _ _ ⟨rfl, rfl⟩
  rw [satisfies_pure]
  exact ⟨rfl, rfl⟩

/-- `sys_read` reads up to the end of the file. -/
theorem satisfies_sysRead
    {filp : File} {count : Nat}
    (consistent : Consistent sb fs)
    (file : fs.IsFile inode)
    (inside : filp.pos + count ≤ maxSize) :
    (sysRead sb inode filp count).Satisfies fs
      (fun result after =>
        result =
          ((fs.files inode).slice filp.pos
              ((fs.files inode).clip filp.pos count),
            { filp with
              pos :=
                filp.pos + (fs.files inode).clip filp.pos count }) ∧
        after = fs)
      (fun _ => False) := by
  have size : (fs.files inode).size = (fs.inode inode).size := by
    rw [files_of_isFile file]
    rfl
  unfold sysRead
  rw [satisfies_bind, satisfies_read]
  simp only
  generalize chosen :
    (if (fs.inode inode).size < count + filp.pos then
        ((fs.inode inode).size : Int) - filp.pos else (count : Int)) =
      clipped
  have clip :
      (fs.files inode).clip filp.pos count = clipped.toNat := by
    unfold SparseFile.clip
    rw [size]
    split at chosen
    · omega
    · omega
  by_cases nothing : clipped ≤ 0
  · have zero : clipped.toNat = 0 := Int.toNat_of_nonpos nothing
    rw [if_pos nothing, satisfies_pure, clip, zero]
    exact ⟨rfl, rfl⟩
  · rw [if_neg nothing, clip]
    apply satisfies_fileRead consistent file
    rw [← clip]
    unfold SparseFile.clip
    omega

/-! ## Truncation -/

theorem Truncated.files
    (truncated : Truncated sb fs inode after)
    (file : fs.IsFile inode) :
    after.files = Function.update fs.files inode .empty := by
  refine files_update truncated.modes file ?_ ?_
  · ext place
    · exact truncated.size
    · unfold Fs.contents SparseFile.empty
      simp only
      by_cases low : place < maxSize
      · have leaf := isLeaf_pathOf (block_lt_of_lt_maxSize low)
        unfold Fs.blockAt
        rw [if_pos low, truncated.emptied leaf.isPath, if_pos rfl]
        rfl
      · rw [if_neg low]
  · intro other different _
    have blocks :
        ∀ path, after.blockAt other path = fs.blockAt other path := by
      intro path
      unfold Fs.blockAt
      rw [truncated.zoneAt_other different, truncated.data]
    unfold Fs.contents
    simp only [blocks, truncated.others other different]

end Zones

end HitOs
