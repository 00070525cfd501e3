import HitOs.FileData
import HitOs.Interleavings
import HitOs.ZoneLists
import Mathlib.Algebra.GroupWithZero.Nat

namespace HitOs

/-!
# Truncating a file that is read

`truncate` of a file, also as `iput` calls it for a file without links, and
`file_read` of the same file by another task.  A call of `free_block` holds the
buffer that `get_hash_table` has found until `brelse`, and may sleep before it
tests `b_count`; the reader holds a buffer while it sleeps in `bread` or in
`put_fs_byte`.  Either task may run between any two steps of the other.
-/

namespace Zones

/--
The calls inside `truncate` that have not returned.  `free_ind` and `free_dind`
are at their beginning (`words`), in `bread` (`read`), at a word (`loop`), or at
`brelse` (`drop`); `free_block` is at its beginning (`free`), before the test of
`b_count` (`test`), or behind it (`clear`).
-/
inductive Frame where
  | words (level block : Nat)
  | read (level block : Nat)
  | loop (level block index : Nat)
  | drop (block : Nat)
  | free (zone : Nat)
  | test (zone : Nat)
  | clear (zone : Nat)
  deriving Repr, DecidableEq

/-- Where `truncate` itself is. -/
inductive Stage where
  | direct (index : Nat)
  | cleared (index : Nat)
  | single
  | double
  | reset
  | done
  deriving Repr, DecidableEq

/--
Where `file_read` is, with the position and the count of what is left: in `_bmap`
with a buffer of words and the indices still to follow, there at the `brelse` of
the buffer, or with the buffer of a block of the file.
-/
inductive Reading where
  | next (pos left : Nat)
  | follow (block index : Nat) (rest : List Nat) (pos left : Nat)
  | leave (block word : Nat) (rest : List Nat) (pos left : Nat)
  | copy (block pos left : Nat)
  | done
  deriving Repr, DecidableEq

/-- The two tasks. -/
inductive Party where
  | truncater
  | reader
  deriving Repr, DecidableEq

/-- The points of both. -/
inductive Place where
  | truncating (frames : List Frame) (stage : Stage)
  | reading (reader : Reading)
  deriving Repr, DecidableEq

/-- One step of the innermost call of `truncate`; none for a panic. -/
def frameStep
    (sb : SuperBlock)
    (ok : Bool)
    (fs : Fs) :
    Frame → Option (Fs × List Frame)
  | .words level block =>
    if block = 0 then
      some (fs, [])
    else
      some (fs.setCount block (fs.count block + 1), [.read level block, .free block])
  | .read level block =>
    if ok then
      some (fs, [.loop level block 0])
    else
      -- `bread` releases the buffer and returns `NULL`.
      some (fs.setCount block (fs.count block - 1), [])
  | .loop level block index =>
    if index < 512 then
      let word := (fs.data block).word index
      if word = 0 then
        some (fs, [.loop level block (index + 1)])
      else
        match level with
        | 0 => some (fs, [.free word, .loop 0 block (index + 1)])
        | level + 1 =>
          some (fs, [.words level word, .loop (level + 1) block (index + 1)])
    else
      some (fs, [.drop block])
  | .drop block =>
    if fs.count block = 0 then
      none
    else
      some (fs.setCount block (fs.count block - 1), [])
  | .free zone =>
    if zone < sb.firstDataZone ∨ sb.nzones ≤ zone then
      none
    else
      some (fs.setCount zone (fs.count zone + 1), [.test zone])
  | .test zone =>
    if fs.count zone ≠ 1 then
      -- The reference and the bit stay.
      some (fs, [])
    else
      some (fs, [.clear zone])
  | .clear zone =>
    if fs.count zone = 0 ∨ fs.zmap (sb.bit zone) = false then
      none
    else
      some ((fs.setCount zone (fs.count zone - 1)).setBit (sb.bit zone)
        false, [])

/-- One step of `truncate` itself. -/
def stageStep
    (inode : Nat)
    (fs : Fs) :
    Stage → Option (Fs × List Frame × Stage)
  | .direct index =>
    if index < 7 then
      let zone := (fs.inode inode).zone index
      if zone = 0 then
        some (fs, [], .direct (index + 1))
      else
        some (fs, [.free zone], .cleared index)
    else
      some (fs, [], .single)
  | .cleared index => some (fs.setZone inode index 0, [], .direct (index + 1))
  | .single => some (fs, [.words 0 ((fs.inode inode).zone 7)], .double)
  | .double => some (fs, [.words 1 ((fs.inode inode).zone 8)], .reset)
  | .reset =>
    some (((fs.setZone inode 8 0).setZone inode 7 0).setSize inode 0, [], .done)
  | .done => none

/-- Follow a path of words to a block of the file, or to a hole. -/
def descend
    (fs : Fs)
    (zone : Nat)
    (rest : List Nat)
    (pos left : Nat) : Fs × Reading :=
  if zone = 0 then
    (fs, .next (pos + min (blockSize - pos % blockSize) left)
      (left - min (blockSize - pos % blockSize) left))
  else
    match rest with
    | [] => (fs.setCount zone (fs.count zone + 1), .copy zone pos left)
    | index :: rest =>
      (fs.setCount zone (fs.count zone + 1), .follow zone index rest pos left)

/-- One step of `file_read`; none for a panic. -/
def readStep
    (inode : Nat)
    (ok : Bool)
    (fs : Fs) :
    Reading → Option (Fs × Reading)
  | .next pos left =>
    if left = 0 then
      some (fs, .done)
    else if 7 + 512 + 512 * 512 ≤ pos / blockSize then
      none
    else
      match (pathOf (pos / blockSize)).reverse with
      | [] => none
      | root :: rest => some (descend fs ((fs.inode inode).zone root) rest pos left)
  | .follow block index rest pos left =>
    if ok then
      some (fs, .leave block ((fs.data block).word index) rest pos left)
    else
      some (descend (fs.setCount block (fs.count block - 1)) 0 rest pos
        left)
  | .leave block word rest pos left =>
    if fs.count block = 0 then
      none
    else
      some (descend (fs.setCount block (fs.count block - 1)) word rest pos
        left)
  | .copy block pos left =>
    if fs.count block = 0 then
      none
    else if ok then
      some (fs.setCount block (fs.count block - 1),
        .next (pos + min (blockSize - pos % blockSize) left)
          (left - min (blockSize - pos % blockSize) left))
    else
      some (fs.setCount block (fs.count block - 1), .done)
  | .done => none

/-- The two calls on one file. -/
def truncatingRead
    (sb : SuperBlock)
    (inode : Nat) :
    Program Party Fs Place Bool :=
  fun _ ok fs place =>
    match place with
    | .truncating [] stage =>
      (stageStep inode fs stage).map fun next =>
        (next.1, .truncating next.2.1 next.2.2)
    | .truncating (frame :: frames) stage =>
      (frameStep sb ok fs frame).map fun next =>
        (next.1, .truncating (next.2 ++ frames) stage)
    | .reading reader =>
      (readStep inode ok fs reader).map fun next =>
        (next.1, .reading next.2)

/-! ## Buffers that are held -/

/-- 1 for the block itself. -/
def one (held block : Nat) : Nat :=
  if block = held then 1 else 0

def Frame.holds (block : Nat) : Frame → Nat
  | .read _ held => one held block
  | .loop _ held _ => one held block
  | .drop held => one held block
  | .test held => one held block
  | .clear held => one held block
  | _ => 0

def framesHold (block : Nat) (frames : List Frame) : Nat :=
  (frames.map (Frame.holds block)).sum

def Reading.holds (block : Nat) : Reading → Nat
  | .follow held _ _ _ _ => one held block
  | .leave held _ _ _ _ => one held block
  | .copy held _ _ => one held block
  | _ => 0

/-- The references to a buffer that a task has. -/
def Place.holds (block : Nat) : Place → Nat
  | .truncating frames _ => framesHold block frames
  | .reading reader => reader.holds block

@[simp] theorem framesHold_nil
    {block : Nat} :
    framesHold block [] = 0 :=
  rfl

@[simp] theorem framesHold_cons
    {block : Nat} {frame : Frame} {frames : List Frame} :
    framesHold block (frame :: frames) = frame.holds block + framesHold block frames :=
  rfl

theorem framesHold_append
    {block : Nat} {first second : List Frame} :
    framesHold block (first ++ second) =
      framesHold block first + framesHold block second := by
  unfold framesHold
  rw [List.map_append, List.sum_append]

/-! ## Zones that are still to be freed -/

/-- What a call still frees. -/
def Frame.pending (data : Nat → Block) : Frame → List Nat
  | .words level block => treeZones data (level + 1) block
  | .read level block => wordZones data level block 0
  | .loop level block index => wordZones data level block index
  | .drop _ => []
  | .free zone => [zone]
  | .test zone => [zone]
  | .clear zone => [zone]

/-- What `truncate` still frees. -/
def Stage.pending (data : Nat → Block) (zone : Nat → Nat) :
    Stage → List Nat
  | .direct index =>
    directZones zone index ++ treeZones data 1 (zone 7) ++ treeZones data 2 (zone 8)
  | .cleared index =>
    directZones zone (index + 1) ++ treeZones data 1 (zone 7) ++
      treeZones data 2 (zone 8)
  | .single => treeZones data 1 (zone 7) ++ treeZones data 2 (zone 8)
  | .double => treeZones data 2 (zone 8)
  | .reset => []
  | .done => []

/-- What the calls of a task still free, the innermost one first. -/
def Place.pending
    (data : Nat → Block)
    (zone : Nat → Nat) : Place → List Nat
  | .truncating frames stage =>
    frames.flatMap (Frame.pending data) ++ stage.pending data zone
  | .reading _ => []

theorem pending_append
    {data : Nat → Block} {zone : Nat → Nat} {stage : Stage}
    {first second : List Frame} :
    (Place.truncating (first ++ second) stage).pending data zone =
      first.flatMap (Frame.pending data) ++
        (Place.truncating second stage).pending data zone := by
  unfold Place.pending
  simp only
  rw [List.flatMap_append, List.append_assoc]

theorem pending_cons
    {data : Nat → Block} {zone : Nat → Nat} {stage : Stage}
    {frame : Frame} {frames : List Frame} :
    (Place.truncating (frame :: frames) stage).pending data zone =
      frame.pending data ++ (Place.truncating frames stage).pending data zone :=
  List.append_assoc _ _ _

theorem pending_nil
    {data : Nat → Block} {zone : Nat → Nat} {stage : Stage} :
    (Place.truncating [] stage).pending data zone = stage.pending data zone :=
  rfl

variable {sb : SuperBlock} {fs after start : Fs} {inode : Nat}
variable {data : Nat → Block}

theorem treeZones_zero
    {level : Nat} :
    treeZones data level 0 = [] := by
  cases level with
  | zero => rfl
  | succ level => rfl

theorem treeZones_succ
    {level block : Nat}
    (present : block ≠ 0) :
    treeZones data (level + 1) block =
      wordZones data level block 0 ++ [block] := by
  unfold treeZones wordZones
  rw [if_neg present, List.range_eq_range']

theorem wordZones_next
    {level block index : Nat}
    (inside : index < 512) :
    wordZones data level block index =
      treeZones data level ((data block).word index) ++
        wordZones data level block (index + 1) := by
  have split : 512 - index = 512 - (index + 1) + 1 := by
    omega
  unfold wordZones
  rw [split, List.range'_succ, List.flatMap_cons]

theorem wordZones_end
    {level block index : Nat}
    (outside : 512 ≤ index) :
    wordZones data level block index = [] := by
  unfold wordZones
  rw [Nat.sub_eq_zero_of_le outside]
  rfl

theorem directZones_next
    {zone : Nat → Nat} {index : Nat}
    (inside : index < 7) :
    directZones zone index =
      (if zone index = 0 then [] else [zone index]) ++
        directZones zone (index + 1) := by
  have split : 7 - index = 7 - (index + 1) + 1 := by
    omega
  unfold directZones
  rw [split, List.range'_succ, List.flatMap_cons]

theorem directZones_end
    {zone : Nat → Nat} {index : Nat}
    (outside : 7 ≤ index) :
    directZones zone index = [] := by
  unfold directZones
  rw [Nat.sub_eq_zero_of_le outside]
  rfl

theorem directZones_congr
    {zone zone' : Nat → Nat} {index : Nat}
    (same : ∀ other, index ≤ other → other < 7 → zone' other = zone other) :
    directZones zone' index = directZones zone index := by
  unfold directZones
  apply List.flatMap_congr
  intro other member
  rw [List.mem_range'_1] at member
  rw [same other member.1 (by omega)]

/-! ## What one step does -/

theorem setCount_succ
    (block other : Nat) :
    (fs.setCount block (fs.count block + 1)).count other =
      fs.count other + one block other := by
  unfold one
  by_cases same : other = block
  · rw [same, setCount_count, if_pos rfl]
  · rw [setCount_count_of_ne _ same, if_neg same, Nat.add_zero]

theorem setCount_pred
    {block : Nat}
    (held : fs.count block ≠ 0)
    (other : Nat) :
    (fs.setCount block (fs.count block - 1)).count other +
        one block other = fs.count other := by
  unfold one
  by_cases same : other = block
  · rw [same, setCount_count, if_pos rfl]
    omega
  · rw [setCount_count_of_ne _ same, if_neg same, Nat.add_zero]

/--
The call meets what keeps `truncate` exact: `free_block` finds no other reference
than its own, and `bread` succeeds.
-/
def Frame.Undisturbed (ok : Bool) (fs : Fs) : Frame → Prop
  | .read _ _ => ok = true
  | .test zone => fs.count zone = 1
  | _ => True

/-- What a step of an undisturbed call does. -/
structure FrameMoves
    (sb : SuperBlock)
    (fs : Fs)
    (frame : Frame)
    (after : Fs)
    (frames : List Frame) : Prop where
  data :
    after.data = fs.data
  nodes :
    after.inode = fs.inode
  counts :
    ∀ block, after.count block + frame.holds block =
      fs.count block + framesHold block frames
  zones :
    (after.zmap = fs.zmap ∧
      frames.flatMap (Frame.pending fs.data) = frame.pending fs.data) ∨
    ∃ zone, frame.pending fs.data = [zone] ∧ frames = [] ∧
      after.zmap = Function.update fs.zmap (sb.bit zone) false

theorem frameStep_moves
    {ok : Bool} {frame : Frame} {frames : List Frame}
    (undisturbed : frame.Undisturbed ok fs)
    (stepped : frameStep sb ok fs frame = some (after, frames)) :
    FrameMoves sb fs frame after frames := by
  cases frame with
  | words level block =>
    unfold frameStep at stepped
    simp only at stepped
    by_cases empty : block = 0
    · rw [if_pos empty] at stepped
      cases stepped
      refine ⟨rfl, rfl, fun _ => rfl, Or.inl ⟨rfl, ?_⟩⟩
      rw [empty]
      exact treeZones_zero.symm
    · rw [if_neg empty] at stepped
      cases stepped
      refine ⟨rfl, rfl, fun other => ?_, Or.inl ⟨rfl, ?_⟩⟩
      · rw [setCount_succ]
        rfl
      · exact (treeZones_succ empty).symm
  | read level block =>
    change ok = true at undisturbed
    subst undisturbed
    cases stepped
    exact ⟨rfl, rfl, fun _ => rfl, Or.inl ⟨rfl, List.append_nil _⟩⟩
  | loop level block index =>
    unfold frameStep at stepped
    simp only at stepped
    by_cases inside : index < 512
    · rw [if_pos inside] at stepped
      have split :
          (Frame.loop level block index).pending fs.data =
            treeZones fs.data level ((fs.data block).word index) ++
              wordZones fs.data level block (index + 1) :=
        wordZones_next inside
      by_cases empty : (fs.data block).word index = 0
      · rw [if_pos empty] at stepped
        cases stepped
        refine ⟨rfl, rfl, fun _ => rfl, Or.inl ⟨rfl, ?_⟩⟩
        rw [split, empty, treeZones_zero]
        exact List.append_nil _
      · rw [if_neg empty] at stepped
        cases level with
        | zero =>
          cases stepped
          refine ⟨rfl, rfl, fun other => by simp [Frame.holds],
            Or.inl ⟨rfl, ?_⟩⟩
          rw [split, treeZones, if_neg empty]
          exact congrArg _ (List.append_nil _)
        | succ level =>
          cases stepped
          refine ⟨rfl, rfl, fun other => by simp [Frame.holds],
            Or.inl ⟨rfl, ?_⟩⟩
          rw [split]
          exact congrArg _ (List.append_nil _)
    · rw [if_neg inside] at stepped
      cases stepped
      refine ⟨rfl, rfl, fun _ => rfl, Or.inl ⟨rfl, ?_⟩⟩
      exact (wordZones_end (Nat.not_lt.mp inside)).symm
  | drop block =>
    unfold frameStep at stepped
    simp only at stepped
    by_cases isZero : fs.count block = 0
    · rw [if_pos isZero] at stepped
      cases stepped
    · rw [if_neg isZero] at stepped
      cases stepped
      exact ⟨rfl, rfl, fun other => setCount_pred isZero other, Or.inl ⟨rfl, rfl⟩⟩
  | free zone =>
    unfold frameStep at stepped
    simp only at stepped
    by_cases outside : zone < sb.firstDataZone ∨ sb.nzones ≤ zone
    · rw [if_pos outside] at stepped
      cases stepped
    · rw [if_neg outside] at stepped
      cases stepped
      refine ⟨rfl, rfl, fun other => ?_, Or.inl ⟨rfl, rfl⟩⟩
      rw [setCount_succ]
      rfl
  | test zone =>
    unfold frameStep at stepped
    simp only at stepped
    have onlyOwn : fs.count zone = 1 := undisturbed
    rw [if_neg (not_not.mpr onlyOwn)] at stepped
    cases stepped
    exact ⟨rfl, rfl, fun _ => rfl, Or.inl ⟨rfl, rfl⟩⟩
  | clear zone =>
    unfold frameStep at stepped
    simp only at stepped
    by_cases panics : fs.count zone = 0 ∨ fs.zmap (sb.bit zone) = false
    · rw [if_pos panics] at stepped
      cases stepped
    · rw [if_neg panics] at stepped
      cases stepped
      exact ⟨rfl, rfl,
        fun other => setCount_pred (fun isZero => panics (Or.inl isZero))
          other,
        Or.inr ⟨zone, rfl, rfl, rfl⟩⟩

/-- A step of `truncate` itself moves no bit and no reference. -/
structure StageMoves
    (fs : Fs)
    (inode : Nat)
    (stage : Stage)
    (after : Fs)
    (frames : List Frame)
    (next : Stage) : Prop where
  data :
    after.data = fs.data
  zmap :
    after.zmap = fs.zmap
  count :
    after.count = fs.count
  holds :
    ∀ block, framesHold block frames = 0
  zones :
    frames.flatMap (Frame.pending fs.data) ++
        next.pending fs.data (after.inode inode).zone =
      stage.pending fs.data (fs.inode inode).zone
  inside :
    ∀ index, next = .cleared index → index < 7

theorem stageStep_moves
    {stage next : Stage} {frames : List Frame}
    (inside : ∀ index, stage = .cleared index → index < 7)
    (stepped : stageStep inode fs stage = some (after, frames, next)) :
    StageMoves fs inode stage after frames next := by
  cases stage with
  | direct index =>
    unfold stageStep at stepped
    simp only at stepped
    by_cases low : index < 7
    · rw [if_pos low] at stepped
      have split :
          directZones (fs.inode inode).zone index =
            (if (fs.inode inode).zone index = 0 then []
              else [(fs.inode inode).zone index]) ++
              directZones (fs.inode inode).zone (index + 1) :=
        directZones_next low
      by_cases empty : (fs.inode inode).zone index = 0
      · rw [if_pos empty] at stepped split
        cases stepped
        refine ⟨rfl, rfl, rfl, fun _ => rfl, ?_, nofun⟩
        change _ = directZones (fs.inode inode).zone index ++ _ ++ _
        rw [split]
        rfl
      · rw [if_neg empty] at stepped split
        cases stepped
        refine ⟨rfl, rfl, rfl, fun _ => rfl, ?_, ?_⟩
        · change _ = directZones (fs.inode inode).zone index ++ _ ++ _
          rw [split]
          rfl
        · intro index' same
          cases same
          exact low
    · rw [if_neg low] at stepped
      cases stepped
      refine ⟨rfl, rfl, rfl, fun _ => rfl, ?_, nofun⟩
      have ends : directZones (fs.inode inode).zone index = [] :=
        directZones_end (Nat.not_lt.mp low)
      change _ = directZones (fs.inode inode).zone index ++ _ ++ _
      rw [ends]
      rfl
  | cleared index =>
    have low := inside index rfl
    cases stepped
    refine ⟨rfl, rfl, rfl, fun _ => rfl, ?_, nofun⟩
    have kept (other : Nat) (different : other ≠ index) :
        ((fs.setZone inode index 0).inode inode).zone other =
          (fs.inode inode).zone other := by
      rw [setZone_zone, if_neg fun both => different both.2]
    have others :
        directZones ((fs.setZone inode index 0).inode inode).zone
            (index + 1) =
          directZones (fs.inode inode).zone (index + 1) :=
      directZones_congr fun other lower _ => kept other (by omega)
    change directZones ((fs.setZone inode index 0).inode inode).zone
          (index + 1) ++
        treeZones fs.data 1
          (((fs.setZone inode index 0).inode inode).zone 7) ++
        treeZones fs.data 2
          (((fs.setZone inode index 0).inode inode).zone 8) = _
    rw [others, kept 7 (by omega), kept 8 (by omega)]
    rfl
  | single =>
    cases stepped
    refine ⟨rfl, rfl, rfl, fun _ => rfl, ?_, nofun⟩
    exact congrArg (· ++ _) (List.append_nil _)
  | double =>
    cases stepped
    refine ⟨rfl, rfl, rfl, fun _ => rfl, ?_, nofun⟩
    exact (List.append_nil _).trans (List.append_nil _)
  | reset =>
    cases stepped
    exact ⟨rfl, rfl, rfl, fun _ => rfl, rfl, nofun⟩
  | done =>
    cases stepped

/-- What is left to read is inside the range of `_bmap`. -/
def Reading.Inside : Reading → Prop
  | .next pos left => pos + left ≤ maxSize
  | .follow _ _ _ pos left => pos + left ≤ maxSize
  | .leave _ _ _ pos left => pos + left ≤ maxSize
  | .copy _ pos left => pos + left ≤ maxSize
  | .done => True

/-- A step of the reader moves only its own references. -/
structure ReadMoves
    (fs : Fs)
    (reader : Reading)
    (after : Fs)
    (next : Reading) : Prop where
  data :
    after.data = fs.data
  zmap :
    after.zmap = fs.zmap
  nodes :
    after.inode = fs.inode
  counts :
    ∀ block, after.count block + reader.holds block = fs.count block + next.holds block
  inside :
    reader.Inside → next.Inside

/-- The steps down to the next buffer, after a release or at the beginning. -/
theorem descend_moves
    {middle : Fs} {reader next : Reading} {zone pos left : Nat}
    {rest : List Nat}
    (stepped : descend middle zone rest pos left = (after, next))
    (data : middle.data = fs.data)
    (zmap : middle.zmap = fs.zmap)
    (nodes : middle.inode = fs.inode)
    (counts :
      ∀ block, middle.count block + reader.holds block = fs.count block)
    (inside : reader.Inside → pos + left ≤ maxSize) :
    ReadMoves fs reader after next := by
  unfold descend at stepped
  by_cases hole : zone = 0
  · rw [if_pos hole] at stepped
    cases stepped
    refine ⟨data, zmap, nodes, counts, fun before => ?_⟩
    have fits := inside before
    change pos + min (blockSize - pos % blockSize) left +
      (left - min (blockSize - pos % blockSize) left) ≤ maxSize
    omega
  · rw [if_neg hole] at stepped
    have counts' (block : Nat) :
        (middle.setCount zone (middle.count zone + 1)).count block +
            reader.holds block =
          fs.count block + one zone block := by
      rw [setCount_succ, ← counts block]
      omega
    match rest with
    | [] =>
      cases stepped
      exact ⟨data, zmap, nodes, counts', inside⟩
    | index :: rest =>
      cases stepped
      exact ⟨data, zmap, nodes, counts', inside⟩

theorem readStep_moves
    {ok : Bool} {reader next : Reading}
    (enough : ∀ block, reader.holds block ≤ fs.count block)
    (stepped : readStep inode ok fs reader = some (after, next)) :
    ReadMoves fs reader after next := by
  have present
      {block : Nat}
      (holds : reader.holds block = one block block) :
      fs.count block ≠ 0 := by
    have bound := enough block
    rw [holds, one, if_pos rfl] at bound
    omega
  cases reader with
  | next pos left =>
    unfold readStep at stepped
    simp only at stepped
    by_cases nothing : left = 0
    · rw [if_pos nothing] at stepped
      cases stepped
      exact ⟨rfl, rfl, rfl, fun _ => rfl, fun _ => trivial⟩
    · rw [if_neg nothing] at stepped
      by_cases big : 7 + 512 + 512 * 512 ≤ pos / blockSize
      · rw [if_pos big] at stepped
        cases stepped
      · rw [if_neg big] at stepped
        cases path : (pathOf (pos / blockSize)).reverse with
        | nil =>
          rw [path] at stepped
          cases stepped
        | cons root rest =>
          rw [path] at stepped
          exact descend_moves (Option.some.inj stepped) rfl rfl rfl
            (fun _ => rfl) id
  | follow block index rest pos left =>
    have held := present rfl
    unfold readStep at stepped
    simp only at stepped
    by_cases fine : ok = true
    · rw [if_pos fine] at stepped
      cases stepped
      exact ⟨rfl, rfl, rfl, fun _ => rfl, id⟩
    · rw [if_neg fine] at stepped
      exact descend_moves (Option.some.inj stepped) rfl rfl rfl
        (setCount_pred held) id
  | leave block word rest pos left =>
    have held := present rfl
    unfold readStep at stepped
    simp only at stepped
    rw [if_neg held] at stepped
    exact descend_moves (Option.some.inj stepped) rfl rfl rfl
      (setCount_pred held) id
  | copy block pos left =>
    have held := present rfl
    unfold readStep at stepped
    simp only at stepped
    rw [if_neg held] at stepped
    by_cases fine : ok = true
    · rw [if_pos fine] at stepped
      cases stepped
      refine ⟨rfl, rfl, rfl, setCount_pred held, fun inside => ?_⟩
      change pos + left ≤ maxSize at inside
      change pos + min (blockSize - pos % blockSize) left +
        (left - min (blockSize - pos % blockSize) left) ≤ maxSize
      omega
    · rw [if_neg fine] at stepped
      cases stepped
      exact ⟨rfl, rfl, rfl, setCount_pred held, fun _ => trivial⟩
  | done =>
    cases stepped

/-! ## Runs -/

/-- `free_block` finds no other reference than its own, and `bread` succeeds. -/
def Undisturbed
    (label : Party × Bool)
    (world : World Party Fs Place) : Prop :=
  ∀ frame frames stage,
    world.point label.1 = .truncating (frame :: frames) stage →
      frame.Undisturbed label.2 world.shared

/-- Both calls are about to begin. -/
def beginning (fs : Fs) (pos left : Nat) : World Party Fs Place where
  shared := fs
  point
    | .truncater => .truncating [] (.direct 0)
    | .reader => .reading (.next pos left)

def Place.Finished : Place → Prop
  | .truncating frames stage => frames = [] ∧ stage = .done
  | .reading reader => reader = .done

/-- References and bits are exactly those that the points of the calls explain. -/
structure Exact
    (sb : SuperBlock)
    (fs : Fs)
    (inode : Nat)
    (world : World Party Fs Place) : Prop where
  truncating :
    ∃ frames stage, world.point .truncater = .truncating frames stage ∧
      ∀ index, stage = .cleared index → index < 7
  reading :
    ∃ reader, world.point .reader = .reading reader ∧ reader.Inside
  data :
    world.shared.data = fs.data
  counts :
    ∀ block, world.shared.count block =
      fs.count block + (world.point .truncater).holds block +
        (world.point .reader).holds block
  zones :
    ∃ freed,
      fileZones fs.data (fs.inode inode).zone =
        freed ++ (world.point .truncater).pending world.shared.data
          (world.shared.inode inode).zone ∧
      (∀ zone ∈ freed, world.shared.zmap (sb.bit zone) = false) ∧
      ∀ zone ∈ (world.point .truncater).pending world.shared.data
          (world.shared.inode inode).zone,
        world.shared.zmap (sb.bit zone) = true

theorem isZone_of_mem
    {zone : Nat}
    (consistent : Consistent sb fs)
    (file : fs.IsFile inode)
    (member : zone ∈ fileZones fs.data (fs.inode inode).zone) :
    sb.IsZone zone ∧ fs.zmap (sb.bit zone) = true := by
  obtain ⟨present, path, isPath, rfl⟩ := mem_fileZones.mp member
  exact ⟨consistent.inRange inode path ⟨file, isPath⟩ present,
    consistent.marked inode path ⟨file, isPath⟩ present⟩

theorem exact_beginning
    {pos left : Nat}
    (consistent : Consistent sb fs)
    (file : fs.IsFile inode)
    (inside : pos + left ≤ maxSize) :
    Exact sb fs inode (beginning fs pos left) where
  truncating := ⟨[], .direct 0, rfl, nofun⟩
  reading := ⟨.next pos left, rfl, inside⟩
  data := rfl
  counts _ := rfl
  zones := by
    refine ⟨[], rfl, fun zone member => absurd member List.not_mem_nil, ?_⟩
    intro zone member
    exact (isZone_of_mem consistent file member).2

section Steps

variable {world : World Party Fs Place} {ok : Bool}

/-- The zones after a step that has freed one of them, or none. -/
theorem zones_after
    {freed pending pending' : List Nat} {zmap zmap' : Nat → Bool}
    {all : List Nat}
    (nodup : all.Nodup)
    (areZones : ∀ zone ∈ all, sb.IsZone zone)
    (split : all = freed ++ pending)
    (cleared : ∀ zone ∈ freed, zmap (sb.bit zone) = false)
    (set : ∀ zone ∈ pending, zmap (sb.bit zone) = true)
    (moves :
      (zmap' = zmap ∧ pending' = pending) ∨
        ∃ zone, pending = zone :: pending' ∧
          zmap' = Function.update zmap (sb.bit zone) false) :
    ∃ freed', all = freed' ++ pending' ∧
      (∀ zone ∈ freed', zmap' (sb.bit zone) = false) ∧
        ∀ zone ∈ pending', zmap' (sb.bit zone) = true := by
  rcases moves with ⟨rfl, rfl⟩ | ⟨zone, rfl, rfl⟩
  · exact ⟨freed, split, cleared, set⟩
  · refine ⟨freed ++ [zone], by rw [split, List.append_assoc]; rfl, ?_, ?_⟩
    · intro other member
      by_cases same : sb.bit other = sb.bit zone
      · rw [same, Function.update_self]
      · rw [Function.update_of_ne same]
        rcases List.mem_append.mp member with before | last
        · exact cleared other before
        · rw [List.mem_singleton] at last
          exact absurd (last ▸ rfl) same
    · intro other member
      have inAll : other ∈ all := by
        rw [split]
        exact List.mem_append_right _ (List.mem_cons_of_mem _ member)
      have zoneInAll : zone ∈ all := by
        rw [split]
        exact List.mem_append_right _ List.mem_cons_self
      have different : sb.bit other ≠ sb.bit zone := by
        intro same
        have equal :=
          SuperBlock.bit_inj (areZones other inAll)
            (areZones zone zoneInAll) same
        subst equal
        rw [split] at nodup
        exact (List.nodup_cons.mp (List.nodup_append.mp nodup).2.1).1
          member
      rw [Function.update_of_ne different]
      exact set other (List.mem_cons_of_mem _ member)

theorem Exact.truncater
    {next : Fs × Place}
    (exactly : Exact sb fs inode world)
    (consistent : Consistent sb fs)
    (file : fs.IsFile inode)
    (undisturbed : Undisturbed (.truncater, ok) world)
    (stepped :
      truncatingRead sb inode .truncater ok world.shared
        (world.point .truncater) = some next) :
    Exact sb fs inode (world.moved .truncater next) := by
  obtain ⟨frames, stage, stands, low⟩ := exactly.truncating
  obtain ⟨reader, readerAt, inside⟩ := exactly.reading
  have other :
      (world.moved .truncater next).point .reader = .reading reader := by
    rw [World.moved_other (by decide), readerAt]
  have nodup := nodup_fileZones consistent file
  have areZones :
      ∀ zone ∈ fileZones fs.data (fs.inode inode).zone, sb.IsZone zone :=
    fun _ member => (isZone_of_mem consistent file member).1
  obtain ⟨freed, split, cleared, set⟩ := exactly.zones
  have counts := exactly.counts
  rw [stands] at stepped split set counts
  rw [readerAt] at counts
  match frames with
  | [] =>
    obtain ⟨⟨after, frames', stage'⟩, stageStepped, rfl⟩ :=
      Option.map_eq_some_iff.mp stepped
    have moves := stageStep_moves low stageStepped
    refine ⟨⟨frames', stage', World.moved_self, moves.inside⟩,
      ⟨reader, other, inside⟩, moves.data.trans exactly.data, ?_, ?_⟩
    · intro block
      rw [other, World.moved_self]
      change after.count block = fs.count block + framesHold block frames' + _
      rw [moves.count, moves.holds, counts]
      rfl
    · rw [World.moved_self]
      refine zones_after nodup areZones split cleared set
        (Or.inl ⟨moves.zmap, ?_⟩)
      rw [pending_nil, ← moves.zones, ← moves.data]
      rfl
  | frame :: rest =>
    obtain ⟨⟨after, frames'⟩, frameStepped, rfl⟩ :=
      Option.map_eq_some_iff.mp stepped
    have moves :=
      frameStep_moves (undisturbed frame rest stage stands) frameStepped
    refine ⟨⟨frames' ++ rest, stage, World.moved_self, low⟩,
      ⟨reader, other, inside⟩, moves.data.trans exactly.data, ?_, ?_⟩
    · intro block
      rw [other, World.moved_self]
      change after.count block = fs.count block + framesHold block (frames' ++ rest) + _
      have before := counts block
      change _ = fs.count block + (frame.holds block +
        framesHold block rest) + _ at before
      have moved := moves.counts block
      rw [framesHold_append]
      omega
    · rw [World.moved_self]
      refine zones_after nodup areZones split cleared set ?_
      rw [pending_cons, pending_append]
      change (after.zmap = world.shared.zmap ∧
        frames'.flatMap (Frame.pending after.data) ++
          (Place.truncating rest stage).pending after.data
            (after.inode inode).zone = _) ∨
        ∃ zone, _ = zone ::
          (frames'.flatMap (Frame.pending after.data) ++
            (Place.truncating rest stage).pending after.data
              (after.inode inode).zone) ∧
          after.zmap = Function.update world.shared.zmap (sb.bit zone) false
      rw [moves.data, moves.nodes]
      rcases moves.zones with ⟨zmap, same⟩ | ⟨zone, single, rfl, zmap⟩
      · exact Or.inl ⟨zmap, by rw [same]⟩
      · exact Or.inr ⟨zone, by rw [single]; rfl, zmap⟩

theorem Exact.reader
    {next : Fs × Place}
    (exactly : Exact sb fs inode world)
    (stepped :
      truncatingRead sb inode .reader ok world.shared
        (world.point .reader) = some next) :
    Exact sb fs inode (world.moved .reader next) := by
  obtain ⟨frames, stage, stands, low⟩ := exactly.truncating
  obtain ⟨reader, readerAt, inside⟩ := exactly.reading
  have other :
      (world.moved .reader next).point .truncater =
        .truncating frames stage := by
    rw [World.moved_other (by decide), stands]
  obtain ⟨freed, split, cleared, set⟩ := exactly.zones
  have counts := exactly.counts
  rw [stands] at split set counts
  rw [readerAt] at stepped counts
  obtain ⟨⟨after, reader'⟩, readStepped, rfl⟩ :=
    Option.map_eq_some_iff.mp stepped
  have enough (block : Nat) :
      reader.holds block ≤ world.shared.count block := by
    rw [counts]
    exact Nat.le_add_left _ _
  have moves := readStep_moves enough readStepped
  refine ⟨⟨frames, stage, other, low⟩,
    ⟨reader', World.moved_self, moves.inside inside⟩,
    moves.data.trans exactly.data, ?_, ?_⟩
  · intro block
    rw [other, World.moved_self]
    change after.count block = _ + reader'.holds block
    have before := counts block
    change _ = _ + reader.holds block at before
    have moved := moves.counts block
    omega
  · rw [other]
    change ∃ freed, _ = freed ++
      (Place.truncating frames stage).pending after.data
        (after.inode inode).zone ∧ _
    rw [moves.data, moves.nodes]
    refine ⟨freed, split, ?_, ?_⟩
    · change ∀ zone ∈ freed, after.zmap _ = false
      rw [moves.zmap]
      exact cleared
    · change ∀ zone ∈ _, after.zmap _ = true
      rw [moves.zmap]
      change ∀ zone ∈ (Place.truncating frames stage).pending after.data
        (after.inode inode).zone, _
      rw [moves.data, moves.nodes]
      exact set

end Steps

theorem one_self
    {block : Nat} :
    one block block = 1 :=
  if_pos rfl

/-- No panic: a call that has not finished can go on. -/
theorem Exact.progress
    {world : World Party Fs Place} {task : Party}
    (exactly : Exact sb fs inode world)
    (consistent : Consistent sb fs)
    (file : fs.IsFile inode)
    (unfinished : ¬ (world.point task).Finished) :
    ∃ next,
      truncatingRead sb inode task true world.shared (world.point task) =
        some next := by
  obtain ⟨frames, stage, stands, _⟩ := exactly.truncating
  obtain ⟨reader, readerAt, inside⟩ := exactly.reading
  obtain ⟨freed, split, _, set⟩ := exactly.zones
  have counts := exactly.counts
  rw [stands] at split set counts
  rw [readerAt] at counts
  have inPending
      {zone : Nat}
      (member :
        zone ∈ (Place.truncating frames stage).pending world.shared.data
          (world.shared.inode inode).zone) :
      sb.IsZone zone := by
    refine (isZone_of_mem consistent file ?_).1
    rw [split]
    exact List.mem_append_right _ member
  cases task with
  | truncater =>
    rw [stands] at unfinished ⊢
    match frames with
    | [] =>
      cases stage with
      | direct index =>
        change ∃ next, (stageStep inode world.shared
          (.direct index)).map _ = some next
        unfold stageStep
        by_cases low : index < 7
        · by_cases empty :
              (world.shared.inode inode).zone index = 0
          · simp [low, empty]
          · simp [low, empty]
        · simp [low]
      | cleared index => exact ⟨_, rfl⟩
      | single => exact ⟨_, rfl⟩
      | double => exact ⟨_, rfl⟩
      | reset => exact ⟨_, rfl⟩
      | done => exact absurd ⟨rfl, rfl⟩ unfinished
    | frame :: rest =>
      have held
          {block : Nat}
          (holds : frame.holds block = 1) :
          world.shared.count block ≠ 0 := by
        have total := counts block
        change _ = _ + (frame.holds block + framesHold block rest) + _ at total
        omega
      have mine
          {zone : Nat}
          (single :
            frame.pending world.shared.data = [zone]) :
          zone ∈ (Place.truncating (frame :: rest) stage).pending
            world.shared.data (world.shared.inode inode).zone := by
        rw [pending_cons, single]
        exact List.mem_append_left _ (List.mem_singleton_self zone)
      change ∃ next, (frameStep sb true world.shared frame).map _ = some next
      cases frame with
      | words level block =>
        unfold frameStep
        by_cases empty : block = 0
        · simp [empty]
        · simp [empty]
      | read level block =>
        exact ⟨_, rfl⟩
      | loop level block index =>
        unfold frameStep
        by_cases low : index < 512
        · by_cases empty :
              (world.shared.data block).word index = 0
          · simp [low, empty]
          · cases level with
            | zero => simp [low, empty]
            | succ level => simp [low, empty]
        · simp [low]
      | drop block =>
        have present := held one_self
        unfold frameStep
        simp [present]
      | free zone =>
        have isZone := inPending (mine rfl)
        have range :
            ¬ (zone < sb.firstDataZone ∨ sb.nzones ≤ zone) := by
          have lower := isZone.1
          have upper := isZone.2
          omega
        unfold frameStep
        simp only [if_neg range]
        exact ⟨_, rfl⟩
      | test zone =>
        unfold frameStep
        by_cases busy : world.shared.count zone = 1
        · simp [busy]
        · simp [busy]
      | clear zone =>
        have present := held one_self
        have bit := set zone (mine rfl)
        unfold frameStep
        simp [present, bit]
  | reader =>
    rw [readerAt] at unfinished ⊢
    have held
        {block : Nat}
        (holds : reader.holds block = 1) :
        world.shared.count block ≠ 0 := by
      have total := counts block
      change _ = _ + reader.holds block at total
      omega
    change ∃ next, (readStep inode true world.shared reader).map _ = some next
    cases reader with
    | next pos left =>
      unfold readStep
      by_cases nothing : left = 0
      · simp [nothing]
      · change pos + left ≤ maxSize at inside
        have low : ¬ 7 + 512 + 512 * 512 ≤ pos / blockSize :=
          Nat.not_le.mpr (block_lt_of_lt_maxSize (by omega))
        simp only [if_neg nothing, if_neg low]
        cases path : (pathOf (pos / blockSize)).reverse with
        | nil =>
          rw [List.reverse_eq_nil_iff] at path
          have leaf := isLeaf_pathOf (Nat.not_le.mp low)
          rw [path] at leaf
          exact leaf.elim
        | cons root rest =>
          exact ⟨_, rfl⟩
    | follow block index rest pos left =>
      exact ⟨_, rfl⟩
    | leave block word rest pos left =>
      have present := held one_self
      unfold readStep
      simp [present]
    | copy block pos left =>
      have present := held one_self
      unfold readStep
      simp [present]
    | done =>
      exact absurd rfl unfinished

/-- What the two calls shall leave behind when both have finished. -/
def LeftClean
    (sb : SuperBlock)
    (fs : Fs)
    (inode : Nat)
    (world : World Party Fs Place) : Prop :=
  (∀ task, (world.point task).Finished) →
    (∀ path, IsPath path → fs.zoneAt inode path ≠ 0 →
      ¬ world.shared.Marked sb (fs.zoneAt inode path)) ∧
    world.shared.count = fs.count

/--
In every run in which each `free_block` finds no other reference than its own and
no `bread` of `truncate` fails, no call panics, and when both have finished the
bits of all zones of the file are cleared and no reference is left.
-/
theorem leftClean_of_undisturbed
    {labels : List (Party × Bool)} {pos left : Nat}
    {last : World Party Fs Place}
    (consistent : Consistent sb fs)
    (file : fs.IsFile inode)
    (inside : pos + left ≤ maxSize)
    (run :
      Traces ((truncatingRead sb inode).StepIf Undisturbed) labels
        (beginning fs pos left) last) :
    LeftClean sb fs inode last ∧
      ∀ task, ¬ (last.point task).Finished →
        ∃ after, (truncatingRead sb inode).Step (task, true) last
          after := by
  have exactly : Exact sb fs inode last := by
    refine run.invariant ?_ (exact_beginning consistent file inside)
    rintro ⟨task, ok⟩ before after holds ⟨stepped, undisturbed⟩
    obtain ⟨next, moved, rfl⟩ := Program.Step.inversion stepped
    cases task with
    | truncater =>
      exact holds.truncater consistent file undisturbed moved
    | reader =>
      exact holds.reader moved
  constructor
  · intro finished
    obtain ⟨frames, stage, stands, _⟩ := exactly.truncating
    obtain ⟨reader, readerAt, _⟩ := exactly.reading
    have first := finished .truncater
    have second := finished .reader
    rw [stands] at first
    rw [readerAt] at second
    obtain ⟨rfl, rfl⟩ := first
    cases second
    constructor
    · intro path isPath present marked
      obtain ⟨freed, split, cleared, _⟩ := exactly.zones
      rw [stands] at split
      change _ = freed ++ [] at split
      have member :
          fs.zoneAt inode path ∈
            fileZones fs.data (fs.inode inode).zone :=
        mem_fileZones.mpr ⟨present, path, isPath, rfl⟩
      rw [split, List.append_nil] at member
      unfold Fs.Marked at marked
      rw [cleared _ member] at marked
      exact Bool.false_ne_true marked
    · funext block
      have total := exactly.counts block
      rw [stands, readerAt] at total
      exact total
  · intro task unfinished
    obtain ⟨next, moved⟩ :=
      exactly.progress consistent file unfinished
    exact ⟨last.moved task next, by
      unfold Program.Step Program.step
      rw [moved]
      rfl⟩

/-! ## A reader inside its buffer -/

/-- Every interleaving leaves nothing behind. -/
def LeaksNothing
    (sb : SuperBlock)
    (fs : Fs)
    (inode pos left : Nat) : Prop :=
  ∀ labels last,
    Traces (truncatingRead sb inode).Step labels (beginning fs pos left)
      last →
      LeftClean sb fs inode last

/-- A file with one zone. -/
def oneZone : Fs :=
  (emptyFs 0o100000).fill smallSuper 0 [0] 3

theorem oneZone_file : oneZone.IsFile 0 := by
  change (isReg 0o100000 || isDir 0o100000) = true
  decide

theorem oneZone_consistent : Consistent smallSuper oneZone :=
  emptyFs_fill_consistent (by decide)

/-- The reader sleeps with the buffer while the zone is freed. -/
def heldWhileFreed : List (Party × Bool) :=
  (.reader, true) :: List.replicate 16 (.truncater, true) ++
    [(.reader, true), (.reader, true)]

theorem not_leaksNothing : ¬ LeaksNothing smallSuper oneZone 0 0 1 := by
  intro leaksNothing
  have runs :
      ∃ last,
        (truncatingRead smallSuper 0).run heldWhileFreed
          (beginning oneZone 0 1) = some last ∧
        (∀ task, (last.point task).Finished) ∧
        last.shared.count 3 = 1 := by
    refine ⟨_, rfl, ?_, rfl⟩
    intro task
    cases task with
    | truncater => exact ⟨rfl, rfl⟩
    | reader => rfl
  obtain ⟨last, run, finished, leaked⟩ := runs
  have clean :=
    leaksNothing heldWhileFreed last (Program.traces_of_run run) finished
  rw [clean.2] at leaked
  exact absurd leaked (show ¬ (0 = 1) by decide)

/-- Whether a step is undisturbed. -/
def undisturbed
    (label : Party × Bool)
    (world : World Party Fs Place) : Bool :=
  match world.point label.1 with
  | .truncating (.read _ _ :: _) _ => label.2
  | .truncating (.test zone :: _) _ => world.shared.count zone == 1
  | _ => true

theorem undisturbed_sound
    {label : Party × Bool} {world : World Party Fs Place}
    (passes : undisturbed label world = true) :
    Undisturbed label world := by
  intro frame frames stage stands
  unfold undisturbed at passes
  rw [stands] at passes
  cases frame with
  | read _ _ => exact passes
  | test zone => exact beq_iff_eq.mp passes
  | words _ _ => trivial
  | loop _ _ _ => trivial
  | drop _ => trivial
  | free _ => trivial
  | clear _ => trivial

/-- The reader is between its buffers while the file is truncated. -/
theorem leftClean_of_undisturbed_apart :
    ∃ labels last,
      Traces ((truncatingRead smallSuper 0).StepIf Undisturbed) labels
        (beginning oneZone 0 1) last ∧
      (∀ task, (last.point task).Finished) ∧
      last.shared.count = oneZone.count ∧
        ¬ last.shared.Marked smallSuper 3 := by
  have runs :
      ∃ last,
        (truncatingRead smallSuper 0).runIf undisturbed
          ([(.reader, true), (.reader, true)] ++
            List.replicate 17 (.truncater, true) ++ [(.reader, true)])
          (beginning oneZone 0 1) = some last ∧
        ∀ task, (last.point task).Finished := by
    refine ⟨_, rfl, ?_⟩
    intro task
    cases task with
    | truncater => exact ⟨rfl, rfl⟩
    | reader => rfl
  obtain ⟨last, run, finished⟩ := runs
  have traces :
      Traces ((truncatingRead smallSuper 0).StepIf Undisturbed) _
        (beginning oneZone 0 1) last :=
    Program.traces_of_runIf (fun _ _ => undisturbed_sound) run
  have clean :=
    (@leftClean_of_undisturbed smallSuper oneZone 0 _ 0 1 last
      oneZone_consistent oneZone_file (by decide) traces).1 finished
  exact ⟨_, last, traces, finished, clean.2,
    clean.1 [0] (show 0 < 9 by decide) (show (3 : Nat) ≠ 0 by decide)⟩

end Zones

end HitOs
