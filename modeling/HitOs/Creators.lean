import HitOs.Directories
import HitOs.Interleavings

namespace HitOs

/-!
# Tasks that create one name

`open` with `O_CREAT`, `mknod`, `mkdir` and `link`, from `find_entry` to the store
of the inode's number, as tasks that sleep in between: in `bread` for each block
of the directory, in `new_inode`, in `create_block`, and in `get_fs_byte` for each
byte of the name.  The directory is one row of entries; a block that
`create_block` adds to it is empty.
-/

namespace Creators

open Zones

/-- A directory; `size` counts entries. -/
structure Directory where
  size : Nat
  entries : Block

/-- The calls that make entries. -/
inductive Call where
  | «open»
  | mknod
  | mkdir
  | link
  deriving Repr, DecidableEq

/-- The call gets a new inode between `find_entry` and `add_entry`. -/
def Call.makesInode : Call → Bool
  | .«open» => true
  | .mknod => true
  | .mkdir => true
  | .link => false

/-- A call, with the number of the inode that it enters. -/
structure Creator where
  call : Call
  inode : Nat
  live :
    inode ≠ 0
  small :
    inode < 65536

/-- Where a call sleeps. -/
inductive Point where
  | ready
  | finding (entries i : Nat)
  | preparing
  | adding (i : Nat)
  | naming (slot index : Nat)
  | created (slot : Nat)
  | ended
  deriving Repr, DecidableEq

/-- The first entry of the block behind that of entry `i` -/
def nextBlock (i : Nat) : Nat :=
  entriesPerBlock * (i / entriesPerBlock) + entriesPerBlock

/-- The first number in a range that passes a test. -/
def firstFrom (test : Nat → Bool) (start stop : Nat) : Option Nat :=
  (List.range' start (stop - start)).find? test

/-- `add_entry` uses this entry. -/
def Directory.usable (dir : Directory) (i : Nat) : Bool :=
  dir.size ≤ i || entryInode dir.entries i == 0

/-- The entry that `add_entry` uses; one behind the end is made a free one. -/
def Directory.extend (slot : Nat) (dir : Directory) : Directory :=
  if dir.size ≤ slot then
    { size := slot + 1
      entries := dir.entries.setWord (entrySize / 2 * slot) 0 }
  else
    dir

/-- `find_entry` from a block on has found no entry. -/
def misses
    (name : List UInt8)
    (dir : Directory)
    (entries i : Nat) : Bool :=
  entries ≤ nextBlock i &&
    firstFrom (matchEntry name dir.entries) i entries == none

/-- What a call does between two sleep points; `ok` if it gets what it asks for. -/
def creating
    {ι : Type}
    (name : List UInt8)
    (creator : ι → Creator) :
    Program ι Directory Point Bool :=
  fun task ok dir point =>
    match point with
    | .ready => some (dir, .finding dir.size 0)
    | .finding entries i =>
      match firstFrom (matchEntry name dir.entries) i
          (min entries (nextBlock i)) with
      | some _ => some (dir, .ended)
      | none =>
        if nextBlock i < entries then
          some (dir, .finding entries (nextBlock i))
        else if (creator task).call.makesInode then
          some (dir, .preparing)
        else
          some (dir, .adding 0)
    | .preparing => some (dir, if ok then .adding 0 else .ended)
    | .adding i =>
      if !ok && i != 0 then
        -- `create_block` has returned 0.
        some (dir, .ended)
      else
        match firstFrom dir.usable i (nextBlock i) with
        | some slot => some (dir.extend slot, .naming slot 0)
        | none => some (dir, .adding (nextBlock i))
    | .naming slot index =>
      if index + 1 < name.length then
        some ({ dir with
          entries :=
            dir.entries.setByte (entrySize * slot + 2 + index)
              (name.getD index 0) }, .naming slot (index + 1))
      else
        some ({ dir with
          entries :=
            (storeBytes (entrySize * slot + 2 + index)
              ((padded name).drop index) dir.entries).setWord
                (entrySize / 2 * slot) (creator task).inode },
          .created slot)
    | .created _ => none
    | .ended => none

/-- The call has missed the name and not yet stored the number. -/
def Point.InWindow : Point → Prop
  | .preparing => True
  | .adding _ => True
  | .naming _ _ => True
  | _ => False

/-- `add_entry` gives the call this slot, or has given it. -/
def Point.Given (slot : Nat) : Point → Prop
  | .naming given _ => given = slot
  | .created given => given = slot
  | _ => False

/-- A live entry has the name. -/
def Directory.Live
    (name : List UInt8)
    (dir : Directory)
    (slot : Nat) : Prop :=
  slot < dir.size ∧ matchEntry name dir.entries slot = true

/-- At most one live entry has the name. -/
def Directory.AtMostOne
    (name : List UInt8)
    (dir : Directory) : Prop :=
  ∀ first second, dir.Live name first → dir.Live name second → first = second

/-- What the calls shall establish. -/
structure OneEntry
    {ι : Type}
    (name : List UInt8)
    (world : World ι Directory Point) : Prop where
  atMostOne :
    world.shared.AtMostOne name
  ownSlots :
    ∀ task other slot, task ≠ other →
      (world.point task).Given slot → ¬ (world.point other).Given slot

/--
A search ends with a miss only while no live entry has the name and no other call
is between its miss and its store.
-/
def Alone
    {ι : Type}
    (name : List UInt8)
    (label : ι × Bool)
    (world : World ι Directory Point) : Prop :=
  ∀ entries i, world.point label.1 = .finding entries i →
    misses name world.shared entries i = true →
      (∀ slot, ¬ world.shared.Live name slot) ∧
        ∀ other, other ≠ label.1 → ¬ (world.point other).InWindow

/-! ## What one step keeps -/

variable {ι : Type} {name : List UInt8} {creator : ι → Creator}
variable {dir after : Directory} {slot : Nat}

theorem firstFrom_some
    {test : Nat → Bool} {start stop found : Nat}
    (finds : firstFrom test start stop = some found) :
    start ≤ found ∧ found < stop ∧ test found = true ∧
      ∀ other, start ≤ other → other < found → test other = false := by
  unfold firstFrom at finds
  obtain ⟨passes, index, inside, same, before⟩ :=
    List.find?_eq_some_iff_getElem.mp finds
  rw [List.length_range'] at inside
  rw [List.getElem_range', Nat.one_mul] at same
  refine ⟨by omega, by omega, passes, ?_⟩
  intro other lower upper
  have earlier := before (other - start) (by omega)
  rw [List.getElem_range', Nat.one_mul, Bool.not_eq_true',
    Nat.add_sub_cancel' lower] at earlier
  exact earlier

theorem firstFrom_none
    {test : Nat → Bool} {start stop other : Nat}
    (misses : firstFrom test start stop = none)
    (lower : start ≤ other)
    (upper : other < stop) :
    test other = false := by
  unfold firstFrom at misses
  have failed :=
    List.find?_eq_none.mp misses other
      (List.mem_range'_1.mpr ⟨lower, by omega⟩)
  simpa using failed

/-- Only the bytes of one entry change. -/
def Touches (slot : Nat) (block other : Block) : Prop :=
  ∀ place, place < entrySize * slot ∨ entrySize * slot + entrySize ≤ place →
    other place = block place

theorem Touches.matchEntry
    {block other : Block} {entry : Nat}
    (touches : Touches slot block other)
    (different : entry ≠ slot) :
    matchEntry name other entry = matchEntry name block entry := by
  apply matchEntry_congr
  intro index inEntry
  apply touches
  unfold entrySize at *
  omega

theorem touches_setWord
    {block : Block} {value : Nat} :
    Touches slot block (block.setWord (entrySize / 2 * slot) value) := by
  intro place outside
  rw [setWord_apply, two_mul_half, if_neg, if_neg]
  · unfold entrySize at *
    omega
  · unfold entrySize at *
    omega

theorem touches_setByte
    {block : Block} {index : Nat} {value : UInt8}
    (inside : index < nameLen) :
    Touches slot block
      (block.setByte (entrySize * slot + 2 + index) value) := by
  intro place outside
  refine if_neg ?_
  unfold entrySize nameLen at *
  omega

theorem touches_storeBytes
    {block : Block} {index : Nat}
    (short : name.length ≤ nameLen)
    (inside : index < nameLen) :
    Touches slot block
      (storeBytes (entrySize * slot + 2 + index)
        ((padded name).drop index) block) := by
  intro place outside
  refine if_neg ?_
  rw [List.length_drop, length_padded short]
  unfold entrySize nameLen at *
  omega

theorem Touches.trans
    {block middle other : Block}
    (first : Touches slot block middle)
    (second : Touches slot middle other) :
    Touches slot block other :=
  fun place outside =>
    (second place outside).trans (first place outside)

/-- No live entry has the name. -/
def Directory.Missing
    (name : List UInt8)
    (dir : Directory) : Prop :=
  ∀ slot, ¬ dir.Live name slot

/-- What holds of the directory while a call is at a point. -/
def Here (name : List UInt8) (dir : Directory) : Point → Prop
  | .preparing => dir.Missing name
  | .adding i => dir.Missing name ∧ i ≤ dir.size
  | .naming slot index =>
    dir.Missing name ∧ slot < dir.size ∧
      entryInode dir.entries slot = 0 ∧ index < name.length ∧
        ∀ earlier < index,
          dir.entries (entrySize * slot + 2 + earlier) = name.getD earlier 0
  | .created slot => dir.Live name slot
  | _ => True

def Point.IsCreated : Point → Prop
  | .created _ => True
  | _ => False

/-- The calls one behind the other. -/
def oneByOne (name : List UInt8) : Annotation ι Directory Point where
  shared dir :=
    dir.AtMostOne name
  here dir _ point :=
    Here name dir point
  apart _ point _ other :=
    ¬ (point.InWindow ∧ other.InWindow) ∧ ¬ (point.IsCreated ∧ other.IsCreated)

theorem Here.missing
    {point : Point}
    (here : Here name dir point)
    (inWindow : point.InWindow) :
    dir.Missing name := by
  cases point with
  | preparing => exact here
  | adding _ => exact here.1
  | naming _ _ => exact here.1
  | ready => exact inWindow.elim
  | finding _ _ => exact inWindow.elim
  | created _ => exact inWindow.elim
  | ended => exact inWindow.elim

theorem Here.not_created
    {point : Point}
    (here : Here name dir point)
    (missing : dir.Missing name) :
    ¬ point.IsCreated := by
  intro isCreated
  cases point with
  | created slot => exact missing slot here
  | ready => exact isCreated
  | finding _ _ => exact isCreated
  | preparing => exact isCreated
  | adding _ => exact isCreated
  | naming _ _ => exact isCreated
  | ended => exact isCreated

/-- What is said of a call outside its window does not mention the directory. -/
theorem here_of_not
    {point : Point}
    (outside : ¬ point.InWindow)
    (notCreated : ¬ point.IsCreated) :
    Here name dir point := by
  cases point with
  | preparing => exact absurd trivial outside
  | adding _ => exact absurd trivial outside
  | naming _ _ => exact absurd trivial outside
  | created _ => exact absurd trivial notCreated
  | ready => trivial
  | finding _ _ => trivial
  | ended => trivial

theorem Directory.Missing.atMostOne
    (missing : dir.Missing name) :
    dir.AtMostOne name :=
  fun first _ live => absurd live (missing first)

section Keeping

variable {world : World ι Directory Point} {task : ι}

/-- A step that changes no entry and leaves the window or stays out of it. -/
theorem keeps_outside
    {point : Point}
    (holds : (oneByOne name).Holds world)
    (outside : ¬ point.InWindow)
    (notCreated : ¬ point.IsCreated) :
    (oneByOne name).Keeps world task (world.shared, point) where
  shared := holds.shared
  here := here_of_not outside notCreated
  others other _ := holds.here other
  apart _ _ :=
    ⟨⟨fun both => outside both.1, fun both => notCreated both.1⟩,
      ⟨fun both => outside both.2, fun both => notCreated both.2⟩⟩

/-- A step of the only call that is in its window. -/
theorem keeps_window
    {point : Point}
    (holds : (oneByOne name).Holds world)
    (missing : world.shared.Missing name)
    (alone : ∀ other, other ≠ task → ¬ (world.point other).InWindow)
    (atMostOne : after.AtMostOne name)
    (here : Here name after point) :
    (oneByOne name).Keeps world task (after, point) where
  shared := atMostOne
  here := here
  others other different :=
    here_of_not (alone other different)
      ((holds.here other).not_created missing)
  apart other different :=
    ⟨⟨fun both => alone other different both.2,
        fun both => (holds.here other).not_created missing both.2⟩,
      ⟨fun both => alone other different both.1,
        fun both => (holds.here other).not_created missing both.1⟩⟩

theorem alone_of_inWindow
    (holds : (oneByOne name).Holds world)
    (inWindow : (world.point task).InWindow) :
    ∀ other, other ≠ task → ¬ (world.point other).InWindow :=
  fun other different otherIn =>
    (holds.apart other task different).1 ⟨otherIn, inWindow⟩

end Keeping

/-- The directory after `add_entry` has found its entry. -/
theorem here_extend
    {i : Nat}
    (isName : IsName name)
    (missing : dir.Missing name)
    (atMost : i ≤ dir.size)
    (finds : firstFrom dir.usable i (nextBlock i) = some slot) :
    (dir.extend slot).Missing name ∧
      Here name (dir.extend slot) (.naming slot 0) := by
  have notEmpty : 0 < name.length :=
    List.length_pos_iff.mpr isName.notEmpty
  obtain ⟨lower, _, usable, before⟩ := firstFrom_some finds
  unfold Directory.extend
  by_cases last : dir.size ≤ slot
  · have atEnd : slot ≤ dir.size := by
      by_contra beyond
      have earlier := before dir.size atMost (Nat.not_le.mp beyond)
      unfold Directory.usable at earlier
      simp at earlier
    rw [if_pos last]
    have freed :
        entryInode (dir.entries.setWord (entrySize / 2 * slot) 0) slot = 0 :=
      Block.word_setWord_self (by decide)
    have missing' :
        Directory.Missing name
          { size := slot + 1
            entries := dir.entries.setWord (entrySize / 2 * slot) 0 } := by
      rintro entry ⟨upper, matched⟩
      by_cases same : entry = slot
      · subst same
        exact matchEntry_live matched freed
      · change entry < slot + 1 at upper
        rw [touches_setWord.matchEntry same] at matched
        exact missing entry ⟨by omega, matched⟩
    exact ⟨missing', missing', Nat.lt_succ_self slot, freed, notEmpty,
      fun earlier impossible => absurd impossible (Nat.not_lt_zero _)⟩
  · rw [if_neg last]
    have free : entryInode dir.entries slot = 0 := by
      unfold Directory.usable at usable
      rw [Bool.or_eq_true, decide_eq_true_eq, beq_iff_eq] at usable
      exact usable.resolve_left last
    exact ⟨missing, missing, Nat.not_le.mp last, free, notEmpty,
      fun earlier impossible => absurd impossible (Nat.not_lt_zero _)⟩

/-- The directory after one more byte of the name. -/
theorem here_setByte
    {index : Nat}
    (isName : IsName name)
    (here : Here name dir (.naming slot index))
    (more : index + 1 < name.length) :
    Directory.Missing name
        { dir with
          entries :=
            dir.entries.setByte (entrySize * slot + 2 + index)
              (name.getD index 0) } ∧
      Here name
        { dir with
          entries :=
            dir.entries.setByte (entrySize * slot + 2 + index)
              (name.getD index 0) } (.naming slot (index + 1)) := by
  obtain ⟨missing, inside, free, _, stored⟩ := here
  have short := isName.short
  have freed :
      entryInode (dir.entries.setByte (entrySize * slot + 2 + index)
        (name.getD index 0)) slot = 0 := by
    unfold entryInode Block.word at free ⊢
    rw [two_mul_half] at free ⊢
    rw [Block.setByte_of_ne (by omega), Block.setByte_of_ne (by omega)]
    exact free
  have missing' :
      Directory.Missing name
        { dir with
          entries :=
            dir.entries.setByte (entrySize * slot + 2 + index)
              (name.getD index 0) } := by
    rintro entry ⟨upper, matched⟩
    by_cases same : entry = slot
    · subst same
      exact matchEntry_live matched freed
    · rw [(touches_setByte (by omega)).matchEntry same] at matched
      exact missing entry ⟨upper, matched⟩
  refine ⟨missing', missing', inside, freed, more, ?_⟩
  intro earlier before
  by_cases same : earlier = index
  · subst same
    exact Block.setByte_self
  · exact (Block.setByte_of_ne (by omega)).trans
      (stored earlier (by omega))

/-- The rest of a store whose first bytes are already there. -/
theorem storeBytes_resume
    {offset index : Nat} {bytes : List UInt8} {block : Block}
    (stored :
      ∀ earlier < index, block (offset + earlier) = bytes.getD earlier 0) :
    storeBytes (offset + index) (bytes.drop index) block =
      storeBytes offset bytes block := by
  funext place
  rw [storeBytes_apply, storeBytes_apply, List.length_drop]
  by_cases inRest :
      offset + index ≤ place ∧ place < offset + index + (bytes.length - index)
  · rw [if_pos inRest, if_pos (by omega)]
    have split : place - offset = index + (place - (offset + index)) := by
      omega
    rw [split, List.getD, List.getD, List.getElem?_drop]
  · rw [if_neg inRest]
    by_cases inside : offset ≤ place ∧ place < offset + bytes.length
    · rw [if_pos inside]
      have before := stored (place - offset) (by omega)
      rwa [Nat.add_sub_cancel' inside.1] at before
    · rw [if_neg inside]

theorem holdsEntry_storeBytes
    {block : Block} {inode : Nat}
    (short : name.length ≤ nameLen) :
    HoldsEntry (storeBytes (entrySize * slot) (entryBytes inode name) block)
      slot inode name := by
  intro index inEntry
  rw [storeBytes_apply, length_entryBytes short, if_pos (by omega),
    Nat.add_sub_cancel_left]

/-- The directory after the last byte of the name and the number. -/
theorem here_store
    {index inode : Nat}
    (isName : IsName name)
    (live : inode ≠ 0)
    (small : inode < 65536)
    (here : Here name dir (.naming slot index)) :
    Directory.AtMostOne name
        { dir with
          entries :=
            (storeBytes (entrySize * slot + 2 + index)
              ((padded name).drop index) dir.entries).setWord
                (entrySize / 2 * slot) inode } ∧
      Here name
        { dir with
          entries :=
            (storeBytes (entrySize * slot + 2 + index)
              ((padded name).drop index) dir.entries).setWord
                (entrySize / 2 * slot) inode } (.created slot) := by
  obtain ⟨missing, inside, _, partly, stored⟩ := here
  have short := isName.short
  have touches :
      Touches slot dir.entries
        ((storeBytes (entrySize * slot + 2 + index)
          ((padded name).drop index) dir.entries).setWord
            (entrySize / 2 * slot) inode) :=
    (touches_storeBytes short (by omega)).trans touches_setWord
  have holds :
      HoldsEntry
        ((storeBytes (entrySize * slot + 2 + index)
          ((padded name).drop index) dir.entries).setWord
            (entrySize / 2 * slot) inode) slot inode name := by
    have partly' :
        ∀ earlier < index,
          dir.entries (entrySize * slot + 2 + earlier) =
            (padded name).getD earlier 0 := by
      intro earlier before
      rw [padded, List.getD_append _ _ _ _ (by omega)]
      exact stored earlier before
    rw [storeBytes_resume partly', setWord_storeBytes short]
    exact holdsEntry_storeBytes short
  have matched := (holds.matchEntry_iff isName isName live small).mpr rfl
  refine ⟨?_, inside, matched⟩
  have only (entry : Nat)
      (found : Directory.Live name
        { dir with
          entries :=
            (storeBytes (entrySize * slot + 2 + index)
              ((padded name).drop index) dir.entries).setWord
                (entrySize / 2 * slot) inode } entry) :
      entry = slot := by
    by_contra different
    have before := found.2
    rw [touches.matchEntry different] at before
    exact missing entry ⟨found.1, before⟩
  intro first second firstLive secondLive
  rw [only first firstLive, only second secondLive]

/-! ## Runs -/

section Runs

variable {world start last : World ι Directory Point} {task : ι}

/-- Every step that meets the condition keeps the calls one by one. -/
theorem keeps_step
    {ok : Bool} {next : Directory × Point}
    (isName : IsName name)
    (holds : (oneByOne name).Holds world)
    (alone : Alone name (task, ok) world)
    (moves :
      creating name creator task ok world.shared (world.point task) = some next) :
    (oneByOne name).Keeps world task next := by
  have here := holds.here task
  have single :
      (world.point task).InWindow →
        ∀ other, other ≠ task → ¬ (world.point other).InWindow :=
    alone_of_inWindow holds
  generalize point_eq : world.point task = point at *
  change Here name world.shared point at here
  cases point with
  | ready =>
    cases moves
    exact keeps_outside holds id id
  | finding entries i =>
    unfold creating at moves
    simp only at moves
    cases found :
        firstFrom (matchEntry name world.shared.entries) i
          (min entries (nextBlock i)) with
    | some _ =>
      rw [found] at moves
      cases moves
      exact keeps_outside holds id id
    | none =>
      rw [found] at moves
      simp only at moves
      by_cases more : nextBlock i < entries
      · rw [if_pos more] at moves
        cases moves
        exact keeps_outside holds id id
      · rw [if_neg more] at moves
        have least := Nat.not_lt.mp more
        rw [Nat.min_eq_left least] at found
        have missed : misses name world.shared entries i = true := by
          unfold misses
          rw [found, decide_eq_true least]
          rfl
        obtain ⟨missing, outside⟩ := alone entries i point_eq missed
        by_cases makes : (creator task).call.makesInode = true
        · rw [if_pos makes] at moves
          cases moves
          exact keeps_window holds missing outside
            holds.shared missing
        · rw [if_neg makes] at moves
          cases moves
          exact keeps_window holds missing outside
            holds.shared ⟨missing, Nat.zero_le _⟩
  | preparing =>
    cases moves
    cases ok with
    | true =>
      exact keeps_window holds here (single trivial) here.atMostOne
        ⟨here, Nat.zero_le _⟩
    | false =>
      exact keeps_outside holds id id
  | adding i =>
    obtain ⟨missing, atMost⟩ := here
    unfold creating at moves
    simp only at moves
    by_cases full : (!ok && i != 0) = true
    · rw [if_pos full] at moves
      cases moves
      exact keeps_outside holds id id
    · rw [if_neg full] at moves
      cases found :
          firstFrom world.shared.usable i (nextBlock i) with
      | some slot =>
        rw [found] at moves
        cases moves
        obtain ⟨missing', here'⟩ :=
          here_extend isName missing atMost found
        exact keeps_window holds missing (single trivial)
          missing'.atMostOne here'
      | none =>
        rw [found] at moves
        cases moves
        refine keeps_window holds missing (single trivial)
          holds.shared ⟨missing, ?_⟩
        by_contra beyond
        have passes : world.shared.usable world.shared.size = true := by
          unfold Directory.usable
          rw [decide_eq_true (Nat.le_refl _), Bool.true_or]
        rw [firstFrom_none found atMost (Nat.not_le.mp beyond)]
          at passes
        exact Bool.false_ne_true passes
  | naming slot index =>
    obtain ⟨missing, _⟩ := id here
    unfold creating at moves
    simp only at moves
    by_cases more : index + 1 < name.length
    · rw [if_pos more] at moves
      cases moves
      obtain ⟨missing', here'⟩ := here_setByte isName here more
      exact keeps_window holds missing (single trivial)
        missing'.atMostOne here'
    · rw [if_neg more] at moves
      cases moves
      obtain ⟨atMostOne, here'⟩ :=
        here_store isName (creator task).live (creator task).small here
      exact keeps_window holds missing (single trivial) atMostOne here'
  | created slot =>
    cases moves
  | ended =>
    cases moves

/-- No call has begun, and at most one entry has the name. -/
structure Start
    (name : List UInt8)
    (world : World ι Directory Point) : Prop where
  ready :
    ∀ task, world.point task = .ready
  atMostOne :
    world.shared.AtMostOne name

theorem Start.oneByOne
    (starts : Start name start) :
    (oneByOne name).Holds start where
  shared := starts.atMostOne
  here task := by
    rw [starts.ready]
    trivial
  apart task _ _ := by
    rw [starts.ready task]
    exact ⟨fun both => both.1, fun both => both.1⟩

theorem given_cases
    {point : Point}
    (given : point.Given slot) :
    point.InWindow ∨ point = .created slot := by
  cases point with
  | naming _ _ => exact Or.inl trivial
  | created _ => exact Or.inr (congrArg _ given)
  | ready => exact given.elim
  | finding _ _ => exact given.elim
  | preparing => exact given.elim
  | adding _ => exact given.elim
  | ended => exact given.elim

theorem oneEntry_of_oneByOne
    (holds : (oneByOne name).Holds world) :
    OneEntry name world where
  atMostOne := holds.shared
  ownSlots task other slot different given otherGiven := by
    have apart := holds.apart task other different
    rcases given_cases given with inWindow | created
    · rcases given_cases otherGiven with otherIn | otherCreated
      · exact apart.1 ⟨inWindow, otherIn⟩
      · refine (holds.here other).not_created
          ((holds.here task).missing inWindow) ?_
        rw [otherCreated]
        trivial
    · rcases given_cases otherGiven with otherIn | otherCreated
      · refine (holds.here task).not_created
          ((holds.here other).missing otherIn) ?_
        rw [created]
        trivial
      · refine apart.2 ?_
        rw [created, otherCreated]
        exact ⟨trivial, trivial⟩

variable [DecidableEq ι]

/--
In every run in which each search ends with a miss only while no live entry has
the name and no other call is between its miss and its store, at most one live
entry has the name, and no two calls are given one slot.
-/
theorem oneEntry_of_alone
    {labels : List (ι × Bool)}
    (isName : IsName name)
    (starts : Start name start)
    (run :
      Traces ((creating name creator).StepIf (Alone name)) labels start
        last) :
    OneEntry name last :=
  oneEntry_of_oneByOne
    (starts.oneByOne.run
      (fun _ _ _ _ holds alone moves =>
        keeps_step isName holds alone moves) run)

end Runs

/-- Every interleaving of the calls yields one entry. -/
def YieldsOneEntry
    (name : List UInt8)
    (creator : Bool → Creator)
    (start : World Bool Directory Point) : Prop :=
  ∀ labels last,
    Traces (creating name creator).Step labels start last → OneEntry name last

/-- Two calls that link an inode under the name. -/
def twoLinks (task : Bool) : Creator where
  call := .link
  inode := if task then 5 else 6
  live := by cases task <;> decide
  small := by cases task <;> decide

/-- A directory without entries, and no call begun. -/
def emptyStart : World Bool Directory Point where
  shared := { size := 0, entries := .zeros }
  point _ := .ready

theorem emptyStart_start
    {name : List UInt8} :
    Start name emptyStart where
  ready _ := rfl
  atMostOne first _ live := absurd live.1 (Nat.not_lt_zero first)

/-- Both calls miss the name, and then both add it. -/
def bothMiss : List (Bool × Bool) :=
  [(false, true), (true, true), (false, true), (true, true),
    (false, true), (false, true), (true, true), (true, true)]

theorem not_yieldsOneEntry : ¬ YieldsOneEntry [97] twoLinks emptyStart := by
  intro yields
  have runs :
      ∃ last, (creating [97] twoLinks).run bothMiss emptyStart = some last ∧
        last.shared.Live [97] 0 ∧ last.shared.Live [97] 1 := by
    refine ⟨_, rfl, ?_, ?_⟩
    · exact ⟨by decide, by decide⟩
    · exact ⟨by decide, by decide⟩
  obtain ⟨last, run, first, second⟩ := runs
  have oneEntry := yields bothMiss last (Program.traces_of_run run)
  exact absurd (oneEntry.atMostOne 0 1 first second) (by decide)

theorem alone_of_not_finding
    {ι : Type} {name : List UInt8} {label : ι × Bool}
    {world : World ι Directory Point}
    (elsewhere : ∀ entries i, world.point label.1 ≠ .finding entries i) :
    Alone name label world :=
  fun entries i stands => absurd stands (elsewhere entries i)

theorem alone_of_found
    {ι : Type} {name : List UInt8} {label : ι × Bool} {entries i : Nat}
    {world : World ι Directory Point}
    (stands : world.point label.1 = .finding entries i)
    (found : misses name world.shared entries i = false) :
    Alone name label world := by
  intro entries' i' at' missed
  rw [stands] at at'
  cases at'
  rw [found] at missed
  exact absurd missed Bool.false_ne_true

/-- One call adds the name, and the other one finds it. -/
theorem oneEntry_of_alone_links :
    ∃ labels last,
      Traces ((creating [97] twoLinks).StepIf (Alone [97])) labels
        emptyStart last ∧
      last.point false = .created 0 ∧ last.point true = .ended ∧
        OneEntry [97] last := by
  have runs :
      ∃ last,
        Traces ((creating [97] twoLinks).StepIf (Alone [97]))
          [(false, true), (false, true), (false, true), (false, true),
            (true, true), (true, true)] emptyStart last ∧
        last.point false = .created 0 ∧ last.point true = .ended := by
    refine ⟨_, .next ⟨rfl, ?_⟩ (.next ⟨rfl, ?_⟩ (.next ⟨rfl, ?_⟩
      (.next ⟨rfl, ?_⟩ (.next ⟨rfl, ?_⟩ (.next ⟨rfl, ?_⟩
        (.done _)))))), rfl, rfl⟩
    · exact alone_of_not_finding fun _ _ impossible => nomatch impossible
    · intro _ _ _ _
      refine ⟨fun slot live => absurd live.1 (Nat.not_lt_zero slot), ?_⟩
      intro other different
      cases other with
      | false => exact absurd rfl different
      | true => exact id
    · exact alone_of_not_finding fun _ _ impossible => nomatch impossible
    · exact alone_of_not_finding fun _ _ impossible => nomatch impossible
    · exact alone_of_not_finding fun _ _ impossible => nomatch impossible
    · exact alone_of_found rfl (by decide)
  obtain ⟨last, run, first, second⟩ := runs
  have isName : IsName [97] :=
    ⟨by decide, by decide, by decide⟩
  exact ⟨_, last, run, first, second, oneEntry_of_alone isName emptyStart_start run⟩

end Creators

end HitOs
