import HitOs.Blocks
import HitOs.Routine
import Mathlib.Data.List.FinRange
import Mathlib.Logic.Function.Basic

namespace HitOs

/-!
# The search for a free zone

`new_block` on the blocks of the bitmap as they are in memory: long words that are
scanned one after the other.  Only the buffers of one device are here.
-/

namespace ZoneSearch

open Routine

/-- A block of the bitmap in its buffer: `b_data` as long words, and `b_dirt`. -/
structure Map where
  long : Nat → BitVec 32
  dirt : Bool

namespace Map

def bit (map : Map) (nr : Nat) : Bool :=
  (map.long (nr / 32)).getLsbD (nr % 32)

/-- What `set_bit` stores. -/
def setBit (nr : Nat) (map : Map) : Map :=
  { map with
    long :=
      Function.update map.long (nr / 32)
        (map.long (nr / 32) ||| 1#32 <<< (nr % 32)) }

end Map

/-- `bsfl`; none where it sets the zero flag -/
def bsf (value : BitVec 32) : Option Nat :=
  (List.range 32).find? fun bit => value.getLsbD bit

/-- The loop of `find_first_zero`, which has passed `ecx` bits. -/
def findFirstZeroFrom (long : Nat → BitVec 32) : Nat → Nat → Nat
  | 0, ecx => ecx
  | turns + 1, ecx =>
    match bsf (~~~long (ecx / 32)) with
    | some edx => ecx + edx
    | none => findFirstZeroFrom long turns (ecx + 32)

/-- `find_first_zero` -/
def findFirstZero (map : Map) : Nat :=
  findFirstZeroFrom map.long 256 0

/-- The fields of `super_block` that `new_block` reads, and the length of the map. -/
structure SuperBlock where
  nzones : Nat
  zmapBlocks : Nat
  firstDataZone : Nat
  zmap : Fin 8 → Option Map

/-- The buffer of a block. -/
structure Buffer where
  data : Block
  count : Nat
  uptodate : Bool
  dirt : Bool

/-- What `get_super` finds for a device, and which of its blocks are in the cache. -/
structure Volume where
  super : Option SuperBlock
  cached : Nat → Option Buffer

/-- The buffer that `getblk` takes for a block that is not in the cache. -/
structure Victim where
  block : Option Nat
  data : Block

namespace Volume

def setMap (i : Fin 8) (change : Map → Map) (volume : Volume) : Volume :=
  { volume with
    super :=
      volume.super.map fun sb =>
        { sb with
          zmap := Function.update sb.zmap i ((sb.zmap i).map change) } }

def setBuffer (block : Nat) (buffer : Buffer) (volume : Volume) : Volume :=
  { volume with cached := Function.update volume.cached block (some buffer) }

def evict (block : Nat) (volume : Volume) : Volume :=
  { volume with cached := Function.update volume.cached block none }

end Volume

/-- `getblk`; it always returns a buffer -/
def getblk (victim : Victim) (block : Nat) : Routine Volume Buffer := do
  let volume ← read
  match volume.cached block with
  | some buffer =>
    let buffer := { buffer with count := buffer.count + 1 }
    update (Volume.setBuffer block buffer)
    pure buffer
  | none =>
    if let some other := victim.block then
      update (Volume.evict other)
    let buffer :=
      { data := victim.data, count := 1, uptodate := false, dirt := false }
    update (Volume.setBuffer block buffer)
    pure buffer

/-- `brelse` -/
def brelse (block : Nat) (buffer : Buffer) : Routine Volume Unit :=
  if buffer.count = 0 then
    Routine.panic "Trying to free free buffer"
  else
    update (Volume.setBuffer block { buffer with count := buffer.count - 1 })

/-- The loop over `s_zmap`: where it breaks, and what it found there. -/
def findMap (zmap : Fin 8 → Option Map) : Option (Fin 8 × Map) :=
  (List.finRange 8).findSome? fun i =>
    match zmap i with
    | none => none
    | some map => if findFirstZero map < 8192 then some (i, map) else none

/-- `new_block` -/
def newBlock (victim : Victim) : Routine Volume Nat := do
  let volume ← read
  match volume.super with
  | none => Routine.panic "trying to get new block from nonexistant device"
  | some sb =>
    match findMap sb.zmap with
    | none => pure 0
    | some (i, map) =>
      let j := findFirstZero map
      update (Volume.setMap i (Map.setBit j))
      if map.bit j then
        Routine.panic "new_block: bit already set"
      else
        update (Volume.setMap i fun map => { map with dirt := true })
        let j := j + i * 8192 + sb.firstDataZone - 1
        -- The bit stays set if it belongs to no zone.
        if sb.nzones ≤ j then
          pure 0
        else
          let buffer ← getblk victim j
          if buffer.count ≠ 1 then
            Routine.panic "new block: count is != 1"
          else
            let buffer :=
              { buffer with data := .zeros, uptodate := true, dirt := true }
            update (Volume.setBuffer j buffer)
            brelse j buffer
            pure j

/-- The bit of the whole map; set where the map has no block. -/
def SuperBlock.bit (sb : SuperBlock) (nr : Nat) : Bool :=
  if inside : nr / 8192 < 8 then
    match sb.zmap ⟨nr / 8192, inside⟩ with
    | some map => map.bit (nr % 8192)
    | none => true
  else
    true

/-- The bit of a zone. -/
def SuperBlock.place (sb : SuperBlock) (zone : Nat) : Nat :=
  zone - (sb.firstDataZone - 1)

/-- A zone of the device that no file has. -/
def SuperBlock.Free (sb : SuperBlock) (zone : Nat) : Prop :=
  sb.firstDataZone ≤ zone ∧ zone < sb.nzones ∧ sb.bit (sb.place zone) = false

/-- A super block whose map covers its zones, and no buffer of a free zone in use. -/
structure Consistent
    (sb : SuperBlock)
    (cached : Nat → Option Buffer) : Prop where
  positive :
    0 < sb.firstDataZone
  ordered :
    sb.firstDataZone ≤ sb.nzones
  small :
    sb.nzones < 65536
  mapped :
    sb.nzones < sb.firstDataZone + 8192 * sb.zmapBlocks
  present :
    ∀ i, (sb.zmap i).isSome ↔ i.val < sb.zmapBlocks
  reserved :
    sb.bit 0 = true
  unused :
    ∀ zone buffer, sb.Free zone → cached zone = some buffer → buffer.count = 0

/-- The lowest free zone, with its bit set and its buffer cleared. -/
structure Given
    (before after : SuperBlock)
    (cached : Nat → Option Buffer)
    (zone : Nat) : Prop where
  free :
    before.Free zone
  lowest :
    ∀ other, before.Free other → zone ≤ other
  marked :
    ∀ nr, after.bit nr = (before.bit nr || nr == before.place zone)
  cleared :
    cached zone = some { data := .zeros, count := 0, uptodate := true, dirt := true }

/-- No zone is free, and the map has stayed as it is. -/
structure Refused (before after : SuperBlock) : Prop where
  full :
    ∀ other, ¬ before.Free other
  kept :
    ∀ nr, after.bit nr = before.bit nr

/-- What a call returns is a zone that is given, or zero where there is none. -/
def Exact (victim : Victim) (volume : Volume) (sb : SuperBlock) : Prop :=
  ∃ zone after last,
    newBlock victim volume = .ret zone after ∧
      after.super = some last ∧
      (zone ≠ 0 ∧ Given sb last after.cached zone ∨ zone = 0 ∧ Refused sb last)

/-- Every bit of the map after that of the last zone is set. -/
def SuperBlock.Sealed (sb : SuperBlock) : Prop :=
  ∀ nr, sb.place sb.nzones ≤ nr → sb.bit nr = true

variable {map : Map} {nr other : Nat}

theorem Map.bit_setBit :
    (map.setBit nr).bit other = (map.bit other || other == nr) := by
  unfold bit setBit
  dsimp only
  by_cases sameLong : other / 32 = nr / 32
  · rw [sameLong, Function.update_self, BitVec.getLsbD_or]
    congr 1
    have inside := Nat.mod_lt other (Nat.zero_lt_succ 31)
    have inside' := Nat.mod_lt nr (Nat.zero_lt_succ 31)
    rw [BitVec.getLsbD_shiftLeft, BitVec.getLsbD_one, Bool.eq_iff_iff]
    simp only [Bool.and_eq_true, decide_eq_true_eq, Bool.not_eq_true',
      decide_eq_false_iff_not, beq_iff_eq]
    omega
  · rw [Function.update_of_ne sameLong]
    have different : other ≠ nr := fun same => sameLong (by rw [same])
    simp [different]

theorem bsf_some
    {value : BitVec 32} {bit : Nat}
    (found : bsf value = some bit) :
    bit < 32 ∧ value.getLsbD bit = true ∧
      ∀ lower < bit, value.getLsbD lower = false := by
  obtain ⟨set, inside, lowest⟩ := List.find?_range_eq_some.mp found
  exact ⟨List.mem_range.mp inside, set, fun lower below => by
    simpa using lowest lower below⟩

theorem bsf_none
    {value : BitVec 32}
    (nothing : bsf value = none)
    {bit : Nat}
    (inside : bit < 32) :
    value.getLsbD bit = false := by
  simpa using List.find?_range_eq_none.mp nothing bit inside

/-- All bits before the one found are set, and that one is not, or it is the end. -/
structure FirstZero (bits : Nat → Bool) (limit found : Nat) : Prop where
  inside :
    found ≤ limit
  before :
    ∀ nr < found, bits nr = true
  zero :
    found < limit → bits found = false

/-- One word: all its bits are set, or the first that is not is found. -/
theorem bit_of_word
    (word bit : Nat)
    (inside : bit < 32) :
    map.bit (32 * word + bit) = !(~~~map.long word).getLsbD bit := by
  unfold Map.bit
  rw [show (32 * word + bit) / 32 = word by omega,
    show (32 * word + bit) % 32 = bit by omega,
    BitVec.getLsbD_not]
  simp [inside]

theorem findFirstZeroFrom_spec
    (turns word : Nat)
    (before : ∀ nr < 32 * word, map.bit nr = true) :
    FirstZero map.bit (32 * (word + turns))
      (findFirstZeroFrom map.long turns (32 * word)) := by
  induction turns generalizing word with
  | zero =>
    exact ⟨Nat.le_refl _, before, fun less => absurd less (Nat.lt_irrefl _)⟩
  | succ turns inductionHypothesis =>
    simp only [findFirstZeroFrom]
    rw [Nat.mul_div_cancel_left word (Nat.zero_lt_succ 31)]
    cases found : bsf (~~~map.long word) with
    | some bit =>
      obtain ⟨inside, clear, lowest⟩ := bsf_some found
      dsimp only
      refine ⟨by omega, ?_, ?_⟩
      · intro nr below
        by_cases passed : nr < 32 * word
        · exact before nr passed
        · have split : nr = 32 * word + (nr - 32 * word) := by omega
          rw [split, bit_of_word word _ (by omega), lowest _ (by omega)]
          rfl
      · intro _
        rw [bit_of_word word bit inside, clear]
        rfl
    | none =>
      have next :=
        inductionHypothesis (word + 1) (fun nr below => by
          by_cases passed : nr < 32 * word
          · exact before nr passed
          · have split : nr = 32 * word + (nr - 32 * word) := by omega
            rw [split, bit_of_word word _ (by omega), bsf_none found (by omega)]
            rfl)
      rw [show word + 1 + turns = word + (turns + 1) by omega] at next
      exact next

theorem findFirstZero_spec (map : Map) :
    FirstZero map.bit 8192 (findFirstZero map) :=
  findFirstZeroFrom_spec 256 0 fun _ below => absurd below (Nat.not_lt_zero _)

variable {sb : SuperBlock} {i : Fin 8}

theorem SuperBlock.bit_of_map
    (there : sb.zmap i = some map)
    (inside : nr < 8192) :
    sb.bit (i * 8192 + nr) = map.bit nr := by
  have quotient : (i * 8192 + nr) / 8192 = i := by omega
  have remainder : (i * 8192 + nr) % 8192 = nr := by omega
  unfold bit
  rw [dif_pos (by omega), show (⟨(i * 8192 + nr) / 8192, by omega⟩ : Fin 8) = i from
    Fin.ext quotient, there, remainder]

/-- A clear bit lies in a block of the map. -/
theorem SuperBlock.exists_map
    (clear : sb.bit nr = false) :
    ∃ (inside : nr / 8192 < 8) (map : Map),
      sb.zmap ⟨nr / 8192, inside⟩ = some map ∧ map.bit (nr % 8192) = false := by
  unfold bit at clear
  split at clear
  · rename_i inside
    split at clear
    · rename_i map there
      exact ⟨inside, map, there, clear⟩
    · cases clear
  · cases clear

/-- A clear bit of a block lies at or after the first one. -/
theorem findFirstZero_le
    (clear : map.bit nr = false) :
    findFirstZero map ≤ nr := by
  by_contra later
  have set := (findFirstZero_spec map).before nr (Nat.lt_of_not_le later)
  rw [clear] at set
  cases set

theorem findMap_none
    (nothing : findMap sb.zmap = none)
    (nr : Nat) :
    sb.bit nr = true := by
  by_contra clear
  obtain ⟨inside, map, there, clear⟩ :=
    SuperBlock.exists_map (Bool.eq_false_of_not_eq_true clear)
  have missed :=
    List.findSome?_eq_none_iff.mp nothing ⟨nr / 8192, inside⟩ (List.mem_finRange _)
  rw [there] at missed
  have low := findFirstZero_le clear
  have bound := Nat.mod_lt nr (Nat.zero_lt_succ 8191)
  dsimp only at missed
  rw [if_pos (by omega)] at missed
  cases missed

theorem findMap_some
    (found : findMap sb.zmap = some (i, map)) :
    sb.zmap i = some map ∧ findFirstZero map < 8192 ∧
      ∀ nr, sb.bit nr = false → i * 8192 + findFirstZero map ≤ nr := by
  obtain ⟨earlier, stop, later, shape, stops, passed⟩ :=
    List.findSome?_eq_some_iff.mp found
  cases there : sb.zmap stop with
  | none =>
    rw [there] at stops
    cases stops
  | some map =>
    rw [there] at stops
    dsimp only at stops
    split at stops
    · rename_i zero
      cases stops
      refine ⟨there, zero, fun nr clear => ?_⟩
      obtain ⟨inside, other, thereToo, clear⟩ := SuperBlock.exists_map clear
      have bound := Nat.mod_lt nr (Nat.zero_lt_succ 8191)
      have low := findFirstZero_le clear
      -- The block of the bit is not one that the loop has passed.
      have notEarlier : ⟨nr / 8192, inside⟩ ∉ earlier := by
        intro member
        have missed := passed _ member
        rw [thereToo] at missed
        dsimp only at missed
        rw [if_pos (by omega)] at missed
        cases missed
      have member : (⟨nr / 8192, inside⟩ : Fin 8) ∈ earlier ++ i :: later :=
        shape ▸ List.mem_finRange _
      have sorted : (earlier ++ i :: later).Pairwise (· < ·) :=
        shape ▸ List.pairwise_lt_finRange 8
      rcases List.mem_append.mp member with isEarlier | rest
      · exact absurd isEarlier notEarlier
      rcases List.mem_cons.mp rest with same | isLater
      · rw [← same] at there ⊢
        cases there.symm.trans thereToo
        dsimp only
        omega
      · have above :=
          List.rel_of_pairwise_cons (List.pairwise_append.mp sorted).2.1 isLater
        have further : i.val < nr / 8192 := above
        omega
    · cases stops

variable {victim : Victim} {volume : Volume}

/-- The super block once a bit is set in its map. -/
def SuperBlock.mark (i : Fin 8) (nr : Nat) (sb : SuperBlock) : SuperBlock :=
  { sb with
    zmap :=
      Function.update sb.zmap i
        ((sb.zmap i).map fun map => { map.setBit nr with dirt := true }) }

theorem SuperBlock.bit_mark
    (there : sb.zmap i = some map)
    {place : Nat}
    (inside : place < 8192) :
    (sb.mark i place).bit nr = (sb.bit nr || nr == i * 8192 + place) := by
  unfold mark bit
  dsimp only
  split_ifs with covered
  · by_cases same : (⟨nr / 8192, covered⟩ : Fin 8) = i
    · rw [same, Function.update_self, there]
      change ((map.setBit place).bit (nr % 8192)) = _
      have quotient : nr / 8192 = i := congrArg Fin.val same
      rw [Map.bit_setBit]
      dsimp only
      congr 1
      rw [Bool.eq_iff_iff, beq_iff_eq, beq_iff_eq]
      omega
    · rw [Function.update_of_ne same]
      have different : nr ≠ i * 8192 + place := by
        intro equal
        exact same (Fin.ext (show nr / 8192 = i.val by omega))
      simp [different]
  · rfl

theorem getblk_unused
    (victim : Victim)
    (volume : Volume)
    {block : Nat}
    (unused : ∀ buffer, volume.cached block = some buffer → buffer.count = 0) :
    ∃ buffer after,
      getblk victim block volume = .ret buffer after ∧
        buffer.count = 1 ∧ after.super = volume.super := by
  unfold getblk
  have reads : (Routine.read : Routine Volume Volume) volume = .ret volume volume := rfl
  rw [bind_of_ret reads]
  cases present : volume.cached block with
  | some buffer =>
    have free := unused buffer present
    exact ⟨_, _, rfl, by dsimp only; omega, rfl⟩
  | none =>
    cases other : victim.block with
    | none =>
      exact ⟨_, _, rfl, rfl, rfl⟩
    | some other =>
      exact ⟨_, _, rfl, rfl, rfl⟩

/-- The state once a bit is set and its block of the map is dirty. -/
def Volume.mark (i : Fin 8) (nr : Nat) (volume : Volume) : Volume :=
  (volume.setMap i (Map.setBit nr)).setMap i fun map => { map with dirt := true }

theorem super_mark
    (nr : Nat)
    (mounted : volume.super = some sb)
    (there : sb.zmap i = some map) :
    (volume.mark i nr).super = some (sb.mark i nr) := by
  unfold Volume.mark Volume.setMap SuperBlock.mark
  rw [mounted]
  simp [there]

/-- The block whose bit is set. -/
def SuperBlock.zoneAt (sb : SuperBlock) (i : Fin 8) (map : Map) : Nat :=
  findFirstZero map + i * 8192 + sb.firstDataZone - 1

theorem newBlock_full
    (mounted : volume.super = some sb)
    (nothing : findMap sb.zmap = none) :
    newBlock victim volume = .ret 0 volume := by
  unfold newBlock
  have reads : (Routine.read : Routine Volume Volume) volume = .ret volume volume := rfl
  rw [bind_of_ret reads, mounted]
  dsimp only
  rw [nothing]
  rfl

/-- With a bit that is not set, the call gets past the first panic. -/
theorem newBlock_found
    (mounted : volume.super = some sb)
    (found : findMap sb.zmap = some (i, map)) :
    newBlock victim volume =
      (if sb.nzones ≤ sb.zoneAt i map then
        pure 0
      else do
        let buffer ← getblk victim (sb.zoneAt i map)
        if buffer.count ≠ 1 then
          Routine.panic "new block: count is != 1"
        else
          let buffer :=
            { buffer with data := .zeros, uptodate := true, dirt := true }
          update (Volume.setBuffer (sb.zoneAt i map) buffer)
          brelse (sb.zoneAt i map) buffer
          pure (sb.zoneAt i map) : Routine Volume Nat)
        (volume.mark i (findFirstZero map)) := by
  obtain ⟨there, below, _⟩ := findMap_some found
  have clear : map.bit (findFirstZero map) = false :=
    (findFirstZero_spec map).zero below
  unfold newBlock
  have reads : (Routine.read : Routine Volume Volume) volume = .ret volume volume := rfl
  rw [bind_of_ret reads, mounted]
  dsimp only
  rw [found]
  dsimp only
  have sets :
      (update (Volume.setMap i (Map.setBit (findFirstZero map)))) volume =
        .ret () (volume.setMap i (Map.setBit (findFirstZero map))) := rfl
  rw [bind_of_ret sets, clear]
  rfl

theorem newBlock_beyond
    (mounted : volume.super = some sb)
    (found : findMap sb.zmap = some (i, map))
    (beyond : sb.nzones ≤ sb.zoneAt i map) :
    newBlock victim volume = .ret 0 (volume.mark i (findFirstZero map)) := by
  rw [newBlock_found mounted found, if_pos beyond]
  rfl

theorem newBlock_inside
    (victim : Victim)
    (mounted : volume.super = some sb)
    (found : findMap sb.zmap = some (i, map))
    (inside : sb.zoneAt i map < sb.nzones)
    (unused :
      ∀ buffer, volume.cached (sb.zoneAt i map) = some buffer → buffer.count = 0) :
    ∃ after,
      newBlock victim volume = .ret (sb.zoneAt i map) after ∧
        after.super = some (sb.mark i (findFirstZero map)) ∧
        after.cached (sb.zoneAt i map) =
          some { data := .zeros, count := 0, uptodate := true, dirt := true } := by
  rw [newBlock_found mounted found, if_neg (Nat.not_le.mpr inside)]
  have marked := super_mark (findFirstZero map) mounted (findMap_some found).1
  obtain ⟨buffer, after, obtained, one, same⟩ :=
    getblk_unused victim (volume.mark i (findFirstZero map)) unused
  rw [bind_of_ret obtained, if_neg (by rw [one]; exact fun different => different rfl)]
  rw [one]
  refine ⟨_, rfl, same.trans marked, ?_⟩
  exact Function.update_self _ _ _

variable {cached : Nat → Option Buffer}

/-- The first clear bit is that of the block that the call takes. -/
theorem place_zoneAt
    (consistent : Consistent sb cached)
    (found : findMap sb.zmap = some (i, map)) :
    sb.place (sb.zoneAt i map) = i * 8192 + findFirstZero map ∧
      sb.firstDataZone ≤ sb.zoneAt i map := by
  obtain ⟨there, below, _⟩ := findMap_some found
  have clear := (findFirstZero_spec map).zero below
  have positive := consistent.positive
  have reserved := consistent.reserved
  have notFirst : i * 8192 + findFirstZero map ≠ 0 := by
    intro first
    rw [← first, SuperBlock.bit_of_map there below, clear] at reserved
    cases reserved
  unfold SuperBlock.place SuperBlock.zoneAt
  omega

/-- No free zone comes before the block that the call takes. -/
theorem zoneAt_le
    (consistent : Consistent sb cached)
    (found : findMap sb.zmap = some (i, map))
    {zone : Nat}
    (free : sb.Free zone) :
    sb.zoneAt i map ≤ zone := by
  obtain ⟨start, _, clear⟩ := free
  have first := (findMap_some found).2.2 _ clear
  have positive := consistent.positive
  unfold SuperBlock.place at first
  unfold SuperBlock.zoneAt
  omega

theorem zoneAt_free
    (consistent : Consistent sb cached)
    (found : findMap sb.zmap = some (i, map))
    (inside : sb.zoneAt i map < sb.nzones) :
    sb.Free (sb.zoneAt i map) := by
  obtain ⟨there, below, _⟩ := findMap_some found
  obtain ⟨place, start⟩ := place_zoneAt consistent found
  refine ⟨start, inside, ?_⟩
  rw [place, SuperBlock.bit_of_map there below]
  exact (findFirstZero_spec map).zero below

theorem exact_inside
    (consistent : Consistent sb volume.cached)
    (mounted : volume.super = some sb)
    (found : findMap sb.zmap = some (i, map))
    (inside : sb.zoneAt i map < sb.nzones) :
    Exact victim volume sb := by
  have free := zoneAt_free consistent found inside
  obtain ⟨place, start⟩ := place_zoneAt consistent found
  obtain ⟨after, returned, last, buffer⟩ :=
    newBlock_inside victim mounted found inside
      fun buffer present => consistent.unused _ buffer free present
  have positive := consistent.positive
  refine ⟨_, after, _, returned, last, Or.inl ⟨by omega, ?_⟩⟩
  exact
    { free := free
      lowest := fun other => zoneAt_le consistent found
      marked := fun nr => by
        rw [place]
        exact SuperBlock.bit_mark (findMap_some found).1 (findMap_some found).2.1
      cleared := buffer }

theorem not_exact_beyond
    (mounted : volume.super = some sb)
    (found : findMap sb.zmap = some (i, map))
    (beyond : sb.nzones ≤ sb.zoneAt i map) :
    ¬ Exact victim volume sb := by
  rintro ⟨zone, after, last, returned, there, given | refused⟩
  · rw [newBlock_beyond mounted found beyond] at returned
    cases returned
    exact given.1 rfl
  · rw [newBlock_beyond mounted found beyond] at returned
    cases returned
    obtain ⟨present, below, _⟩ := findMap_some found
    have marked := super_mark (findFirstZero map) mounted present
    cases there.symm.trans marked
    have kept := refused.2.kept (i * 8192 + findFirstZero map)
    rw [SuperBlock.bit_mark present below, SuperBlock.bit_of_map present below,
      (findFirstZero_spec map).zero below] at kept
    simp at kept

/--
A call is exact if and only if a zone is free, or no bit after that of the last zone
is clear.
-/
theorem newBlock_exact_iff
    (victim : Victim)
    (volume : Volume)
    (sb : SuperBlock)
    (consistent : Consistent sb volume.cached)
    (mounted : volume.super = some sb) :
    Exact victim volume sb ↔ (∃ zone, sb.Free zone) ∨ sb.Sealed := by
  cases found : findMap sb.zmap with
  | none =>
    have set := findMap_none found
    refine ⟨fun _ => Or.inr fun nr _ => set nr, fun _ => ?_⟩
    refine ⟨0, volume, sb, newBlock_full mounted found, mounted, Or.inr ⟨rfl, ?_⟩⟩
    refine ⟨fun other free => ?_, fun _ => rfl⟩
    have clear := free.2.2
    rw [set] at clear
    cases clear
  | some stop =>
    obtain ⟨i, map⟩ := stop
    obtain ⟨present, below, _⟩ := findMap_some found
    by_cases inside : sb.zoneAt i map < sb.nzones
    · exact ⟨fun _ => Or.inl ⟨_, zoneAt_free consistent found inside⟩,
        fun _ => exact_inside consistent mounted found inside⟩
    · have beyond := Nat.le_of_not_lt inside
      refine ⟨fun exactly => absurd exactly (not_exact_beyond mounted found beyond),
        fun condition => ?_⟩
      rcases condition with ⟨zone, free⟩ | full
      · have low := zoneAt_le consistent found free
        exact absurd (Nat.lt_of_le_of_lt low free.2.1) inside
      · have place := (place_zoneAt consistent found).1
        have set := full (i * 8192 + findFirstZero map) (by
          rw [← place]
          unfold SuperBlock.place
          omega)
        rw [SuperBlock.bit_of_map present below,
          (findFirstZero_spec map).zero below] at set
        cases set

/-- Three zones from the fifth block on, and a map whose first bits are set. -/
def threeZones (taken : BitVec 32) : SuperBlock where
  nzones := 8
  zmapBlocks := 1
  firstDataZone := 5
  zmap i :=
    if i = 0 then
      some { long := fun word => if word = 0 then taken else 0#32, dirt := false }
    else
      none

def threeVolume (taken : BitVec 32) : Volume where
  super := some (threeZones taken)
  cached _ := none

theorem consistent_threeZones
    {taken : BitVec 32}
    (reserved : taken.getLsbD 0 = true) :
    Consistent (threeZones taken) (threeVolume taken).cached where
  positive := Nat.zero_lt_succ 4
  ordered := by
    change 5 ≤ 8
    omega
  small := by
    change 8 < 65536
    omega
  mapped := by
    change 8 < 5 + 8192 * 1
    omega
  present := by
    intro i
    unfold threeZones
    dsimp only
    split_ifs with first
    · simp [first]
    · simp only [Option.isSome_none, Bool.false_eq_true, false_iff]
      omega
  reserved := reserved
  unused := fun _ _ _ present => nomatch present

/-- With two zones taken, the third one is given. -/
theorem newBlock_exact_iff_third :
    Exact ⟨none, .zeros⟩ (threeVolume 0x7#32) (threeZones 0x7#32) :=
  (newBlock_exact_iff _ _ _ (consistent_threeZones (by decide)) rfl).mpr
    (Or.inl ⟨7, by decide, by decide, by decide⟩)

/-- With all three taken, the bit after theirs is set, and the call returns zero. -/
theorem newBlock_sets_no_zone :
    Consistent (threeZones 0xf#32) (threeVolume 0xf#32).cached ∧
      (threeVolume 0xf#32).super = some (threeZones 0xf#32) ∧
      ¬ Exact ⟨none, .zeros⟩ (threeVolume 0xf#32) (threeZones 0xf#32) := by
  refine ⟨consistent_threeZones (by decide), rfl, ?_⟩
  have map : findFirstZero
      { long := fun word => if word = 0 then 0xf#32 else 0#32, dirt := false } = 4 := by
    decide
  have found :
      findMap (threeZones 0xf#32).zmap =
        some (0,
          { long := fun word => if word = 0 then 0xf#32 else 0#32, dirt := false }) := by
    rfl
  apply not_exact_beyond rfl found
  unfold SuperBlock.zoneAt
  rw [map]
  decide

end ZoneSearch

end HitOs
