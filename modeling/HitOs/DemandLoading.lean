import HitOs.ExecLimits
import HitOs.FileData
import HitOs.PageRuns
import HitOs.PageSharing

namespace HitOs

/-!
# Loading a program on demand

`do_no_page` with `share_page` and `bread_page`, over the memory and the file system
together.  The blocks of the file are looked up with `bmap`, those that there are get
copied into the page, and the bytes beyond the end of the data are cleared.
-/

/-- The memory and the file system with the executable. -/
structure Loader where
  memory : Memory
  fs : Zones.Fs

namespace Loader

open Memory Routine

variable {α : Type}

def onMemory (routine : Routine Memory α) : Routine Loader α :=
  zoom Loader.memory (fun memory loader => { loader with memory := memory })
    routine

def onFs (routine : Routine Zones.Fs α) : Routine Loader α :=
  zoom Loader.fs (fun fs loader => { loader with fs := fs }) routine

/-- What `do_no_page` looks at of the current task. -/
structure Current where
  /-- The number of the inode `executable`. -/
  executable : Option Nat
  /-- `i_count` of the executable -/
  count : Nat
  startCode : BitVec 32
  endData : BitVec 32
  /-- `start_code` of the other tasks that run the executable, the last one first. -/
  sharers : List Nat

/-! ## `share_page` -/

/-- The loop of `share_page`. -/
def shareWith (address currentStartCode : Nat) : List Nat → Routine Memory Bool
  | [] => pure false
  | startCode :: rest => do
      let shared ← tryToShare address startCode currentStartCode
      if shared ≠ 0 then
        pure true
      else
        shareWith address currentStartCode rest

/-- `share_page` -/
def sharePage (current : Current) (address : Nat) : Routine Memory Bool :=
  if current.executable = none then
    pure false
  else if current.count < 2 then
    pure false
  else
    shareWith address current.startCode.toNat current.sharers

/-! ## `bread_page` -/

/-- `COPYBLK`, to a place in a page. -/
def copyBlk (block : Block) (page start : Nat) (memory : Memory) : Memory :=
  storePage page
    (pageOfBytes fun offset =>
      if start ≤ offset ∧ offset < start + 1024 then
        (block (offset - start)).toBitVec
      else
        pageByte (memory.ram page) offset)
    memory

/-- The first loop of `bread_page`: the buffers of the blocks are got and read. -/
def readBlocks : List Nat → Routine Zones.Fs Unit
  | [] => pure ()
  | b :: rest => do
      if b ≠ 0 then
        Zones.bread b
      readBlocks rest

/-- The second loop: what has been read is copied. -/
def copyBlocks (page : Nat) : List Nat → Nat → Routine Loader Unit
  | [], _ => pure ()
  | b :: rest, start => do
      if b ≠ 0 then
        let loader ← read
        onMemory (update (copyBlk (loader.fs.data b) page start))
        onFs (Zones.brelse b)
      copyBlocks page rest (start + 1024)

/-- `bread_page` -/
def breadPage (page : Nat) (b : List Nat) : Routine Loader Unit := do
  onFs (readBlocks b)
  copyBlocks page b 0

/-! ## `do_no_page` -/

/-- The numbers of successive blocks. -/
def bmaps (sb : Zones.SuperBlock) (inode : Nat) :
    Nat → Nat → Routine Zones.Fs (List Nat)
  | 0, _ => pure []
  | count + 1, block => do
      let nr ← Zones.bmap sb inode block
      let rest ← bmaps sb inode count (block + 1)
      pure (nr :: rest)

/-- `*(char *)address = value`, for an address in physical memory. -/
def storeByte (address : Nat) (value : Byte) (memory : Memory) : Memory :=
  storePage (address / 4096)
    (setPageByte (memory.ram (address / 4096)) (address % 4096) value) memory

/-- `while (i-- > 0)` of `do_no_page` -/
def clearDown : Nat → Nat → Memory → Memory
  | 0, _, memory => memory
  | i + 1, tmp, memory =>
    let tmp := tmp - 1
    clearDown i tmp (storeByte tmp 0 memory)

/-- What `do_no_page` puts into a free page. -/
def fillPage
    (sb : Zones.SuperBlock)
    (inode page : Nat)
    (tmp endData : BitVec 32) : Routine Loader Unit := do
  let nr ← onFs (bmaps sb inode 4 (1 + tmp.toNat / 1024))
  breadPage page nr
  let i := (tmp + 4096 - endData).toInt
  onMemory (update (clearDown i.toNat (page * 4096 + 4096)))

/-- `do_no_page` -/
def doNoPage (sb : Zones.SuperBlock) (current : Current) (address : BitVec 32) :
    Routine Loader Unit := do
  let address := address &&& (0xfffff000 : BitVec 32)
  let tmp := address - current.startCode
  match current.executable with
  | none => onMemory (getEmptyPage address.toNat)
  | some inode =>
    if current.endData ≤ tmp then
      onMemory (getEmptyPage address.toNat)
    else
      let shared ← onMemory (sharePage current tmp.toNat)
      if shared then
        pure ()
      else
        let page ← onMemory getFreePage
        if page = 0 then
          abandon
        else
          fillPage sb inode page tmp current.endData
          let placed ← onMemory (putPage page address.toNat)
          if placed ≠ 0 then
            pure ()
          else do
            onMemory (freePage page)
            abandon

/-! ## The blocks of the file -/

section Blocks

variable {sb : Zones.SuperBlock} {fs : Zones.Fs} {inode block : Nat}

/-- A buffer that is got and released is as before. -/
theorem setCount_back :
    (fs.setCount block (fs.count block + 1)).setCount block
        ((fs.setCount block (fs.count block + 1)).count block - 1) = fs := by
  unfold Zones.Fs.setCount
  simp

theorem brelse_ret (nonzero : fs.count block ≠ 0) :
    Zones.brelse block fs =
      .ret () (fs.setCount block (fs.count block - 1)) := by
  have reads : (Routine.read : Routine Zones.Fs Zones.Fs) fs = .ret fs fs := rfl
  unfold Zones.brelse
  rw [bind_of_ret reads, if_neg nonzero]
  rfl

theorem inodeZone_eq (index : Nat) :
    Zones.inodeZone sb inode index false fs = .ret (fs.zoneAt inode [index]) fs :=
  rfl

theorem entryZone_eq (index : Nat) :
    Zones.entryZone sb block index false fs = .ret (fs.entry block index) fs := by
  unfold Zones.entryZone Zones.Fs.entry
  by_cases isZero : block = 0
  · rw [if_pos isZero, if_pos isZero]
    rfl
  · have gets : Zones.bread block fs =
        .ret () (fs.setCount block (fs.count block + 1)) := rfl
    have nonzero : (fs.setCount block (fs.count block + 1)).count block ≠ 0 := by
      unfold Zones.Fs.setCount
      simp
    have reads : (Routine.read : Routine Zones.Fs Zones.Fs)
        (fs.setCount block (fs.count block + 1)) = .ret _ _ := rfl
    rw [if_neg isZero, if_neg isZero, bind_of_ret gets, bind_of_ret reads]
    simp only [Bool.false_and, Bool.false_eq_true, if_false]
    rw [bind_of_ret (brelse_ret nonzero), setCount_back]
    rfl

/-- Whatever the layout of the file is, `bmap` finds the slot of a block. -/
theorem bmap_eq (inside : block < 7 + 512 + 512 * 512) :
    Zones.bmap sb inode block fs =
      .ret (fs.zoneAt inode (Zones.pathOf block)) fs := by
  unfold Zones.bmap Zones.bmapOrCreate Zones.pathOf
  rw [if_neg (Nat.not_le.mpr inside)]
  by_cases direct : block < 7
  · rw [if_pos direct, if_pos direct]
    exact inodeZone_eq block
  · rw [if_neg direct, if_neg direct]
    dsimp only
    by_cases single : block - 7 < 512
    · rw [if_pos single, if_pos single, bind_of_ret (inodeZone_eq 7)]
      exact entryZone_eq (block - 7)
    · rw [if_neg single, if_neg single, bind_of_ret (inodeZone_eq 8),
        bind_of_ret (entryZone_eq ((block - 7 - 512) / 512))]
      exact entryZone_eq ((block - 7 - 512) % 512)

/-- The slots of successive blocks. -/
theorem bmaps_eq
    {count : Nat}
    (inside : block + count ≤ 7 + 512 + 512 * 512) :
    bmaps sb inode count block fs =
      .ret
        ((List.range' block count).map fun block =>
          fs.zoneAt inode (Zones.pathOf block))
        fs := by
  induction count generalizing block with
  | zero =>
    rfl
  | succ count inductionHypothesis =>
    unfold bmaps
    rw [bind_of_ret (bmap_eq (by omega)),
      bind_of_ret (inductionHypothesis (by omega))]
    rfl

/-- The buffers of blocks are in use, once for each time a block is listed. -/
def holding (b : List Nat) (fs : Zones.Fs) : Zones.Fs :=
  { fs with count := fun block =>
      fs.count block + if block = 0 then 0 else b.count block }

theorem holding_zero (b : List Nat) (fs : Zones.Fs) :
    holding (0 :: b) fs = holding b fs := by
  unfold holding
  congr 1
  funext block
  by_cases zero : block = 0
  · rw [if_pos zero, if_pos zero]
  · rw [if_neg zero, if_neg zero, List.count_cons_of_ne (Ne.symm zero)]

theorem readBlocks_eq (b : List Nat) (fs : Zones.Fs) :
    readBlocks b fs = .ret () (holding b fs) := by
  induction b generalizing fs with
  | nil =>
    unfold holding
    simp only [List.count_nil, ite_self, Nat.add_zero]
    rfl
  | cons first b inductionHypothesis =>
    unfold readBlocks
    by_cases isZero : first = 0
    · subst isZero
      rw [holding_zero]
      exact inductionHypothesis fs
    · have same : holding (first :: b) fs =
          holding b (fs.setCount first (fs.count first + 1)) := by
        unfold holding Zones.Fs.setCount
        congr 1
        funext block
        dsimp only
        by_cases here : block = first
        · subst here
          rw [if_neg isZero, if_neg isZero, List.count_cons_self, Function.update_self]
          omega
        · rw [Function.update_of_ne here, List.count_cons_of_ne (Ne.symm here)]
      rw [same]
      simp only [ne_eq, isZero, not_false_eq_true, if_true]
      exact inductionHypothesis _

/-- The first block of those in use is released. -/
theorem brelse_holding
    {first : Nat} {b : List Nat}
    (nonzero : first ≠ 0) :
    Zones.brelse first (holding (first :: b) fs) = .ret () (holding b fs) := by
  have used : (holding (first :: b) fs).count first =
      fs.count first + (b.count first + 1) := by
    unfold holding
    dsimp only
    rw [if_neg nonzero, List.count_cons_self]
  rw [brelse_ret (by omega), used]
  congr 1
  unfold holding Zones.Fs.setCount
  congr 1
  funext block
  dsimp only
  by_cases here : block = first
  · subst here
    rw [Function.update_self, if_neg nonzero]
    omega
  · rw [Function.update_of_ne here, List.count_cons_of_ne (Ne.symm here)]

end Blocks

/-! ## The contents of the page -/

section Contents

variable {memory : Memory} {fs : Zones.Fs} {page : Nat}

theorem storePage_ram (memory : Memory) (page : Nat) :
    storePage page (memory.ram page) memory = memory := by
  unfold storePage
  rw [Function.update_eq_self]

theorem storePage_twice (first second : Page) :
    storePage page second (storePage page first memory) =
      storePage page second memory := by
  unfold storePage
  dsimp only
  rw [Function.update_idem]

/-- The blocks that there are get copied, and their buffers are released. -/
theorem copyBlocks_eq
    (fs : Zones.Fs)
    (page : Nat)
    (b : List Nat)
    (start : Nat)
    (memory : Memory) :
    ∃ contents,
      copyBlocks page b start ⟨memory, holding b fs⟩ =
          .ret () ⟨storePage page contents memory, fs⟩ ∧
        ∀ k,
          pageByte contents k =
            if start ≤ k ∧ b.getD ((k - start) / 1024) 0 ≠ 0 then
              (fs.data (b.getD ((k - start) / 1024) 0)
                ((k - start) % 1024)).toBitVec
            else
              pageByte (memory.ram page) k := by
  induction b generalizing start memory with
  | nil =>
    refine ⟨memory.ram page, ?_, fun k => ?_⟩
    · have nothing : holding [] fs = fs := by
        unfold holding
        simp only [List.count_nil, ite_self, Nat.add_zero]
      rw [storePage_ram, nothing]
      rfl
    · rw [if_neg]
      rintro ⟨_, isSome⟩
      exact isSome rfl
  | cons first b inductionHypothesis =>
    -- What the blocks behind the first one leave in its place.
    have behind (k : Nat) (above : start + 1024 ≤ k) :
        (first :: b).getD ((k - start) / 1024) 0 =
            b.getD ((k - (start + 1024)) / 1024) 0 ∧
          (k - start) % 1024 = (k - (start + 1024)) % 1024 := by
      have next : (k - start) / 1024 = (k - (start + 1024)) / 1024 + 1 := by
        omega
      rw [next, List.getD_cons_succ]
      exact ⟨rfl, by omega⟩
    have here (k : Nat) (above : start ≤ k) (below : k < start + 1024) :
        (first :: b).getD ((k - start) / 1024) 0 = first := by
      have zero : (k - start) / 1024 = 0 := by omega
      rw [zero, List.getD_cons_zero]
    by_cases isZero : first = 0
    · subst isZero
      obtain ⟨contents, copies, bytes⟩ :=
        inductionHypothesis (start + 1024) memory
      refine ⟨contents, ?_, fun k => ?_⟩
      · rw [holding_zero]
        exact copies
      · rw [bytes k]
        by_cases later : start + 1024 ≤ k
        · obtain ⟨entry, place⟩ := behind k later
          rw [entry, place]
          refine if_congr ?_ rfl rfl
          have above : start ≤ k := by omega
          simp only [later, above, true_and]
        · rw [if_neg (fun both => later both.1), if_neg]
          rintro ⟨above, isSome⟩
          exact isSome (here k above (by omega))
    · obtain ⟨contents, copies, bytes⟩ :=
        inductionHypothesis (start + 1024)
          (copyBlk (fs.data first) page start memory)
      refine ⟨contents, ?_, fun k => ?_⟩
      · unfold copyBlocks
        simp only [ne_eq, isZero, not_false_eq_true, if_true]
        have reads :
            (Routine.read : Routine Loader Loader)
                ⟨memory, holding (first :: b) fs⟩ =
              .ret ⟨memory, holding (first :: b) fs⟩
                ⟨memory, holding (first :: b) fs⟩ :=
          rfl
        have copied :
            onMemory
                (update (copyBlk ((holding (first :: b) fs).data first) page
                  start))
                ⟨memory, holding (first :: b) fs⟩ =
              .ret ()
                ⟨copyBlk (fs.data first) page start memory, holding (first :: b) fs⟩ :=
          rfl
        have released :
            onFs (Zones.brelse first)
                ⟨copyBlk (fs.data first) page start memory, holding (first :: b) fs⟩ =
              .ret ()
                ⟨copyBlk (fs.data first) page start memory, holding b fs⟩ :=
          zoom_of_ret (brelse_holding isZero)
        rw [bind_of_ret reads, bind_of_ret copied, bind_of_ret released, copies]
        unfold copyBlk
        rw [storePage_twice]
      · rw [bytes k]
        by_cases later : start + 1024 ≤ k
        · obtain ⟨entry, place⟩ := behind k later
          have unchanged : pageByte
              ((copyBlk (fs.data first) page start memory).ram page) k =
                pageByte (memory.ram page) k := by
            unfold copyBlk
            rw [ram_storePage, if_pos rfl, pageByte_pageOfBytes, if_neg (by omega)]
          rw [entry, place, unchanged]
          refine if_congr ?_ rfl rfl
          have above : start ≤ k := by omega
          simp only [later, above, true_and]
        · rw [if_neg (fun both => later both.1)]
          unfold copyBlk
          rw [ram_storePage, if_pos rfl, pageByte_pageOfBytes]
          by_cases above : start ≤ k
          · have small : (k - start) % 1024 = k - start := by omega
            rw [if_pos ⟨above, by omega⟩, here k above (by omega),
              if_pos ⟨above, isZero⟩, small]
          · rw [if_neg (fun both => above both.1), if_neg (fun both => above both.1)]

/-- Bytes are cleared from a place in the page down. -/
theorem clearDown_eq
    {i top : Nat}
    (page : Nat)
    (inside : i ≤ top)
    (within : top ≤ 4096)
    (memory : Memory) :
    ∃ contents,
      clearDown i (page * 4096 + top) memory =
          storePage page contents memory ∧
        ∀ k,
          pageByte contents k =
            if top - i ≤ k ∧ k < top then 0
            else pageByte (memory.ram page) k := by
  induction i generalizing top memory with
  | zero =>
    refine ⟨memory.ram page, (storePage_ram memory page).symm, fun k => ?_⟩
    rw [if_neg (by omega)]
  | succ i inductionHypothesis =>
    obtain ⟨top, rfl⟩ := Nat.exists_eq_succ_of_ne_zero (by omega : top ≠ 0)
    have number : (page * 4096 + top) / 4096 = page := by omega
    have offset : (page * 4096 + top) % 4096 = top := by omega
    obtain ⟨contents, clears, bytes⟩ :=
      inductionHypothesis (by omega) (by omega : top ≤ 4096)
        (storeByte (page * 4096 + top) 0 memory)
    have stored : storeByte (page * 4096 + top) 0 memory =
        storePage page (setPageByte (memory.ram page) top 0) memory := by
      unfold storeByte
      rw [number, offset]
    refine ⟨contents, ?_, fun k => ?_⟩
    · unfold clearDown
      dsimp only
      rw [show page * 4096 + top.succ - 1 = page * 4096 + top from rfl,
        clears, stored, storePage_twice]
    · rw [bytes k, stored, ram_storePage, if_pos rfl, pageByte_setPageByte]
      by_cases last : k = top
      · rw [if_neg (by omega), if_pos last, if_pos (by omega)]
      · rw [if_neg last]
        exact if_congr (by omega) rfl rfl

end Contents

/-! ## The image of a program -/

/-- A byte of the memory image of a program with so many bytes of text and data. -/
def imageByte (fs : Zones.Fs) (inode endData place : Nat) : Byte :=
  if place < endData then
    ((fs.contents inode).byte (1024 + place)).toBitVec
  else
    0

section Image

variable {sb : Zones.SuperBlock} {fs : Zones.Fs} {memory : Memory}
variable {inode page : Nat} {tmp endData : BitVec 32}

/-- The bytes of a page that are beyond the end of the data, from its end down. -/
theorem tailCount
    {tmp endData : BitVec 32}
    (inside : tmp.toNat < endData.toNat)
    (small : endData.toNat ≤ 0x3000000) :
    ∃ i, (tmp + 4096 - endData).toInt.toNat = i ∧ i ≤ 4096 ∧
      ∀ k, k < 4096 → (4096 - i ≤ k ↔ endData.toNat ≤ tmp.toNat + k) := by
  refine ⟨_, rfl, ?_⟩
  rcases Nat.lt_or_ge endData.toNat (tmp.toNat + 4096) with ends | goesOn
  · have value : (tmp + 4096 - endData).toInt =
        tmp.toNat + 4096 - endData.toNat := by
      rw [BitVec.toInt_eq_toNat_of_lt]
      · bv_omega
      · bv_omega
    rw [value]
    exact ⟨by omega, fun k below => by omega⟩
  · -- The number is negative, and nothing is cleared.
    have value : (tmp + 4096 - endData).toInt ≤ 0 := by
      by_cases exactly : endData.toNat = tmp.toNat + 4096
      · have zero : tmp + 4096 - endData = 0 := by bv_omega
        rw [zero]
        decide
      · rw [BitVec.toInt_eq_toNat_cond, if_neg (by bv_omega)]
        have high := (tmp + 4096 - endData).isLt
        omega
    exact ⟨by omega, fun k below => by omega⟩

/-- A cleared page is filled with the image. -/
theorem fillPage_eq
    (sb : Zones.SuperBlock)
    (fs : Zones.Fs)
    (inode : Nat)
    (aligned : tmp.toNat % 4096 = 0)
    (inside : tmp < endData)
    (small : endData.toNat ≤ 0x3000000)
    (cleared : memory.ram page = fun _ => 0#32) :
    ∃ contents,
      fillPage sb inode page tmp endData ⟨memory, fs⟩ =
          .ret () ⟨storePage page contents memory, fs⟩ ∧
        ∀ k, k < 4096 →
          pageByte contents k =
            imageByte fs inode endData.toNat (tmp.toNat + k) := by
  have below : tmp.toNat < endData.toNat := inside
  have looked :
      onFs (bmaps sb inode 4 (1 + tmp.toNat / 1024)) ⟨memory, fs⟩ =
        .ret
          ((List.range' (1 + tmp.toNat / 1024) 4).map fun block =>
            fs.zoneAt inode (Zones.pathOf block))
          ⟨memory, fs⟩ :=
    zoom_of_ret (bmaps_eq (by omega))
  generalize slots : ((List.range' (1 + tmp.toNat / 1024) 4).map fun block =>
    fs.zoneAt inode (Zones.pathOf block)) = b at looked
  have held : onFs (readBlocks b) ⟨memory, fs⟩ =
      .ret () ⟨memory, holding b fs⟩ :=
    zoom_of_ret (readBlocks_eq b fs)
  obtain ⟨loaded, copies, bytes⟩ :=
    copyBlocks_eq fs page b 0 memory
  have reads : breadPage page b ⟨memory, fs⟩ =
      .ret () ⟨storePage page loaded memory, fs⟩ := by
    unfold breadPage
    rw [bind_of_ret held, copies]
  obtain ⟨i, count, within, boundary⟩ := tailCount below small
  obtain ⟨contents, clears, cleared'⟩ :=
    clearDown_eq page within (Nat.le_refl 4096)
      (storePage page loaded memory)
  refine ⟨contents, ?_, fun k inPage => ?_⟩
  · have tails :
        onMemory (update (clearDown i (page * 4096 + 4096)))
            ⟨storePage page loaded memory, fs⟩ =
          .ret () ⟨storePage page contents memory, fs⟩ := by
      rw [← storePage_twice loaded contents, ← clears]
      rfl
    unfold fillPage
    rw [bind_of_ret looked, bind_of_ret reads, count]
    exact tails
  · rw [cleared' k, ram_storePage, if_pos rfl]
    unfold imageByte
    by_cases beyond : endData.toNat ≤ tmp.toNat + k
    · rw [if_pos ⟨(boundary k inPage).mpr beyond, inPage⟩, if_neg (by omega)]
    · rw [if_neg (fun both => beyond ((boundary k inPage).mp both.1)),
        if_pos (by omega), bytes k]
      have zero : pageByte (memory.ram page) k = 0#8 := by
        rw [cleared]
        unfold pageByte Word.byte
        simp
      have number : (1024 + (tmp.toNat + k)) / Zones.blockSize =
          1 + tmp.toNat / 1024 + k / 1024 := by
        unfold Zones.blockSize
        omega
      have offset : (1024 + (tmp.toNat + k)) % Zones.blockSize = k % 1024 := by
        unfold Zones.blockSize
        omega
      have entry : b.getD ((k - 0) / 1024) 0 =
          fs.zoneAt inode
            (Zones.pathOf ((1024 + (tmp.toNat + k)) / Zones.blockSize)) := by
        rw [← slots, Nat.sub_zero, number, List.getD_eq_getElem?_getD,
          List.getElem?_map, List.getElem?_range' (by omega)]
        simp
      have supported : 1024 + (tmp.toNat + k) < Zones.maxSize := by
        unfold Zones.maxSize Zones.blockSize
        omega
      rw [entry, zero, Nat.sub_zero]
      unfold Zones.Fs.contents Zones.Fs.blockAt
      dsimp only
      rw [if_pos supported, offset]
      by_cases hole : fs.zoneAt inode
          (Zones.pathOf ((1024 + (tmp.toNat + k)) / Zones.blockSize)) = 0
      · rw [if_neg (fun both => both.2 hole), if_pos hole]
        rfl
      · rw [if_pos ⟨Nat.zero_le _, hole⟩, if_neg hole]

end Image

/-! ## The mapped page -/

section Mapped

variable {sb : Zones.SuperBlock} {fs : Zones.Fs} {memory middle : Memory}
variable {current : Current} {low high : Nat} {held : Nat → Nat}
variable {inode task offset address : Nat}

/-- `try_to_share` changes nothing where it does not share. -/
theorem tryToShare_zero (startCode currentStartCode : Nat) :
    Ensures (tryToShare address startCode currentStartCode) memory
      fun value after => value = 0 → after = memory := by
  unfold tryToShare
  rw [ensures_read_bind]
  dsimp only
  split_ifs
  · exact ensures_pure fun _ => rfl
  · exact ensures_pure fun _ => rfl
  · exact ensures_pure fun _ => rfl
  · have reads :
        Ensures
          (sharingTable (dirIndex address + dirIndex currentStartCode)) memory
          fun _ _ => True :=
      fun _ _ _ => trivial
    refine Ensures.andThen reads fun table shared _ => ?_
    rw [ensures_read_bind]
    split_ifs
    · exact ensures_panic _
    · rw [ensures_update_bind, ensures_update_bind, ensures_update_bind]
      exact ensures_pure fun zero => absurd zero (by decide)

/-- `share_page` changes nothing where it does not share. -/
theorem sharePage_false :
    Ensures (sharePage current address) memory
      fun value after => value = false → after = memory := by
  unfold sharePage
  split_ifs
  · exact ensures_pure fun _ => rfl
  · exact ensures_pure fun _ => rfl
  · induction current.sharers with
    | nil =>
      exact ensures_pure fun _ => rfl
    | cons startCode rest inductionHypothesis =>
      unfold shareWith
      refine Ensures.andThen (tryToShare_zero _ _) fun value after same => ?_
      split_ifs with shared
      · exact ensures_pure fun yes => absurd yes (by decide)
      · rw [same (not_not.mp shared)]
        exact inductionHypothesis

/-- Addresses in one page have one entry. -/
theorem slotOf_page
    {place : Nat}
    (same : place / 4096 = offset / 4096) :
    slotOf task place = slotOf task offset := by
  unfold slotOf dirIndex tableIndex
  refine Prod.ext ?_ ?_
  · simp only
    omega
  · simp only
    omega

/-- The page with an offset has been filled and mapped. -/
def Maps
    (fs : Zones.Fs)
    (inode endData task offset : Nat)
    (after : Loader) : Prop :=
  after.fs = fs ∧
    ∀ k, k < 4096 →
      after.memory.view task (offset / 4096 * 4096 + k) =
        some (imageByte fs inode endData (offset / 4096 * 4096 + k))

/-- A page that is mapped with the image in it. -/
theorem maps_of_entry
    {endData page : Nat} {contents : Page}
    (frame : page < 2 ^ 20)
    (mapped : memory.entryAt (slotOf task offset) = some (Word.userEntry page))
    (holds : memory.ram page = contents)
    (image : ∀ k, k < 4096 →
      pageByte contents k = imageByte fs inode endData (offset / 4096 * 4096 + k)) :
    Maps fs inode endData task offset ⟨memory, fs⟩ := by
  refine ⟨rfl, fun k inPage => ?_⟩
  have same : (offset / 4096 * 4096 + k) / 4096 = offset / 4096 := by omega
  have place : (offset / 4096 * 4096 + k) % 4096 = k := by omega
  rw [← slotOf_page same] at mapped
  rw [view_of_entry mapped, Word.frame_userEntry frame, holds, place, image k inPage]

section Fills

variable {endData startCode address : BitVec 32}

/-- The place of an entry in the table, from the linear address of its page. -/
theorem slot_of_place
    (range : task < 64)
    (inSlot : offset < slotSize)
    (place : address.toNat = task * slotSize + offset / 4096 * 4096) :
    (dirIndex address.toNat, tableIndex address.toNat) = slotOf task offset := by
  rw [place, slotOf_address range (by omega)]
  exact slotOf_page (by omega)

/-- `do_no_page` beyond the end of the data: an empty page is mapped. -/
theorem satisfies_emptyPage
    (accounted : Accounted low high held memory)
    (user : 0 < task)
    (range : task < 64)
    (inSlot : offset < slotSize)
    (missing : memory.entryAt (slotOf task offset) = none)
    (place : address.toNat = task * slotSize + offset / 4096 * 4096)
    (beyond : endData.toNat ≤ offset / 4096 * 4096) :
    (onMemory (getEmptyPage address.toNat)).Satisfies ⟨memory, fs⟩
      (fun _ after => Maps fs inode endData.toNat task offset after)
      (fun _ => Short low high (slotOf task offset).1 memory) := by
  have slot := slot_of_place range inSlot place
  have member := slotOf_mem user range inSlot
  have empties :=
    satisfies_getEmptyPage accounted (slot ▸ member) (slot ▸ missing)
  unfold onMemory
  rw [satisfies_zoom]
  refine empties.mono ?_ fun _ ⟨_, _, _, isShort⟩ => slot ▸ isShort
  rintro _ after ⟨page, inMain, _, placed, _, _⟩
  have self := placed.self
  rw [slot] at self
  refine maps_of_entry (accounted.page_lt inMain) self placed.contents ?_
  intro k inPage
  unfold imageByte
  rw [Accounted.ram_taken, if_pos rfl, if_neg (by omega)]
  unfold pageByte Word.byte
  simp

/-- The end of `do_no_page`, with a free page. -/
theorem satisfies_fillPage
    (accounted : Accounted low high held memory)
    (user : 0 < task)
    (range : task < 64)
    (inSlot : offset < slotSize)
    (missing : memory.entryAt (slotOf task offset) = none)
    {tmp : BitVec 32} {page : Nat}
    (place : address.toNat = task * slotSize + offset / 4096 * 4096)
    (within : tmp.toNat = offset / 4096 * 4096)
    (inside : tmp < endData)
    (small : endData.toNat ≤ 0x3000000)
    (isHeld : 0 < held page)
    (cleared : memory.ram page = fun _ => 0#32) :
    Routine.Satisfies
      (do
        fillPage sb inode page tmp endData
        let placed ← onMemory (putPage page address.toNat)
        if placed ≠ 0 then
          pure ()
        else do
          onMemory (freePage page)
          abandon)
      ⟨memory, fs⟩
      (fun _ after => Maps fs inode endData.toNat task offset after)
      (fun _ =>
        memory.tableOf (slotOf task offset).1 = none ∧
          ∀ other, InMain low high other →
            memory.memMap (other - lowMemPage) ≠ 0#8) := by
  have slot := slot_of_place range inSlot place
  have member := slotOf_mem user range inSlot
  have inMain := accounted.heldMain page isHeld
  have notZero := accounted.ne_zero_of_main inMain
  obtain ⟨contents, fills, image⟩ :=
    fillPage_eq sb fs inode (by omega) inside small
      cleared
  rw [within] at image
  have filled := filled_storePage accounted isHeld contents
  have stillEmpty := (filled.entries _ member).trans missing
  have places :
      Satisfies (putPage page address.toNat) (storePage page contents memory) _
        fun _ => False :=
    satisfies_putPage filled.accounted (slot ▸ member) (slot ▸ stillEmpty)
      isHeld
  rw [satisfies_bind]
  unfold Routine.Satisfies
  rw [fills]
  dsimp only
  rw [← Routine.Satisfies, satisfies_bind]
  unfold onMemory
  rw [satisfies_zoom]
  refine places.mono ?_ fun _ impossible => impossible.elim
  rintro value after (⟨rfl, placed⟩ | ⟨rfl, rfl, noTable, exhausted⟩)
  · rw [if_pos notZero, satisfies_pure]
    have self := placed.self
    rw [slot] at self
    refine maps_of_entry (accounted.page_lt inMain) self ?_ image
    rw [placed.contents, filled.self]
  · rw [if_neg (by simp), satisfies_bind, satisfies_zoom]
    have frees :
        Satisfies (freePage page) (storePage page contents memory) _
          fun _ => False :=
      satisfies_freePage_held filled.accounted isHeld
    refine frees.mono (fun _ _ _ => ?_) (fun _ impossible => impossible.elim)
    rw [satisfies_abandon]
    rw [Accounted.tableOf_storePage (accounted.above_low inMain)] at noTable
    exact ⟨slot ▸ noTable, exhausted⟩

end Fills

/--
A page fault of a program that has been accepted maps a page of its image: the file
from the block after the header on, up to the end of the data, and zeros behind it.
It gives up only where too few pages are free.
-/
theorem maps_image
    {extMemK : Nat} {kernel : Kernel}
    (ex : Execve.Exec)
    (size : BitVec 32)
    (reached : (pageMachine extMemK).Reachable kernel)
    (user : 0 < task)
    (range : task < 64)
    (inSlot : offset < slotSize)
    (missing : kernel.memory.entryAt (slotOf task offset) = none)
    (runs : current.executable = some inode)
    (starts : current.startCode = BitVec.ofNat 32 (task * slotSize))
    (ends : current.endData = ex.endData)
    (accepted : ex.isBad size = false)
    (noWrap : ex.text.toNat + ex.data.toNat + ex.bss.toNat < 2 ^ 32)
    (alone :
      offset / 4096 * 4096 < ex.endData.toNat →
        ∃ after, sharePage current (offset / 4096 * 4096) kernel.memory =
          .ret false after) :
    (doNoPage sb current (BitVec.ofNat 32 (task * slotSize + offset))).Satisfies
      ⟨kernel.memory, fs⟩
      (fun _ after => Maps fs inode ex.endData.toNat task offset after)
      (fun _ =>
        Short (mainMemoryStart extMemK / 4096) (memoryEnd extMemK / 4096)
          (slotOf task offset).1 kernel.memory) := by
  have accounted : kernel.Accounted extMemK :=
    reached.invariant (fun _ => initial_accounted)
      (preserves_accounted extMemK)
  -- The numbers of a header that is accepted do not wrap.
  have sizes := (Execve.accepted_sizes accepted).1
  have small : ex.endData.toNat ≤ 0x3000000 := by
    unfold Execve.Exec.endData
    bv_omega
  have slots : task * slotSize + offset < 2 ^ 32 := by
    unfold slotSize at *
    omega
  have place :
      (BitVec.ofNat 32 (task * slotSize + offset) &&&
          (0xfffff000 : BitVec 32)).toNat =
        task * slotSize + offset / 4096 * 4096 := by
    rw [Execve.toNat_and_pageMask, BitVec.toNat_ofNat, Nat.mod_eq_of_lt slots]
    unfold Execve.pageSize slotSize
    omega
  unfold doNoPage
  dsimp only
  generalize BitVec.ofNat 32 (task * slotSize + offset) &&&
    (0xfffff000 : BitVec 32) = address at place ⊢
  have within : (address - current.startCode).toNat = offset / 4096 * 4096 := by
    rw [starts]
    unfold slotSize at *
    bv_omega
  generalize address - current.startCode = tmp at within ⊢
  rw [runs, ends]
  dsimp only
  by_cases beyond : ex.endData ≤ tmp
  · rw [if_pos beyond]
    have above : ex.endData.toNat ≤ offset / 4096 * 4096 := within ▸ beyond
    exact satisfies_emptyPage accounted user range inSlot missing place above
  · rw [if_neg beyond]
    have inside : tmp < ex.endData := by
      bv_omega
    have below : offset / 4096 * 4096 < ex.endData.toNat := within ▸ inside
    obtain ⟨middle, alone⟩ := alone below
    have same : middle = kernel.memory :=
      sharePage_false false middle alone rfl
    rw [same] at alone
    rw [within, satisfies_bind]
    unfold onMemory
    rw [satisfies_zoom]
    unfold Routine.Satisfies
    dsimp only
    rw [alone]
    dsimp only
    rw [if_neg (by decide), ← Routine.Satisfies, satisfies_bind, satisfies_zoom]
    have gets : Satisfies getFreePage kernel.memory _ fun _ => False :=
      satisfies_getFreePage accounted
    refine gets.mono ?_ fun _ impossible => impossible.elim
    rintro page fresh (⟨rfl, rfl, exhausted⟩ | ⟨inMain, free, rfl⟩)
    · rw [if_pos rfl, satisfies_abandon]
      exact ⟨0, fun other otherMain otherFree =>
        absurd otherFree (exhausted other otherMain)⟩
    · have takenHeld : 0 < Function.update kernel.held page 1 page := by
        simp
      have stillMissing :=
        (accounted.entryAt_taken inMain free
          (slotOf_mem user range inSlot)).trans missing
      rw [if_neg (accounted.ne_zero_of_main inMain)]
      have cleared : (taken page kernel.memory).ram page = fun _ => 0#32 := by
        rw [Accounted.ram_taken, if_pos rfl]
      refine (satisfies_fillPage (accounted.taken_accounted inMain free) user
        range inSlot stillMissing place within inside small takenHeld
        cleared).mono (fun _ _ maps => maps) ?_
      rintro _ ⟨noTable, exhausted⟩
      exact short_of_taken accounted inMain noTable exhausted

/-- A program with text and data. -/
def smallExec : Execve.Exec where
  magic := 0o413
  text := 5000
  data := 100
  bss := 0
  syms := 0
  entry := 0
  trsize := 0
  drsize := 0

/-- Its file: the first block of the text is there, and the rest is a hole. -/
def smallFile : Zones.Fs :=
  { Zones.emptyFs 0o100755 with
    data := fun _ _ => 7
    inode := fun _ =>
      { mode := 0o100755
        size := 6124
        zone := fun index => if index = 1 then 2 else 0 } }

/-- What the first task knows of it. -/
def smallTask : Current where
  executable := some 1
  count := 1
  startCode := BitVec.ofNat 32 (1 * slotSize)
  endData := smallExec.endData
  sharers := []

/-- The first two pages of main memory are free at the start. -/
theorem not_short_swapper (dir : Nat) :
    ¬ Short (mainMemoryStart 15360 / 4096) (memoryEnd 15360 / 4096) dir
      swapper.memory := by
  rintro ⟨only, few⟩
  have first := few 1024 ⟨by decide, by decide⟩ (by decide +kernel)
  have second := few 1025 ⟨by decide, by decide⟩ (by decide +kernel)
  omega

theorem maps_image_small :
    ∃ after,
      doNoPage Zones.smallSuper smallTask
          (BitVec.ofNat 32 (1 * slotSize + 0x234))
          ⟨swapper.memory, smallFile⟩ = .ret () after ∧
        Maps smallFile 1 smallExec.endData.toNat 1 0x234 after := by
  have loads :
      (doNoPage Zones.smallSuper smallTask
          (BitVec.ofNat 32 (1 * slotSize + 0x234))).Satisfies
        ⟨swapper.memory, smallFile⟩
        (fun _ after => Maps smallFile 1 smallExec.endData.toNat 1 0x234 after)
        _ :=
    maps_image smallExec 6124 swapper_reachable (by decide) (by decide)
      (by decide)
      (entryAt_booted _ _ (slotOf_mem (by decide) (by decide) (by decide)))
      rfl rfl rfl (by decide) (by decide) fun _ => ⟨_, rfl⟩
  obtain ⟨_, after, ends, maps⟩ :=
    (loads.mono (fun _ _ maps => maps)
      fun _ => not_short_swapper _).returns
  exact ⟨after, ends, maps⟩

end Mapped

end Loader

end HitOs
