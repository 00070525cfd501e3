import HitOs.PageWord
import HitOs.Routine
import Mathlib.Logic.Function.Basic

namespace HitOs

/-!
# The memory manager of `mm/memory.c`

Physical memory is an array of pages of 1024 words; the page directory is the
page at address 0 and every page table is itself a page.  Pages are named by
their number, so the physical address `0xfffff000 & entry` is `entry.frame`,
`LOW_MEM` is page 256, and page number 0 stands for the address 0 that
`get_free_page` returns when memory is exhausted.

`invalidate()` flushes the processor's translation cache; the model looks
every address up in the tables, so it has no counterpart here.  `oom()` ends
in `do_exit` and never returns to its caller: it is `Routine.abandon`.
-/

/-- The 1024 words of a page. -/
abbrev Page :=
  Nat → Word

/-- The state of the memory manager. -/
structure Memory where
  /-- Physical memory, by page number and word index. -/
  ram : Nat → Page
  /-- `mem_map`: one byte for each page above 1 MB. -/
  memMap : Nat → Byte
  /-- `HIGH_MEMORY`, in bytes. -/
  highMemory : Nat

namespace Memory

/-- `LOW_MEM`, as a page number. -/
def lowMemPage : Nat :=
  256

/-- `PAGING_PAGES` -/
def pagingPages : Nat :=
  3840

/-- `USED` -/
def used : Byte :=
  100#8

/-- Store one word of physical memory. -/
def store
    (page index : Nat)
    (word : Word)
    (memory : Memory) : Memory :=
  { memory with
    ram := Function.update memory.ram page
      (Function.update (memory.ram page) index word) }

/-- Replace the contents of a page. -/
def storePage
    (page : Nat)
    (contents : Page)
    (memory : Memory) : Memory :=
  { memory with
    ram := Function.update memory.ram page contents }

/-- Store one byte of `mem_map`. -/
def setMap
    (index : Nat)
    (count : Byte)
    (memory : Memory) : Memory :=
  { memory with
    memMap := Function.update memory.memMap index count }

/-- The index of an address's entry in the page directory. -/
def dirIndex (address : Nat) : Nat :=
  address / 0x400000 % 1024

/-- The index of an address's entry in its page table. -/
def tableIndex (address : Nat) : Nat :=
  address / 4096 % 1024

/--
The backward `repne scasb` of `get_free_page`: the highest index below `count`
whose byte is zero.
-/
def scanMemMap
    (memMap : Nat → Byte) :
    Nat → Option Nat
  | 0 => none
  | count + 1 =>
    if memMap count = 0#8 then
      some count
    else
      scanMemMap memMap count

/-- `get_free_page` -/
def getFreePage : Routine Memory Nat := do
  let memory ← Routine.read
  match scanMemMap memory.memMap pagingPages with
  | none => pure 0
  | some index =>
    Routine.update (setMap index 1#8)
    Routine.update (storePage (index + lowMemPage) fun _ => 0#32)
    pure (index + lowMemPage)

/-- `free_page` -/
def freePage (page : Nat) : Routine Memory Unit := do
  if page < lowMemPage then
    pure ()
  else
    let memory ← Routine.read
    if memory.highMemory ≤ page * 4096 then
      Routine.panic "trying to free nonexistent page"
    else
      let index := page - lowMemPage
      if memory.memMap index ≠ 0#8 then
        Routine.update (setMap index (memory.memMap index - 1#8))
      else
        Routine.update (setMap index 0#8)
        Routine.panic "trying to free free page"

/-- The body of the inner loop of `free_page_tables`. -/
def freeEntry (table nr : Nat) : Routine Memory Unit := do
  let memory ← Routine.read
  let entry := memory.ram table nr
  if entry.present then
    freePage entry.frame
    Routine.update (store table nr 0#32)
  else
    Routine.update (store table nr 0#32)

/-- The outer loop of `free_page_tables`: `size` directory entries from `dir`. -/
def freeDirs : Nat → Nat → Routine Memory Int
  | 0, _ => pure 0
  | size + 1, dir => do
      let memory ← Routine.read
      let entry := memory.ram 0 dir
      if entry.present then
        Routine.forUp (freeEntry entry.frame) 1024 0
        freePage entry.frame
        Routine.update (store 0 dir 0#32)
        freeDirs size (dir + 1)
      else
        freeDirs size (dir + 1)

/-- `free_page_tables` -/
def freePageTables (start size : Nat) : Routine Memory Int :=
  if start % 0x400000 ≠ 0 then
    Routine.panic "free_page_tables called with wrong alignment"
  else if start = 0 then
    Routine.panic "Trying to free up swapper memory space"
  else
    freeDirs ((size + 0x3fffff) % 2 ^ 32 / 0x400000) (dirIndex start)

/-- The body of the inner loop of `copy_page_tables`. -/
def copyEntry
    (fromTable toTable nr : Nat) :
    Routine Memory Unit := do
  let memory ← Routine.read
  let thisPage := memory.ram fromTable nr
  if thisPage.present then
    let thisPage := thisPage.writeProtect
    Routine.update (store toTable nr thisPage)
    if 0x100000#32 < thisPage then
      Routine.update (store fromTable nr thisPage)
      let index := ((thisPage - 0x100000#32) >>> 12).toNat
      Routine.update fun memory =>
        setMap index (memory.memMap index + 1#8) memory
    else
      pure ()
  else
    pure ()

/--
The outer loop of `copy_page_tables`.  `entries` is `nr`, the number of
entries to copy of each table.
-/
def copyDirs (entries : Nat) : Nat → Nat → Nat → Routine Memory Int
  | 0, _, _ => pure 0
  | size + 1, fromDir, toDir => do
      let memory ← Routine.read
      if (memory.ram 0 toDir).present then
        Routine.panic "copy_page_tables: already exist"
      else if (memory.ram 0 fromDir).present then
        let toTable ← getFreePage
        if toTable = 0 then
          pure (-1)
        else
          Routine.update (store 0 toDir (Word.userEntry toTable))
          Routine.forUp
            (copyEntry (memory.ram 0 fromDir).frame toTable) entries 0
          copyDirs entries size (fromDir + 1) (toDir + 1)
      else
        copyDirs entries size (fromDir + 1) (toDir + 1)

/-- `copy_page_tables` -/
def copyPageTables (source dest size : Nat) : Routine Memory Int :=
  if source % 0x400000 ≠ 0 ∨ dest % 0x400000 ≠ 0 then
    Routine.panic "copy_page_tables called with wrong alignment"
  else
    copyDirs (if source = 0 then 0xA0 else 1024)
      ((size + 0x3fffff) % 2 ^ 32 / 0x400000)
      (dirIndex source) (dirIndex dest)

/-- `put_page`, without the two warnings it prints. -/
def putPage (page address : Nat) : Routine Memory Nat := do
  let memory ← Routine.read
  let entry := memory.ram 0 (dirIndex address)
  if entry.present then
    Routine.update
      (store entry.frame (tableIndex address) (Word.userEntry page))
    pure page
  else
    let tmp ← getFreePage
    if tmp = 0 then
      pure 0
    else
      Routine.update (store 0 (dirIndex address) (Word.userEntry tmp))
      Routine.update
        (store tmp (tableIndex address) (Word.userEntry page))
      pure page

/-- `un_wp_page` on the entry `index` of the page table `table`. -/
def unWpPage (table index : Nat) : Routine Memory Unit := do
  let memory ← Routine.read
  let entry := memory.ram table index
  let oldPage := entry.frame
  if lowMemPage ≤ oldPage ∧ memory.memMap (oldPage - lowMemPage) = 1#8 then
    Routine.update (store table index entry.writeEnable)
  else
    let newPage ← getFreePage
    if newPage = 0 then
      Routine.abandon
    else
      Routine.update fun memory =>
        if lowMemPage ≤ oldPage then
          setMap (oldPage - lowMemPage)
            (memory.memMap (oldPage - lowMemPage) - 1#8) memory
        else
          memory
      Routine.update (store table index (Word.userEntry newPage))
      Routine.update fun memory =>
        storePage newPage (memory.ram oldPage) memory

/-- `do_wp_page` -/
def doWpPage (address : Nat) : Routine Memory Unit := do
  let memory ← Routine.read
  unWpPage (memory.ram 0 (dirIndex address)).frame (tableIndex address)

/-- `write_verify` -/
def writeVerify (address : Nat) : Routine Memory Unit := do
  let memory ← Routine.read
  let page := memory.ram 0 (dirIndex address)
  if page.present then
    if 3#32 &&& memory.ram page.frame (tableIndex address) = 1#32 then
      unWpPage page.frame (tableIndex address)
    else
      pure ()
  else
    pure ()

/-- `get_empty_page` -/
def getEmptyPage (address : Nat) : Routine Memory Unit := do
  let tmp ← getFreePage
  if tmp = 0 then
    freePage tmp
    Routine.abandon
  else
    let placed ← putPage tmp address
    if placed = 0 then
      freePage tmp
      Routine.abandon
    else
      pure ()

/--
The `to` page table of `try_to_share`: the one that the directory entry has, or
a fresh one.
-/
def sharingTable (toDir : Nat) : Routine Memory Nat := do
  let memory ← Routine.read
  if (memory.ram 0 toDir).present then
    pure (memory.ram 0 toDir).frame
  else
    let page ← getFreePage
    if page = 0 then
      Routine.abandon
    else
      Routine.update (store 0 toDir (Word.userEntry page))
      pure page

/--
`try_to_share`, given the `start_code` of the task `p` and that of the current
task.
-/
def tryToShare
    (address startCode currentStartCode : Nat) :
    Routine Memory Int := do
  let fromDir := dirIndex address + dirIndex startCode
  let toDir := dirIndex address + dirIndex currentStartCode
  let memory ← Routine.read
  let fromTable := memory.ram 0 fromDir
  if fromTable.present = false then
    pure 0
  else
    let physAddr := memory.ram fromTable.frame (tableIndex address)
    if physAddr &&& 0x41#32 ≠ 1#32 then
      pure 0
    else if memory.highMemory ≤ physAddr.frame * 4096 ∨
        physAddr.frame < lowMemPage then
      pure 0
    else
      let toTable ← sharingTable toDir
      let memory ← Routine.read
      if (memory.ram toTable (tableIndex address)).present then
        Routine.panic "try_to_share: to_page already exists"
      else
        Routine.update fun memory =>
          store fromTable.frame (tableIndex address)
            (memory.ram fromTable.frame
              (tableIndex address)).writeProtect memory
        Routine.update fun memory =>
          store toTable (tableIndex address)
            (memory.ram fromTable.frame (tableIndex address)) memory
        let index := physAddr.frame - lowMemPage
        Routine.update fun memory =>
          setMap index (memory.memMap index + 1#8) memory
        pure 1

/-- `mem_init` -/
def memInit
    (startMem endMem : Nat)
    (memory : Memory) : Memory :=
  let first := startMem / 4096 - lowMemPage
  let count := (endMem - startMem) / 4096
  { memory with
    highMemory := endMem
    memMap := fun index =>
      if first ≤ index ∧ index < first + count then 0#8 else used }

/-! ## Callers in `boot/head.s`, `init/main.c` and `kernel/fork.c` -/

/-- `setup_paging`: the page directory and four identity-mapping tables. -/
def setupPaging (memory : Memory) : Memory :=
  { memory with
    ram := fun page index =>
      if page = 0 then
        if index < 4 then Word.userEntry (index + 1) else 0#32
      else if page < 5 then
        Word.userEntry ((page - 1) * 1024 + index)
      else
        memory.ram page index }

/-- `memory_end`, from the extended memory size in kilobytes. -/
def memoryEnd (extMemK : Nat) : Nat :=
  min ((0x100000 + extMemK * 1024) / 4096 * 4096) 0x1000000

/-- `main_memory_start`, which is `buffer_memory_end` without a RAM disk. -/
def mainMemoryStart (extMemK : Nat) : Nat :=
  if 12 * 0x100000 < memoryEnd extMemK then
    4 * 0x100000
  else if 6 * 0x100000 < memoryEnd extMemK then
    2 * 0x100000
  else
    0x100000

/-- The memory manager as `main` leaves it before the first fork. -/
def booted (extMemK : Nat) (memory : Memory) : Memory :=
  memInit (mainMemoryStart extMemK) (memoryEnd extMemK)
    (setupPaging memory)

/-- The size of a task's slot in the linear address space. -/
def slotSize : Nat :=
  0x4000000

/-- The segments of the current task that `copy_mem` reads. -/
structure Segments where
  codeBase : Nat
  dataBase : Nat
  codeLimit : Nat
  dataLimit : Nat
  deriving Repr, DecidableEq

/-- `copy_mem`, whose result `-12` is `-ENOMEM`. -/
def copyMem (segments : Segments) (nr : Nat) : Routine Memory Int :=
  if segments.dataBase ≠ segments.codeBase then
    Routine.panic "We don't support separate I&D"
  else if segments.dataLimit < segments.codeLimit then
    Routine.panic "Bad data_limit"
  else do
    let copied ←
      copyPageTables segments.dataBase (nr * slotSize) segments.dataLimit
    if copied = 0 then
      pure 0
    else
      let _ ← freePageTables (nr * slotSize) segments.dataLimit
      pure (-12)

/-- `write_verify` on `count` successive pages from `start`. -/
def verifyPages : Nat → Nat → Routine Memory Unit
  | 0, _ => pure ()
  | count + 1, start => do
      writeVerify start
      verifyPages count (start + 4096)

/--
`verify_area`, for a task whose data segment starts at `base`.  The loop runs
once for every 4096 bytes begun.
-/
def verifyArea (base addr size : Nat) : Routine Memory Unit :=
  verifyPages ((size + addr % 4096 + 4095) / 4096)
    (addr / 4096 * 4096 + base)

end Memory

end HitOs
