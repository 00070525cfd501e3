import HitOs.ByteStrings
import HitOs.Zones

namespace HitOs

/-!
# Starting a program

`do_execve` with `copy_strings`, `change_ldt` and `create_tables`.  Addresses are those
of the data segment of the caller, and later of the new program.  Scripts are left out,
and so are the open files and signals that change with the program and the pages that
are freed where it does not start.
-/

namespace Execve

open ByteStrings
open Zones (isReg)

abbrev Byte := BitVec 8

/-- `PAGE_SIZE` -/
def pageSize : Nat := 4096

/-- `MAX_ARG_PAGES` -/
def maxArgPages : Nat := 32

/-- `data_limit` of a new program. -/
def dataLimit : Nat := 0x4000000

abbrev Page := Nat → Byte

/-- The array `page`; an address of zero is `none`. -/
abbrev Pages := Nat → Option Page

/-- What `do_execve` looks at of the caller. -/
structure Caller where
  euid : Nat
  egid : Nat
  limit : Nat
  bytes : Nat → Byte

/-- Why `copy_strings` does not get to its end. -/
inductive Stop where
  /-- `get_free_page` has failed. -/
  | noMemory (page : Pages)
  /-- Something is touched that is not there. -/
  | fault
  /-- `panic("argc is wrong")` -/
  | panic

/-! ## `count` -/

/-- The loop of `count`, as far as the segment goes. -/
def countFrom (bytes : Nat → Byte) : Nat → Nat → Option Nat
  | 0, _ => none
  | room + 1, tmp =>
    if getLong bytes tmp = 0 then
      some 0
    else
      (countFrom bytes room (tmp + 4)).map (· + 1)

def Caller.count (argv : Nat) (caller : Caller) : Option Nat :=
  if argv = 0 then
    some 0
  else
    countFrom caller.bytes ((caller.limit - argv) / 4) argv

/-! ## `copy_strings` -/

/-- The variables of `copy_strings`; `pag` is the number of a page. -/
structure Copy where
  page : Pages
  p : Nat
  pag : Option Nat
  offset : Nat

namespace Copy

/-- `if (--offset < 0)`, with what gets the page of `p`. -/
def turn (free : Nat → Bool) (copy : Copy) : Except Stop Copy :=
  match copy.offset with
  | offset + 1 => .ok { copy with offset := offset }
  | 0 =>
    let number := copy.p / pageSize
    let turned :=
      { copy with offset := copy.p % pageSize, pag := some number }
    if maxArgPages ≤ number then
      .error .fault
    else
      match copy.page number with
      | some _ => .ok turned
      | none =>
        if free number then
          .ok { turned with
            page := Function.update copy.page number (some fun _ => 0) }
        else
          .error (.noMemory copy.page)

/-- `*(pag + offset) = c` -/
def put (c : Byte) (copy : Copy) : Except Stop Copy :=
  match copy.pag with
  | none => .error .fault
  | some number =>
    match copy.page number with
    | none => .error .fault
    | some page =>
      .ok { copy with
        page := Function.update copy.page number
          (some (Function.update page copy.offset c)) }

/-- One round of `while (len)`; below zero `p` is far outside of the pages. -/
def byte (free : Nat → Bool) (c : Byte) (copy : Copy) : Except Stop Copy :=
  match copy.p with
  | 0 => .error .fault
  | p + 1 =>
    match turn free { copy with p := p } with
    | .ok turned => turned.put c
    | .error stop => .error stop

/-- `while (len)`, with `tmp` that many bytes behind `start`. -/
def bytes (free : Nat → Bool) (source : Nat → Byte) (start : Nat) :
    Nat → Copy → Except Stop Copy
  | 0, copy => .ok copy
  | len + 1, copy =>
    match copy.byte free (source (start + len)) with
    | .ok copy => bytes free source start len copy
    | .error stop => .error stop

end Copy

/-- A segment that `fs` can stand for. -/
structure Space where
  bytes : Nat → Byte
  limit : Nat

/-- The data segment of the caller. -/
def Caller.space (caller : Caller) : Space :=
  { bytes := caller.bytes
    limit := caller.limit }

/--
`while (argc-- > 0)`, where `fs` may change between the pointers and the strings.  The
test `p-len < 0` is of a number without a sign and never holds.
-/
def Copy.strings
    (free : Nat → Bool)
    (pointers space : Space)
    (argv : Nat) : Nat → Copy → Except Stop Copy
  | 0, copy => .ok copy
  | argc + 1, copy =>
    let tmp := getLong pointers.bytes (argv + 4 * argc)
    if tmp = 0 then
      .error .panic
    else
      match stringLength space.bytes (space.limit - tmp) tmp with
      | none => .error .fault
      | some len =>
        match copy.bytes free space.bytes tmp len with
        | .ok copy => strings free pointers space argv argc copy
        | .error stop => .error stop

/-- `copy_strings`, with the segments of the kernel and of the caller. -/
def copyStringsFrom
    (free : Nat → Bool)
    (kernel user : Space)
    (fromKmem argc argv : Nat)
    (page : Pages)
    (p : Nat) : Except Stop (Pages × Nat) :=
  let pointers := if fromKmem = 1 ∨ fromKmem = 2 then kernel else user
  let space := if fromKmem = 2 then kernel else user
  if p = 0 then
    .ok (page, 0)
  else
    match Copy.strings free pointers space argv argc ⟨page, p, none, 0⟩ with
    | .ok copy => .ok (copy.page, copy.p)
    | .error (.noMemory page) => .ok (page, 0)
    | .error stop => .error stop

/-- `copy_strings` with all of it in the segment of the caller. -/
def copyStrings
    (free : Nat → Bool)
    (caller : Caller) : Nat → Nat → Pages → Nat → Except Stop (Pages × Nat) :=
  copyStringsFrom free caller.space caller.space 0

/-! ## The new segment -/

/-- The byte of the pages at an address counted from the first page. -/
def byteAt (page : Pages) (a : Nat) : Option Byte :=
  (page (a / pageSize)).map fun bytes => bytes (a % pageSize)

/--
The segment that `change_ldt` makes: the pages at its end, and elsewhere what a page
that is touched turns out to have.
-/
def changeLdt (page : Pages) (fresh : Nat → Byte) (a : Nat) : Byte :=
  let base := dataLimit - maxArgPages * pageSize
  if a < base then
    fresh a
  else
    (byteAt page (a - base)).getD (fresh a)

/-- `while (argc-->0)` of `create_tables`, with the zero behind, and `p` after it. -/
def fillTable : Nat → Nat → Nat → (Nat → Byte) → Option (Nat × (Nat → Byte))
  | 0, table, p, bytes => some (p, putLong 0 table bytes)
  | argc + 1, table, p, bytes =>
    let bytes := putLong p table bytes
    match stringLength bytes (dataLimit - p) p with
    | none => none
    | some len => fillTable argc (table + 4) (p + len) bytes

def createTables (p argc envc : Nat) (bytes : Nat → Byte) :
    Option (Nat × (Nat → Byte)) :=
  let envp := p / 4 * 4 - 4 * (envc + 1)
  let argv := envp - 4 * (argc + 1)
  let sp := argv - 12
  let bytes := putLong envp (sp + 8) bytes
  let bytes := putLong argv (sp + 4) bytes
  let bytes := putLong argc sp bytes
  match fillTable argc argv p bytes with
  | none => none
  | some (p, bytes) =>
    match fillTable envc envp p bytes with
    | none => none
    | some (_, bytes) => some (sp, bytes)

/--
`while (i&0xfff) put_fs_byte(0,(char *) (i++))`, for at most that many rounds; behind
the segment a store faults.
-/
def clearTail : Nat → Nat → (Nat → Byte) → Option (Nat → Byte)
  | 0, _, _ => none
  | rounds + 1, i, bytes =>
    if i % pageSize = 0 then
      some bytes
    else if dataLimit ≤ i then
      none
    else
      clearTail rounds (i + 1) (Function.update bytes i 0)

/-! ## `do_execve` -/

/-- `struct exec` -/
structure Exec where
  magic : BitVec 32
  text : BitVec 32
  data : BitVec 32
  bss : BitVec 32
  syms : BitVec 32
  entry : BitVec 32
  trsize : BitVec 32
  drsize : BitVec 32

namespace Exec

/-- The header at the beginning of a block. -/
def read (block : Nat → Byte) : Exec :=
  let field number := BitVec.ofNat 32 (getLong block (4 * number))
  { magic := field 0
    text := field 1
    data := field 2
    bss := field 3
    syms := field 4
    entry := field 5
    trsize := field 6
    drsize := field 7 }

/-- `N_TXTOFF`, with `SEGMENT_SIZE` and the size of a header. -/
def nTxtoff (ex : Exec) : BitVec 32 :=
  if ex.magic = 0o413 then 1024 - 32 + 32 else 32

/-- Whether the sizes in a header are rejected. -/
def isBad (ex : Exec) (size : BitVec 32) : Bool :=
  ex.magic != 0o413 || ex.trsize != 0 || ex.drsize != 0 ||
    0x3000000 < ex.text + ex.data + ex.bss ||
    size < ex.text + ex.data + ex.syms + ex.nTxtoff

/-- Where the data end. -/
def endData (ex : Exec) : BitVec 32 :=
  ex.data + ex.text

end Exec

/-- What `do_execve` looks at of the file; `block` is `none` where `bread` fails. -/
structure Inode where
  mode : Nat
  uid : Nat
  gid : Nat
  size : BitVec 32
  block : Option (Nat → Byte)

inductive Errno where
  | enoent
  | eacces
  | enoexec
  | enomem
deriving DecidableEq

/-- A program that has been started. -/
structure Program where
  eip : BitVec 32
  sp : Nat
  bytes : Nat → Byte
  euid : Nat
  egid : Nat
  codeLimit : BitVec 32
  endCode : BitVec 32
  endData : BitVec 32
  brk : BitVec 32
  startStack : Nat

inductive Outcome where
  | failed (errno : Errno)
  | started (program : Program)
  /-- The file is a script. -/
  | script
  /-- The kernel or the task is lost. -/
  | lost

/-- Whether the caller may execute the file. -/
def Caller.mayExec (caller : Caller) (inode : Inode) : Bool :=
  let i :=
    if caller.euid = inode.uid then inode.mode >>> 6
    else if caller.egid = inode.gid then inode.mode >>> 3
    else inode.mode
  i &&& 1 ≠ 0 || (inode.mode &&& 0o111 ≠ 0 && caller.euid = 0)

/-- What a program starts with. -/
def Caller.program
    (caller : Caller)
    (inode : Inode)
    (ex : Exec)
    (sp : Nat)
    (bytes : Nat → Byte) : Program :=
  { eip := ex.entry
    sp := sp
    bytes := bytes
    euid := if inode.mode &&& 0o4000 ≠ 0 then inode.uid else caller.euid
    egid := if inode.mode &&& 0o2000 ≠ 0 then inode.gid else caller.egid
    codeLimit := (ex.text + 4095) &&& 0xfffff000
    endCode := ex.text
    endData := ex.endData
    brk := ex.bss + ex.endData
    startStack := sp / pageSize * pageSize }

/-- What `do_execve` does behind the point of no return. -/
def Caller.start
    (caller : Caller)
    (fresh : Nat → Byte)
    (inode : Inode)
    (ex : Exec)
    (argc envc : Nat)
    (page : Pages)
    (p : Nat) : Outcome :=
  let p := p + dataLimit - maxArgPages * pageSize
  match createTables p argc envc (changeLdt page fresh) with
  | none => .lost
  | some (sp, bytes) =>
    match clearTail (pageSize + 1) (ex.text + ex.data).toNat bytes with
    | none => .lost
    | some bytes => .started (caller.program inode ex sp bytes)

/-- `do_execve`, with the inode that `namei` finds. -/
def Caller.doExecve
    (caller : Caller)
    (free : Nat → Bool)
    (fresh : Nat → Byte)
    (inode : Option Inode)
    (argv envp : Nat) : Outcome :=
  match inode with
  | none => .failed .enoent
  | some inode =>
    match caller.count argv, caller.count envp with
    | some argc, some envc =>
      if !isReg inode.mode then .failed .eacces
      else if !caller.mayExec inode then .failed .enoexec
      else
        match inode.block with
        | none => .failed .eacces
        | some block =>
          let ex := Exec.read block
          if block 0 = 0x23 ∧ block 1 = 0x21 then .script
          else if ex.isBad inode.size then .failed .enoexec
          else if ex.nTxtoff ≠ 1024 then .failed .enoexec
          else
            let p := maxArgPages * pageSize - 4
            match copyStrings free caller envc envp (fun _ => none) p with
            | .error _ => .lost
            | .ok (page, p) =>
              match copyStrings free caller argc argv page p with
              | .error _ => .lost
              | .ok (page, p) =>
                if p = 0 then
                  .failed .enomem
                else
                  caller.start fresh inode ex argc envc page p
    | _, _ => .lost

end Execve

end HitOs
