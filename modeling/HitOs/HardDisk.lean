import HitOs.MachineInts

namespace HitOs

/-!
# The hard-disk driver

`do_hd_request` and the interrupts that call it again, for drives that answer: what a
status register or the data request says is given to each step.  A step is an interrupt
or one pass of `do_hd_request` from `repeat` on.
-/

namespace Drives

/-- `READ` and `WRITE` -/
def read : Nat := 0
def write : Nat := 1

/-- A request in the list of a driver; `slot` is its place in `request`. -/
structure Request where
  slot : Nat
  dev : Nat
  cmd : Nat
  errors : Int
  sector : BitVec 32
  nrSectors : BitVec 32
  /-- `bh->b_lock` -/
  lock : Bool
  deriving Repr, DecidableEq

/-- `MAJOR` and `MINOR` of the device. -/
def Request.major (request : Request) : Nat :=
  request.dev / 256

def Request.minor (request : Request) : Nat :=
  request.dev % 256

/-- `CURRENT` and the requests behind it. -/
abbrev Queue := List Request

/-- The place of the current request, which is `none` for NULL. -/
def current (queue : Queue) : Option Nat :=
  queue.head?.map Request.slot

/-- What a driver does to requests that matters to whom an error is charged. -/
inductive Access where
  /-- `CURRENT->errors` is read or written. -/
  | errors (slot : Option Nat)
  /-- `end_request(0)` -/
  | failed (request : Request)
  deriving Repr, DecidableEq

/-- `CURRENT->errors`; `stray` is what is found behind NULL. -/
def errorsOf (stray : Int) : Queue → Int
  | [] => stray
  | request :: _ => request.errors

/--
What the error handlers share: the requests after it, the count that is looked at
last, and the accesses.  Behind NULL nothing is kept.
-/
def charge
    (gone : Int → Bool)
    (stray : Int) : Queue → Queue × Int × List Access
  | [] => ([], stray, [.errors none])
  | request :: rest =>
    let request := { request with errors := int32 (request.errors + 1) }
    if gone request.errors then
      (rest, errorsOf stray rest,
        [.errors (some request.slot), .failed request, .errors (current rest)])
    else
      (request :: rest, request.errors,
        [.errors (some request.slot), .errors (some request.slot)])

end Drives

namespace HardDisk

open Drives

/-- `MAX_ERRORS` -/
def maxErrors : Int := 7

def winRestore : Nat := 0x10
def winRead : Nat := 0x20
def winWrite : Nat := 0x30
def winSpecify : Nat := 0x91

/-- `hd_i_struct` -/
structure HdInfo where
  head : BitVec 32
  sect : BitVec 32
  cyl : BitVec 32

/-- `hd_struct` -/
structure HdStruct where
  startSect : BitVec 32
  nrSects : BitVec 32

/-- `NR_HD`, which is at most `MAX_HD`, with `hd` and `hd_info` -/
structure Disks where
  nrHd : Nat
  hd : Nat → HdStruct
  hdInfo : Nat → HdInfo
  most : nrHd ≤ 2

/-- The routines that `do_hd` points to. -/
inductive Handler where
  | readIntr
  | writeIntr
  | recalIntr
  deriving Repr, DecidableEq

/-- `calling` is set while `do_hd_request` runs, or is about to, in an interrupt. -/
structure Driver where
  queue : Queue
  reset : Bool
  recalibrate : Bool
  doHd : Option Handler
  calling : Bool
  deriving Repr, DecidableEq

/-- The arguments of `hd_out`. -/
structure HdOut where
  drive : BitVec 32
  nsect : BitVec 32
  sect : BitVec 32
  head : BitVec 32
  cyl : BitVec 32
  cmd : Nat
  deriving Repr, DecidableEq

/-- What a step does; `driver` is `none` when the kernel stops. -/
structure Turn where
  driver : Option Driver
  accesses : List Access
  outs : List HdOut
  deriving DecidableEq

/-- What the hardware answers in a step, and what is found behind NULL. -/
structure Answer where
  /-- `controller_ready` -/
  ready : Bool
  /-- `DRQ_STAT` comes in time. -/
  drq : Bool
  /-- `win_result` -/
  bad : Bool
  behind : Request

/-- A step that stops the kernel. -/
def Turn.stopped : Turn where
  driver := none
  accesses := []
  outs := []

/-- A step that only changes the driver. -/
def Turn.quiet (driver : Driver) : Turn where
  driver := some driver
  accesses := []
  outs := []

/-! ## Errors -/

def badRwIntr (stray : Int) (driver : Driver) : Driver × List Access :=
  let (queue, errors, accesses) :=
    charge (fun errors => decide (maxErrors ≤ errors)) stray driver.queue
  ({ driver with
      queue := queue
      reset := driver.reset || decide (maxErrors / 2 < errors) },
    accesses)

/-- An interrupt that reports an error, from `win_result` on. -/
def failedIntr (stray : Int) (driver : Driver) : Turn :=
  let (driver, accesses) := badRwIntr stray driver
  { driver := some { driver with calling := true }
    accesses := accesses
    outs := [] }

/-! ## Commands -/

/-- `hd_out` -/
def hdOut
    (answer : Answer)
    (out : HdOut)
    (handler : Handler)
    (driver : Driver) : Option Driver :=
  if 1 < out.drive ∨ 15 < out.head then
    none
  else if !answer.ready then
    none
  else
    some { driver with doHd := some handler }

/-- The command of a branch of `do_hd_request` that returns after it. -/
def command
    (answer : Answer)
    (out : HdOut)
    (handler : Handler)
    (driver : Driver) : Turn where
  driver := hdOut answer out handler { driver with calling := false }
  accesses := []
  outs := [out]

/-- A command to write, which is tried again if the drive asks for no data. -/
def writeCommand
    (answer : Answer)
    (out : HdOut)
    (driver : Driver) : Turn :=
  match hdOut answer out .writeIntr driver with
  | none => { driver := none, accesses := [], outs := [out] }
  | some driver =>
    if answer.drq then
      { driver := some { driver with calling := false }
        accesses := []
        outs := [out] }
    else
      { failedIntr answer.behind.errors driver with outs := [out] }

/-- Where the sectors of a request are. -/
structure Place where
  dev : Nat
  cyl : BitVec 32
  head : BitVec 32
  sec : BitVec 32
  deriving Repr, DecidableEq

/-- The test with which a request is rejected. -/
def Disks.rejects (disks : Disks) (request : Request) : Bool :=
  decide (5 * disks.nrHd ≤ request.minor) ||
    decide ((disks.hd request.minor).nrSects < request.sector + 2)

/-- The two divisions. -/
def Disks.place (disks : Disks) (request : Request) : Place :=
  let block := request.sector + (disks.hd request.minor).startSect
  let dev := request.minor / 5
  { dev := dev
    cyl := block / (disks.hdInfo dev).sect / (disks.hdInfo dev).head
    head := block / (disks.hdInfo dev).sect % (disks.hdInfo dev).head
    sec := block % (disks.hdInfo dev).sect + 1 }

/-- The command for a request at a place. -/
def Place.out (place : Place) (request : Request) (cmd : Nat) : HdOut where
  drive := BitVec.ofNat 32 place.dev
  nsect := request.nrSectors
  sect := place.sec
  head := place.head
  cyl := place.cyl
  cmd := cmd

/-- `reset_hd` -/
def resetHd (disks : Disks) (answer : Answer) (nr : Nat) (driver : Driver) : Turn :=
  let info := disks.hdInfo nr
  command answer
    { drive := BitVec.ofNat 32 nr
      nsect := info.sect
      sect := info.sect
      head := info.head - 1
      cyl := info.cyl
      cmd := winSpecify }
    .recalIntr driver

/-- `do_hd_request` for a request that is not rejected. -/
def serve
    (disks : Disks)
    (answer : Answer)
    (request : Request)
    (driver : Driver) : Turn :=
  let place := disks.place request
  let info := disks.hdInfo place.dev
  if info.sect = 0 ∨ info.head = 0 then
    -- A division by zero.
    .stopped
  else if driver.reset then
    resetHd disks answer place.dev
      { driver with reset := false, recalibrate := true }
  else if driver.recalibrate then
    command answer
      { drive := BitVec.ofNat 32 place.dev
        nsect := info.sect
        sect := 0
        head := 0
        cyl := 0
        cmd := winRestore }
      .recalIntr { driver with recalibrate := false }
  else if request.cmd = write then
    writeCommand answer (place.out request winWrite) driver
  else if request.cmd = read then
    command answer (place.out request winRead) .readIntr driver
  else
    .stopped

/-- `do_hd_request` from `repeat` on: after a rejection it goes on with the next one. -/
def doHdRequest (disks : Disks) (answer : Answer) (driver : Driver) : Turn :=
  match driver.queue with
  | [] => .quiet { driver with calling := false }
  | request :: rest =>
    if request.major ≠ 3 then
      .stopped
    else if !request.lock then
      .stopped
    else if disks.rejects request then
      { driver := some { driver with queue := rest }
        accesses := [.failed request]
        outs := [] }
    else
      serve disks answer request driver

/-! ## Interrupts -/

/-- The end of `read_intr` and of `write_intr` for a sector that is done. -/
def sectorDone
    (handler : Handler)
    (request : Request)
    (rest : Queue)
    (driver : Driver) : Turn :=
  if request.nrSectors ≠ 0 then
    .quiet { driver with queue := request :: rest, doHd := some handler }
  else
    -- `end_request(1)`
    .quiet { driver with queue := rest, calling := true }

def readIntr (answer : Answer) (driver : Driver) : Turn :=
  if answer.bad then
    failedIntr answer.behind.errors driver
  else
    match driver.queue with
    | [] => .stopped
    | request :: rest =>
      sectorDone .readIntr
        { request with
          errors := 0
          sector := request.sector + 1
          nrSectors := request.nrSectors - 1 }
        rest driver

def writeIntr (answer : Answer) (driver : Driver) : Turn :=
  if answer.bad then
    failedIntr answer.behind.errors driver
  else
    match driver.queue with
    | [] => .stopped
    | request :: rest =>
      -- The sector number only moves on if there is another sector.
      let left := request.nrSectors - 1
      let sector := if left ≠ 0 then request.sector + 1 else request.sector
      sectorDone .writeIntr
        { request with sector := sector, nrSectors := left } rest driver

def recalIntr (answer : Answer) (driver : Driver) : Turn :=
  if answer.bad then
    failedIntr answer.behind.errors driver
  else
    .quiet { driver with calling := true }

def handle : Handler → Answer → Driver → Turn
  | .readIntr => readIntr
  | .writeIntr => writeIntr
  | .recalIntr => recalIntr

/-- An interrupt of the drive, which calls `do_hd` once. -/
def interrupt (answer : Answer) (driver : Driver) : Turn :=
  match driver.doHd with
  | none => .quiet driver
  | some handler => handle handler answer { driver with doHd := none }

/-- What happens in interrupts. -/
inductive Event where
  | pass (answer : Answer)
  | interrupt (answer : Answer)

/-- Whether an event can happen: an interrupt is not interrupted itself. -/
def Event.enabled (driver : Driver) : Event → Prop
  | .pass _ => driver.calling = true
  | .interrupt _ => driver.calling = false

def Event.perform
    (disks : Disks)
    (driver : Driver) : Event → Turn
  | .pass answer => doHdRequest disks answer driver
  | .interrupt answer => HardDisk.interrupt answer driver

end HardDisk

end HitOs
