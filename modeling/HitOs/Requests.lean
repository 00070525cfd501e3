import HitOs.Machine
import HitOs.Chains
import Mathlib.Algebra.Group.Nat.Defs

namespace HitOs

/-!
# Requests to block devices

`ll_rw_block` with its request slots, the lists of the devices and the locks of the
buffers.  A task runs until `ll_rw_block` returns or sleeps; an interrupt can end a
request wherever interrupts are enabled, so a turn is given the requests that end while
it looks for a slot and fills it.
-/

namespace Requests

open Routine

/-- `NR_BLK_DEV` -/
def nrBlkDev : Nat := 7

/-- `NR_REQUEST` -/
def nrRequest : Nat := 32

/-- `READ` -/
def Rw.read : Nat := 0

/-- `WRITE` -/
def Rw.write : Nat := 1

/-- `READA` -/
def Rw.readA : Nat := 2

/-- `WRITEA` -/
def Rw.writeA : Nat := 3

/-- A slot of `request`; `dev` is -1 if there is no request. -/
structure Request (β : Type) where
  dev : Int
  cmd : Nat
  sector : Nat
  bh : Option β
  next : Option Nat

/-- `IN_ORDER` -/
def inOrder {β : Type} (s1 s2 : Request β) : Bool :=
  decide (s1.cmd < s2.cmd) || (s1.cmd == s2.cmd &&
    (decide (s1.dev < s2.dev) || (s1.dev == s2.dev &&
      decide (s1.sector < s2.sector))))

structure BufferHead where
  dev : Nat
  blocknr : Nat
  uptodate : Bool
  dirt : Bool
  lock : Bool

/-- Where a task is when it does not run. -/
inductive Point (β : Type) where
  | user
  /-- In the `sleep_on` of `lock_buffer`. -/
  | locking (major rw : Nat) (rwAhead : Bool) (bh : β)
  /-- In `sleep_on(&wait_for_request)`. -/
  | searching (major rw : Nat) (bh : β)

/--
`current` has the `current_request` of each major device.  The slots whose requests have
ended, in `completed`, are not in the source.
-/
structure State (ι β : Type) where
  request : Nat → Request β
  current : Nat → Option Nat
  buffer : β → BufferHead
  point : ι → Point β
  completed : List Nat

variable {ι β : Type} [DecidableEq ι] [DecidableEq β]

namespace State

def setRequest
    (slot : Nat)
    (request : Request β)
    (state : State ι β) : State ι β :=
  { state with request := Function.update state.request slot request }

def setNext
    (slot : Nat)
    (next : Option Nat)
    (state : State ι β) : State ι β :=
  state.setRequest slot { state.request slot with next := next }

def setCurrent
    (major : Nat)
    (slot : Option Nat)
    (state : State ι β) : State ι β :=
  { state with current := Function.update state.current major slot }

def setBuffer
    (bh : β)
    (head : BufferHead)
    (state : State ι β) : State ι β :=
  { state with buffer := Function.update state.buffer bh head }

def setLock (bh : β) (lock : Bool) (state : State ι β) : State ι β :=
  state.setBuffer bh { state.buffer bh with lock := lock }

def goto (current : ι) (point : Point β) (state : State ι β) : State ι β :=
  { state with point := Function.update state.point current point }

def complete (slot : Nat) (state : State ι β) : State ι β :=
  { state with completed := state.completed ++ [slot] }

end State

/-! ## Completion -/

/-- `end_request` of the driver of a major device. -/
def endRequest (major : Nat) (uptodate : Bool) : Routine (State ι β) Unit := do
  let state ← read
  match state.current major with
  | none => pure ()
  | some slot => do
      match (state.request slot).bh with
      | none => pure ()
      | some bh =>
        update fun state =>
          state.setBuffer bh
            { state.buffer bh with uptodate := uptodate, lock := false }
      update fun state =>
        state.setRequest slot { state.request slot with dev := -1 }
      update fun state =>
        state.setCurrent major (state.request slot).next
      update (State.complete slot)

/-- The interrupts of a while: which devices end a request, and how. -/
def interrupts : List (Nat × Bool) → Routine (State ι β) Unit
  | [] => pure ()
  | (major, uptodate) :: rest => do
      endRequest major uptodate
      interrupts rest

/-! ## New requests -/

/-- The loop of `add_request`, which ends within the slots there are. -/
def findPlace
    (state : State ι β)
    (req : Nat) : Nat → Nat → Option Nat
  | 0, _ => none
  | fuel + 1, tmp =>
    match (state.request tmp).next with
    | none => some tmp
    | some next =>
      if (inOrder (state.request tmp) (state.request req) ||
          !inOrder (state.request tmp) (state.request next)) &&
          inOrder (state.request req) (state.request next) then
        some tmp
      else
        findPlace state req fuel next

/-- `add_request`; what `request_fn` ends at once is a completion of its own. -/
def addRequest (major req : Nat) : Routine (State ι β) Unit := do
  update (State.setNext req none)
  let state ← read
  match (state.request req).bh with
  | none => pure ()
  | some bh =>
    update fun state =>
      state.setBuffer bh { state.buffer bh with dirt := false }
  match state.current major with
  | none => update (State.setCurrent major (some req))
  | some tmp =>
    match findPlace state req nrRequest tmp with
    | none => abandon
    | some tmp => do
        update (State.setNext req (state.request tmp).next)
        update (State.setNext tmp (some req))

/-- What ends while a turn of `make_request` has interrupts enabled. -/
structure Arrivals where
  /-- Before the slot of a number is tested. -/
  searching : Nat → List (Nat × Bool)
  found : List (Nat × Bool)
  filled : List (Nat × Bool)

/-- Find an empty request below a limit, from the last one down. -/
def findRequest
    (arrivals : Nat → List (Nat × Bool)) :
    Nat → Routine (State ι β) (Option Nat)
  | 0 => pure none
  | req + 1 => do
      interrupts (arrivals req)
      let state ← read
      if (state.request req).dev < 0 then
        pure (some req)
      else
        findRequest arrivals req

/-- Fill up the request-info. -/
def fill (req rw : Nat) (bh : β) (state : State ι β) : State ι β :=
  state.setRequest req
    { dev := (state.buffer bh).dev
      cmd := rw
      sector := (state.buffer bh).blocknr * 2 % 2 ^ 32
      bh := some bh
      next := none }

/-- `make_request` from `repeat` on. -/
def searchRequest
    (current : ι)
    (arrivals : Arrivals)
    (major rw : Nat)
    (rwAhead : Bool)
    (bh : β) : Routine (State ι β) Unit := do
  let limit := if rw = Rw.read then nrRequest else nrRequest * 2 / 3
  match ← findRequest arrivals.searching limit with
  | none =>
    if rwAhead then do
      update (State.setLock bh false)
      update (State.goto current .user)
    else
      update (State.goto current (.searching major rw bh))
  | some req => do
      interrupts arrivals.found
      update (fill req rw bh)
      interrupts arrivals.filled
      addRequest major req
      update (State.goto current .user)

/-- `make_request` from `lock_buffer` on. -/
def lockRequest
    (current : ι)
    (arrivals : Arrivals)
    (major rw : Nat)
    (rwAhead : Bool)
    (bh : β) : Routine (State ι β) Unit := do
  let state ← read
  let head := state.buffer bh
  if head.lock then
    update (State.goto current (.locking major rw rwAhead bh))
  else do
    update (State.setLock bh true)
    if (rw = Rw.write ∧ head.dirt = false) ∨
        (rw = Rw.read ∧ head.uptodate = true) then do
      update (State.setLock bh false)
      update (State.goto current .user)
    else
      searchRequest current arrivals major rw rwAhead bh

def makeRequest
    (current : ι)
    (arrivals : Arrivals)
    (major rw : Nat)
    (bh : β) : Routine (State ι β) Unit := do
  let state ← read
  if rw = Rw.readA ∨ rw = Rw.writeA then
    if (state.buffer bh).lock then
      pure ()
    else
      lockRequest current arrivals major
        (if rw = Rw.readA then Rw.read else Rw.write) true bh
  else if rw ≠ Rw.read ∧ rw ≠ Rw.write then
    Routine.panic "Bad block dev command, must be R/W/RA/WA"
  else
    lockRequest current arrivals major rw false bh

/-- `ll_rw_block`; `driven` tells which devices have a `request_fn`. -/
def llRwBlock
    (driven : Nat → Bool)
    (current : ι)
    (arrivals : Arrivals)
    (rw : Nat)
    (bh : β) : Routine (State ι β) Unit := do
  let state ← read
  let major := (state.buffer bh).dev / 256
  if nrBlkDev ≤ major ∨ driven major = false then
    pure ()
  else
    makeRequest current arrivals major rw bh

/-! ## The tasks -/

inductive Action (ι β : Type) where
  | llRwBlock (current : ι) (rw : Nat) (bh : β) (arrivals : Arrivals)
  | resume (current : ι) (arrivals : Arrivals)
  | endRequest (major : Nat) (uptodate : Bool)
  /-- What the rest of the kernel does to a buffer. -/
  | use (bh : β) (head : BufferHead)

namespace Action

def perform
    (driven : Nat → Bool) : Action ι β → Routine (State ι β) Unit
  | .llRwBlock current rw bh arrivals =>
    Requests.llRwBlock driven current arrivals rw bh
  | .resume current arrivals => do
      let state ← read
      match state.point current with
      | .user => pure ()
      | .locking major rw rwAhead bh => lockRequest current arrivals major rw rwAhead bh
      | .searching major rw bh => searchRequest current arrivals major rw false bh
  | .endRequest major uptodate => Requests.endRequest major uptodate
  | .use bh head => update (State.setBuffer bh head)

/-- A sleeper may wake up at any time; only this module changes `b_lock`. -/
def Enabled (state : State ι β) : Action ι β → Prop
  | .llRwBlock current _ _ _ => state.point current = .user
  | .resume current _ => state.point current ≠ .user
  | .endRequest _ _ => True
  | .use bh head => head.lock = (state.buffer bh).lock

end Action

/-- The requests as `blk_dev_init` leaves them. -/
def requestMachine
    (driven : Nat → Bool) : Machine (State ι β) (Action ι β) where
  initial state :=
    (∀ slot, slot < nrRequest →
      (state.request slot).dev = -1 ∧ (state.request slot).next = none) ∧
    (∀ major, state.current major = none) ∧
    (∀ bh, (state.buffer bh).lock = false) ∧
    ∀ task, state.point task = .user
  enabled action state := action.Enabled state
  perform action := action.perform driven

end Requests

end HitOs
