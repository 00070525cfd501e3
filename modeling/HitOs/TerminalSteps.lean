import HitOs.Terminals

namespace HitOs

/-!
# One terminal

What the routines of one terminal do step by step: `copy_to_cooked`, `con_write`,
`tty_write` and `tty_read`, the interrupts of the keyboard and the serial lines.  A step
is a test of a queue, a `GETCH` or a `PUTCH`; between two steps interrupts may come, and
`copy_to_cooked` then runs above what was running.  `get_fs_byte` and `put_fs_byte` can
sleep in a page fault.  The alarm of `tty_read` only sets `current->alarm`, and its
signal comes with the step where it is noticed.
-/

namespace Terminals

open Consoles (Console)

/-- Where a routine is that an interrupt or a call has started. -/
inductive Frame where
  /-- At the loop test of `copy_to_cooked`. -/
  | copying
  /-- Before `GETCH` from `read_q`. -/
  | taking
  /-- Behind it. -/
  | treating (c : Byte)
  /-- At the loop test for `KILL_CHAR`. -/
  | killing
  /-- In an echo, with the bytes that are still to put. -/
  | echoing (cs : List Byte)
  /-- Before the `DEC` that takes back a character. -/
  | deleting
  /-- Before the `PUTCH` of a character to `secondary`. -/
  | cooking (c : Byte)
  /-- At the loop test of `con_write`. -/
  | conWriting (nr : Nat)
  /-- Behind `GETCH` from `write_q`. -/
  | showing (c : Byte)
deriving DecidableEq

/-- Where a call of `tty_write` or `tty_read` is. -/
inductive Call where
  /-- At `while (nr>0)` of `tty_write`, with the bytes to write. -/
  | writing (rest : List Byte)
  /-- In the loop of `sleep_if_full`. -/
  | fullSleeping (rest : List Byte)
  /-- At the loop test that fills `write_q`. -/
  | filling (rest : List Byte)
  /-- In `get_fs_byte`, behind the test. -/
  | fetching (c : Byte) (rest : List Byte)
  /-- Behind `tty->write`. -/
  | written (rest : List Byte)
  /-- At `while (nr>0)` of `tty_read`, with `b-buf` bytes read. -/
  | reading (nr count minimum : Nat)
  /-- In the loop of `sleep_if_empty`. -/
  | emptySleeping (nr count minimum : Nat)
  /-- Before `GETCH` from `secondary`. -/
  | getting (nr count minimum : Nat)
  /-- In `put_fs_byte`. -/
  | storing (c : Byte) (nr count minimum : Nat)
deriving DecidableEq

/-- Where a call can sleep. -/
def Call.sleeps : Call → Bool
  | .writing _ | .fullSleeping _ | .fetching _ _ | .emptySleeping _ _ _
  | .storing _ _ _ _ => true
  | .filling _ | .written _ | .reading _ _ _ | .getting _ _ _ => false

/-- Where a call can meet a page fault. -/
def Call.faults : Call → Bool
  | .fetching _ _ | .storing _ _ _ _ => true
  | _ => false

theorem Call.sleeps_of_faults
    {call : Call}
    (faults : call.faults = true) :
    call.sleeps = true := by
  cases call with
  | fetching | storing =>
    rfl
  | _ =>
    cases faults

/-- `tty_write` fills `write_q`. -/
def Call.isFilling : Call → Bool
  | .filling _ | .fetching _ _ => true
  | _ => false

/-- `tty_write` has found room for a byte. -/
def Call.isFetching : Call → Bool
  | .fetching _ _ => true
  | _ => false

def Call.isGetting : Call → Bool
  | .getting _ _ _ => true
  | _ => false

/-- What is not in the source: what went through the queues. -/
structure History where
  /-- The bytes put into `write_q`. -/
  put : List Byte
  /-- The bytes taken out of `write_q`. -/
  taken : List Byte
  /-- A byte has been put into a queue that was full. -/
  overflow : Bool
  /-- A byte has been taken from a `write_q` that was empty. -/
  underflow : Bool
  /-- `tty_read` has got a byte of a line without an end. -/
  early : Bool

/-- `call` is what the running task does, `stack` what runs above it. -/
structure State where
  tty : Tty
  console : Console
  crFlag : Bool
  call : Option Call
  stack : List Frame
  asleep : List { call : Call // call.sleeps }
  history : History

inductive Action where
  /-- A keyboard interrupt with up to eight characters for `put_queue`. -/
  | key (cs : List Byte)
  /-- A receive interrupt of a serial line. -/
  | readChar (c : Byte)
  /-- A transmit interrupt of a serial line. -/
  | writeChar
  | ttyWrite (buf : List Byte)
  | ttyRead (nr : Nat)
  /-- A task that sleeps goes on. -/
  | resume (number : Nat)
  /-- The task that runs sleeps in a page fault. -/
  | fault
  /-- `termios` is set by `ioctl`. -/
  | setTermios (termios : Termios)
  /-- `cr_flag` is left by calls for other terminals. -/
  | setCrFlag (crFlag : Bool)
  /-- What runs goes on; whether it has a signal, and a bit for `isupper`. -/
  | go (signal stray : Bool)

namespace State

def setCall (call : Option Call) (state : State) : State :=
  { state with call := call }

def setStack (stack : List Frame) (state : State) : State :=
  { state with stack := stack }

def push (frame : Frame) (state : State) : State :=
  { state with stack := frame :: state.stack }

def setReadQ (queue : Queue) (state : State) : State :=
  { state with tty := { state.tty with readQ := queue } }

def setSecondary (queue : Queue) (state : State) : State :=
  { state with tty := { state.tty with secondary := queue } }

def setStopped (stopped : Bool) (state : State) : State :=
  { state with tty := { state.tty with stopped := stopped } }

/-- `PUTCH` to `write_q`. -/
def putWrite (c : Byte) (state : State) : State :=
  { state with
    tty := { state.tty with writeQ := state.tty.writeQ.putch c }
    history := { state.history with
      put := state.history.put ++ [c]
      overflow := state.history.overflow || state.tty.writeQ.full } }

/-- `PUTCH` to `secondary`. -/
def putSecondary (c : Byte) (state : State) : State :=
  { state with
    tty := { state.tty with secondary := state.tty.secondary.putch c }
    history := { state.history with
      overflow := state.history.overflow || state.tty.secondary.full } }

/-- `PUTCH`s to `read_q`, with interrupts disabled. -/
def putRead (cs : List Byte) (state : State) : State :=
  { state with
    tty := { state.tty with readQ := state.tty.readQ.putAll cs }
    history := { state.history with
      overflow := state.history.overflow || state.tty.readQ.overrun cs } }

/-- `GETCH` from `write_q`. -/
def getWrite (state : State) : State :=
  { state with
    tty := { state.tty with writeQ := state.tty.writeQ.getch }
    history := { state.history with
      taken := state.history.taken ++ [state.tty.writeQ.first]
      underflow := state.history.underflow || state.tty.writeQ.empty } }

/-- `tty->write(tty)`; `rs_write` only enables an interrupt. -/
def write (state : State) : State :=
  match state.tty.write with
  | .conWrite => state.push (.conWriting state.tty.writeQ.chars)
  | .rsWrite => state

@[simp] theorem write_call (state : State) :
    state.write.call = state.call := by
  unfold write
  split <;> rfl

/-! ## `copy_to_cooked` -/

/-- Echo characters, if `ECHO` is set. -/
def echo (cs : List Byte) (state : State) : State :=
  if state.tty.termios.echo then state.push (.echoing cs) else state

@[simp] theorem echo_call (cs : List Byte) (state : State) :
    (state.echo cs).call = state.call := by
  unfold echo
  split <;> rfl

/-- Whether `secondary` ends with a character that can be taken back. -/
def canErase (state : State) : Bool :=
  let queue := state.tty.secondary
  !(queue.empty || state.tty.termios.isEnd queue.last)

/-- Take back the last character of `secondary`, after its echo. -/
def erase (state : State) : State :=
  (state.push .deleting).echo
    (Termios.ruboutOf state.tty.secondary.last)

/-- A character that ends a line is counted. -/
def count (c : Byte) (state : State) : State :=
  if state.tty.termios.isEnd c then
    state.setSecondary
      { state.tty.secondary with data := state.tty.secondary.data + 1 }
  else
    state

@[simp] theorem count_call (c : Byte) (state : State) :
    (state.count c).call = state.call := by
  unfold count
  split <;> rfl

@[simp] theorem count_stack (c : Byte) (state : State) :
    (state.count c).stack = state.stack := by
  unfold count
  split <;> rfl

@[simp] theorem count_termios (c : Byte) (state : State) :
    (state.count c).tty.termios = state.tty.termios := by
  unfold count
  split <;> rfl

@[simp] theorem count_writeQ (c : Byte) (state : State) :
    (state.count c).tty.writeQ = state.tty.writeQ := by
  unfold count
  split <;> rfl

@[simp] theorem count_left (c : Byte) (state : State) :
    (state.count c).tty.secondary.left = state.tty.secondary.left := by
  unfold count
  split <;> rfl

/-- One character of `copy_to_cooked`. -/
def cook (c : Byte) (state : State) : State :=
  match state.tty.termios.treat c with
  | .kill => state.push .killing
  | .erase => if state.canErase then state.erase else state
  | .stop => state.setStopped true
  | .start => state.setStopped false
  | .intr | .quit => state
  | .plain =>
    ((state.count c).push (.cooking c)).echo
      (state.tty.termios.echoOf c)

/-- The loop test of `copy_to_cooked`. -/
def copy (state : State) : State :=
  if !state.tty.readQ.empty && !state.tty.secondary.full then
    state.push .taking
  else
    state.setStack state.stack.tail

/-- A character of `read_q`, as the flags for input have it. -/
def treat (stray : Bool) (c : Byte) (state : State) : State :=
  match state.tty.termios.input stray c with
  | some c => state.cook c
  | none => state

/-! ## `con_write` -/

/-- A character goes to the console, with the answer of `respond`. -/
def conByte (c : Byte) (state : State) : State :=
  let shown :=
    { state with
      console := state.console.writeByte state.tty.termios.verase c }
  if asks state.console c then
    (shown.putRead response).push .copying
  else
    shown

@[simp] theorem conByte_call (c : Byte) (state : State) :
    (state.conByte c).call = state.call := by
  unfold conByte
  dsimp only
  split <;> rfl

/-- What the routine on top of the stack does next. -/
def goFrame (stray : Bool) (frame : Frame) (rest : List Frame) (state : State) :
    State :=
  match frame with
  | .copying => state.copy
  | .taking =>
    (state.setStack (.treating state.tty.readQ.first :: rest)).setReadQ
      state.tty.readQ.getch
  | .treating c => (state.setStack rest).treat stray c
  | .killing => if state.canErase then state.erase else state.setStack rest
  | .echoing [] => (state.setStack rest).write
  | .echoing (c :: cs) => (state.setStack (.echoing cs :: rest)).putWrite c
  | .deleting => (state.setStack rest).setSecondary state.tty.secondary.dec
  | .cooking c => (state.setStack rest).putSecondary c
  | .conWriting 0 => state.setStack rest
  | .conWriting (nr + 1) =>
    (state.setStack
      (.showing state.tty.writeQ.first :: .conWriting nr :: rest)).getWrite
  | .showing c => (state.setStack rest).conByte c

/-! ## Calls -/

/-- The task that runs sleeps in its call. -/
def sleep
    (call : { call : Call // call.sleeps })
    (state : State) : State :=
  { state with call := none, asleep := call :: state.asleep }

/-- What the loop that fills `write_q` does with a byte. -/
def fill (c : Byte) (rest : List Byte) (stray : Bool) (state : State) : State :=
  let termios := state.tty.termios
  if termios.returns state.crFlag c then
    { (state.putWrite 13).setCall (some (.filling (c :: rest))) with
      crFlag := true }
  else
    { (state.putWrite (termios.written stray c)).setCall
        (some (.filling rest)) with
      crFlag := false }

/-- `GETCH` of `tty_read`. -/
def get (nr count minimum : Nat) (state : State) : State :=
  let termios := state.tty.termios
  let queue := state.tty.secondary
  let c := queue.first
  let state' :=
    { state.setSecondary (termios.consume queue) with
      history := { state.history with
        early := state.history.early || (termios.icanon &&
          !queue.contents.any fun c => c == 10 || c == termios.veof) } }
  if isChar c termios.veof && termios.icanon then
    state'.setCall none
  else
    state'.setCall (some (.storing c nr count minimum))

/-- What `tty_read` does behind `put_fs_byte`. -/
def stored (nr count minimum : Nat) (state : State) : Option Call :=
  if nr ≠ 1 ∧ state.tty.secondary.empty = false then
    some (.getting (nr - 1) (count + 1) minimum)
  else if state.tty.termios.icanon ∨ minimum ≤ count + 1 then
    none
  else
    some (.reading (nr - 1) (count + 1) minimum)

@[simp] theorem get_tty (nr count minimum : Nat) (state : State) :
    (state.get nr count minimum).tty =
      { state.tty with
        secondary := state.tty.termios.consume state.tty.secondary } := by
  unfold get
  dsimp only
  split_ifs <;> rfl

@[simp] theorem get_stack (nr count minimum : Nat) (state : State) :
    (state.get nr count minimum).stack = state.stack := by
  unfold get
  dsimp only
  split_ifs <;> rfl

@[simp] theorem get_asleep (nr count minimum : Nat) (state : State) :
    (state.get nr count minimum).asleep = state.asleep := by
  unfold get
  dsimp only
  split_ifs <;> rfl

/-- Behind a `GETCH` `tty_read` returns, or stores the byte. -/
theorem get_call
    {state : State} {nr count minimum : Nat} {call : Call}
    (calls : (state.get nr count minimum).call = some call) :
    ∃ c, call = .storing c nr count minimum := by
  unfold get at calls
  dsimp only at calls
  split_ifs at calls
  · cases calls
  · exact ⟨_, (Option.some.inj calls).symm⟩

/-- What the running task does next. -/
def goCall (signal stray : Bool) (call : Call) (state : State) : State :=
  let tty := state.tty
  match call with
  | .writing [] => state.setCall none
  | .writing rest =>
    if tty.writeQ.full then
      state.setCall (some (.fullSleeping rest))
    else if signal then
      state.setCall none
    else
      state.setCall (some (.filling rest))
  | .fullSleeping rest =>
    if !signal && tty.writeQ.left < 128 then
      state.sleep ⟨.fullSleeping rest, rfl⟩
    else if signal then
      state.setCall none
    else
      state.setCall (some (.filling rest))
  | .filling [] => (state.setCall (some (.written []))).write
  | .filling (c :: rest) =>
    if tty.writeQ.full then
      (state.setCall (some (.written (c :: rest)))).write
    else
      state.setCall (some (.fetching c rest))
  | .fetching c rest => state.fill c rest stray
  | .written [] => state.setCall none
  | .written rest => state.sleep ⟨.writing rest, rfl⟩
  | .reading nr count minimum =>
    if nr = 0 ∨ signal then
      state.setCall none
    else if tty.secondary.empty || (tty.termios.icanon &&
        tty.secondary.data == 0 && 20 < tty.secondary.left) then
      state.setCall (some (.emptySleeping nr count minimum))
    else
      state.setCall (some (.getting nr count minimum))
  | .emptySleeping nr count minimum =>
    if !signal && tty.secondary.empty then
      state.sleep ⟨.emptySleeping nr count minimum, rfl⟩
    else
      state.setCall (some (.reading nr count minimum))
  | .getting nr count minimum => state.get nr count minimum
  | .storing _ nr count minimum => state.setCall (state.stored nr count minimum)

/-! ## Steps -/

/-- No routine runs. -/
def isIdle (state : State) : Bool :=
  state.call.isNone && state.stack.isEmpty

/-- `write_char`, which takes a character if there is one. -/
def writeChar (state : State) : State :=
  if state.tty.writeQ.empty then state else state.getWrite

/-- A step, if it is possible. -/
def next (action : Action) (state : State) : Option State :=
  match action with
  | .key cs =>
    if state.tty.write = .conWrite ∧ cs.length ≤ 8 then
      some ((state.setReadQ (state.tty.readQ.receive cs)).push .copying)
    else
      none
  | .readChar c =>
    if state.tty.write = .rsWrite then
      some ((state.setReadQ (state.tty.readQ.receive [c])).push .copying)
    else
      none
  | .writeChar => if state.tty.write = .rsWrite then some state.writeChar else none
  | .ttyWrite buf =>
    if state.isIdle then
      some (state.setCall (some (.writing buf)))
    else
      none
  | .ttyRead nr =>
    if state.isIdle then
      some (state.setCall
        (some (.reading nr 0 (state.tty.termios.minimum nr))))
    else
      none
  | .resume number =>
    if state.isIdle then
      state.asleep[number]?.map fun call =>
        { state with
          call := some call.1
          asleep := state.asleep.eraseIdx number }
    else
      none
  | .fault =>
    match state.stack, state.call with
    | [], some call =>
      if faults : call.faults = true then
        some (state.sleep ⟨call, Call.sleeps_of_faults faults⟩)
      else
        none
    | _, _ => none
  | .setTermios termios =>
    if state.isIdle then
      some { state with tty := { state.tty with termios := termios } }
    else
      none
  | .setCrFlag crFlag =>
    if state.isIdle then some { state with crFlag := crFlag } else none
  | .go signal stray =>
    match state.stack, state.call with
    | frame :: rest, _ => some (state.goFrame stray frame rest)
    | [], some call => some (state.goCall signal stray call)
    | [], none => none

/-- The step relation. -/
def Step (action : Action) (before after : State) : Prop :=
  before.next action = some after

/-- A terminal as `tty_table` has it at first, whatever its flags are. -/
structure Initial (state : State) : Prop where
  idle : state.isIdle = true
  asleep : state.asleep = []
  readQ : state.tty.readQ.empty = true
  writeQ : state.tty.writeQ.empty = true
  secondary : state.tty.secondary.empty = true
  data : state.tty.secondary.data = 0
  history : state.history = ⟨[], [], false, false, false⟩

/-- A terminal on a color display after boot. -/
def boot (write : Driver) (termios : Termios) : State :=
  { tty :=
      { termios := termios
        stopped := false
        write := write
        readQ := ⟨0, 0, 0, fun _ => 0⟩
        writeQ := ⟨0, 0, 0, fun _ => 0⟩
        secondary := ⟨0, 0, 0, fun _ => 0⟩ }
    console := Consoles.Setup.conInit ⟨0, 0, 3, 80, 0⟩ fun _ => 0x0720
    crFlag := false
    call := none
    stack := []
    asleep := []
    history := ⟨[], [], false, false, false⟩ }

theorem boot_initial (write : Driver) (termios : Termios) :
    (boot write termios).Initial :=
  ⟨rfl, rfl, rfl, rfl, rfl, rfl, rfl⟩

/-- Nothing runs above an idle terminal. -/
theorem stack_of_isIdle
    {state : State}
    (idle : state.isIdle = true) :
    state.stack = [] := by
  unfold isIdle at idle
  rw [Bool.and_eq_true] at idle
  exact List.isEmpty_iff.mp idle.2

theorem call_of_isIdle
    {state : State}
    (idle : state.isIdle = true) :
    state.call = none := by
  unfold isIdle at idle
  rw [Bool.and_eq_true] at idle
  exact Option.isNone_iff_eq_none.mp idle.1

end State

end Terminals

end HitOs
