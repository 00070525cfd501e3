import HitOs.Consoles
import HitOs.TtyQueues

namespace HitOs

/-!
# Terminals

A `tty_struct` with what `copy_to_cooked` and `tty_write` make of one character.  A
`char` has a sign, while the control characters of a `termios` have none.  The flags of
a `termios` are given one by one.
-/

namespace Terminals

open Consoles (Console)

/-- The flags and characters of `termios` that terminals look at. -/
structure Termios where
  icrnl : Bool
  igncr : Bool
  inlcr : Bool
  iuclc : Bool
  opost : Bool
  onlcr : Bool
  ocrnl : Bool
  onlret : Bool
  olcuc : Bool
  isig : Bool
  icanon : Bool
  echo : Bool
  echoctl : Bool
  vintr : Byte
  vquit : Byte
  verase : Byte
  vkill : Byte
  veof : Byte
  vstart : Byte
  vstop : Byte
  vmin : Byte
  vtime : Byte

/-- The `termios` of the console in `tty_table`. -/
def initTermios : Termios :=
  { icrnl := true
    igncr := false
    inlcr := false
    iuclc := false
    opost := true
    onlcr := true
    ocrnl := false
    onlret := false
    olcuc := false
    isig := true
    icanon := true
    echo := true
    echoctl := true
    vintr := 0x03
    vquit := 0x1c
    verase := 0x7f
    vkill := 0x15
    veof := 0x04
    vstart := 0x11
    vstop := 0x13
    vmin := 1
    vtime := 0 }

/-- The function that `write` of a `tty_struct` points to. -/
inductive Driver where
  | conWrite
  | rsWrite
deriving DecidableEq

/-- `tty_struct` -/
structure Tty where
  termios : Termios
  stopped : Bool
  write : Driver
  readQ : Queue
  writeQ : Queue
  secondary : Queue

/-! ## Characters -/

/-- `c == cc` for a `char` and a character of `c_cc`. -/
def isChar (c cc : Byte) : Bool :=
  c.toInt == cc.toNat

/-- Only a character without a sign bit is equal to one of `c_cc`. -/
theorem eq_of_isChar {c cc : Byte} (same : isChar c cc = true) : c = cc := by
  unfold isChar at same
  rw [beq_iff_eq, BitVec.toInt_eq_toNat_cond] at same
  have below := cc.isLt
  apply BitVec.eq_of_toNat_eq
  split at same <;> omega

/-- `isupper`; in front of its table the code reads what happens to be there. -/
def isUpper (stray : Bool) (c : Byte) : Bool :=
  if c.toInt < -1 then stray else 65 ≤ c.toInt && c.toInt ≤ 90

/-- `islower` -/
def isLower (stray : Bool) (c : Byte) : Bool :=
  if c.toInt < -1 then stray else 97 ≤ c.toInt && c.toInt ≤ 122

/-- `tolower` -/
def toLower (stray : Bool) (c : Byte) : Byte :=
  if isUpper stray c then c + 32 else c

/-- `toupper` -/
def toUpper (stray : Bool) (c : Byte) : Byte :=
  if isLower stray c then c - 32 else c

/-- Where a line ends: `c == 10 || c == EOF_CHAR(tty)`. -/
def endsLine (eof c : Byte) : Bool :=
  c == 10 || isChar c eof

/-- The code finds no ends of lines where there are none. -/
theorem end_of_endsLine {eof c : Byte} (ends : endsLine eof c = true) :
    c = 10 ∨ c = eof := by
  unfold endsLine at ends
  rw [Bool.or_eq_true, beq_iff_eq] at ends
  exact ends.imp_right eq_of_isChar

namespace Termios

/-- What becomes of a character of `read_q`; `IGNCR` lets nothing become of it. -/
def input (termios : Termios) (stray : Bool) (c : Byte) : Option Byte :=
  let mapped :=
    if c = 13 then
      if termios.icrnl then some 10
      else if termios.igncr then none
      else some c
    else if c = 10 ∧ termios.inlcr then some 13
    else some c
  mapped.map fun c => if termios.iuclc then toLower stray c else c

def isEnd (termios : Termios) (c : Byte) : Bool :=
  endsLine termios.veof c

/-- What `copy_to_cooked` does with a character. -/
inductive Treatment where
  | kill
  | erase
  | stop
  | start
  | intr
  | quit
  | plain
deriving DecidableEq

def treat (termios : Termios) (c : Byte) : Treatment :=
  if termios.icanon ∧ isChar c termios.vkill then .kill
  else if termios.icanon ∧ isChar c termios.verase then .erase
  else if termios.icanon ∧ isChar c termios.vstop then .stop
  else if termios.icanon ∧ isChar c termios.vstart then .start
  else if termios.isig ∧ isChar c termios.vintr then .intr
  else if termios.isig ∧ isChar c termios.vquit then .quit
  else .plain

/-- The echo of a character, put into `write_q` if `ECHO` is set. -/
def echoOf (termios : Termios) (c : Byte) : List Byte :=
  if c = 10 then [10, 13]
  else if c.toInt < 32 then
    if termios.echoctl then [0x5e, c + 64] else []
  else [c]

/-- The echo when a character is taken back. -/
def ruboutOf (c : Byte) : List Byte :=
  if c.toInt < 32 then [127, 127] else [127]

/-- What `tty_write` makes of a character before it looks for a line feed. -/
def output (termios : Termios) (c : Byte) : Byte :=
  if c = 13 ∧ termios.ocrnl then 10
  else if c = 10 ∧ termios.onlret then 13
  else c

/-- Whether `tty_write` first puts a carriage return. -/
def returns (termios : Termios) (crFlag : Bool) (c : Byte) : Bool :=
  termios.opost && termios.output c == 10 && !crFlag && termios.onlcr

/-- What `tty_write` puts for a character. -/
def written (termios : Termios) (stray : Bool) (c : Byte) : Byte :=
  if termios.opost then
    if termios.olcuc then toUpper stray (termios.output c)
    else termios.output c
  else
    c

/-- The queue when `tty_read` has taken a character. -/
def consume (termios : Termios) (queue : Queue) : Queue :=
  if termios.isEnd queue.first then
    { queue.getch with data := queue.data - 1 }
  else
    queue.getch

/-- `minimum` in `tty_read` -/
def minimum (termios : Termios) (nr : Nat) : Nat :=
  min nr
    (if termios.vtime ≠ 0 ∧ termios.vmin = 0 then 1
      else termios.vmin.toNat)

end Termios

/-- The answer to `ESC Z`. -/
def response : List Byte :=
  [0x1b, 0x5b, 0x3f, 0x31, 0x3b, 0x32, 0x63]

/-- Whether the next character of the console gets the answer. -/
def asks (console : Console) (c : Byte) : Bool :=
  console.state == 1 && c == 0x5a

namespace Queue

/-- Successive `PUTCH`s. -/
def putAll (cs : List Byte) (queue : Queue) : Queue :=
  cs.foldl (fun queue c => queue.putch c) queue

/-- Whether a `PUTCH` among successive ones meets a full queue. -/
def overrun : List Byte → Queue → Bool
  | [], _ => false
  | c :: cs, queue => queue.full || overrun cs (queue.putch c)

/-- `put_queue` and `read_char`, which put all the bytes there is room for or none. -/
def receive (cs : List Byte) (queue : Queue) : Queue :=
  if cs.length ≤ queue.left then queue.putAll cs else queue

section Room

variable {queue : Queue} {c : Byte} {cs : List Byte}

theorem left_putch (room : queue.full = false) :
    (queue.putch c).left + 1 = queue.left := by
  have before := queue.chars_add_left
  have after := (queue.putch c).chars_add_left
  rw [chars_putch room] at after
  omega

theorem left_dec (nonempty : queue.empty = false) :
    queue.dec.left = queue.left + 1 := by
  have before := queue.chars_add_left
  have after := queue.dec.chars_add_left
  have fewer := chars_dec nonempty
  omega

/-- Bytes that fit do not meet a full queue. -/
theorem not_overrun (room : cs.length ≤ queue.left) :
    overrun cs queue = false := by
  induction cs generalizing queue with
  | nil =>
    rfl
  | cons c cs inductionHypothesis =>
    rw [List.length_cons] at room
    have here : queue.full = false := not_full_iff.mpr (by omega)
    have less := left_putch (c := c) here
    unfold overrun
    rw [here, inductionHypothesis (by omega)]
    rfl

theorem contents_putAll (room : cs.length ≤ queue.left) :
    (queue.putAll cs).contents = queue.contents ++ cs := by
  induction cs generalizing queue with
  | nil =>
    exact (List.append_nil _).symm
  | cons c cs inductionHypothesis =>
    rw [List.length_cons] at room
    have here : queue.full = false := not_full_iff.mpr (by omega)
    have less := left_putch (c := c) here
    have rest : ((queue.putch c).putAll cs).contents =
        (queue.putch c).contents ++ cs :=
      inductionHypothesis (by omega)
    rw [contents_putch here, List.append_assoc] at rest
    exact rest

end Room

end Queue

end Terminals

end HitOs
