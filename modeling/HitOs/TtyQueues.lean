import HitOs.Rings

namespace HitOs

/-!
# Queues of terminals

The macros of `tty.h` on a `tty_queue`.  `head` and `tail` are masked with
`TTY_BUF_SIZE - 1` wherever they are changed, and so have ten bits.  A queue that is not
full takes a byte behind all others; one that is not empty gives its first byte, or has
its last one taken back.
-/

namespace Terminals

abbrev Byte := BitVec 8

/-- `TTY_BUF_SIZE` -/
def ttyBufSize : Nat := 1024

/-- `tty_queue` -/
structure Queue where
  data : BitVec 32
  head : BitVec 10
  tail : BitVec 10
  buf : Nat → Byte

namespace Queue

/-- `EMPTY` -/
def empty (queue : Queue) : Bool :=
  queue.head == queue.tail

/-- `LEFT` -/
def left (queue : Queue) : Nat :=
  (queue.tail - queue.head - 1).toNat

/-- `LAST` -/
def last (queue : Queue) : Byte :=
  queue.buf (queue.head - 1).toNat

/-- `FULL` -/
def full (queue : Queue) : Bool :=
  queue.left == 0

/-- `CHARS` -/
def chars (queue : Queue) : Nat :=
  (queue.head - queue.tail).toNat

/-- The character of `GETCH`. -/
def first (queue : Queue) : Byte :=
  queue.buf queue.tail.toNat

/-- What `GETCH` leaves. -/
def getch (queue : Queue) : Queue :=
  { queue with tail := queue.tail + 1 }

/-- `PUTCH` -/
def putch (c : Byte) (queue : Queue) : Queue :=
  { queue with
    buf := Function.update queue.buf queue.head.toNat c
    head := queue.head + 1 }

/-- `DEC` of `head`. -/
def dec (queue : Queue) : Queue :=
  { queue with head := queue.head - 1 }

/-- The bytes in a queue, the first one first. -/
def contents (queue : Queue) : List Byte :=
  Ring.window ttyBufSize queue.buf queue.tail.toNat queue.chars

section Counts

variable {queue : Queue} {c : Byte}

@[simp] theorem length_contents : queue.contents.length = queue.chars :=
  Ring.length_window

theorem chars_add_left : queue.chars + queue.left = 1023 := by
  unfold chars left
  bv_omega

theorem empty_iff : queue.empty = true ↔ queue.chars = 0 := by
  unfold empty chars
  rw [beq_iff_eq]
  bv_omega

theorem full_iff : queue.full = true ↔ queue.left = 0 :=
  beq_iff_eq

theorem contents_eq_nil : queue.contents = [] ↔ queue.empty = true := by
  rw [empty_iff, ← length_contents, List.length_eq_zero_iff]

theorem not_empty_iff : queue.empty = false ↔ 0 < queue.chars := by
  rw [← Bool.not_eq_true, empty_iff]
  exact Nat.pos_iff_ne_zero.symm

theorem not_full_iff : queue.full = false ↔ 0 < queue.left := by
  rw [← Bool.not_eq_true, full_iff]
  exact Nat.pos_iff_ne_zero.symm

theorem chars_putch (room : queue.full = false) :
    (queue.putch c).chars = queue.chars + 1 := by
  rw [not_full_iff] at room
  unfold left at room
  unfold putch chars
  bv_omega

theorem chars_getch (nonempty : queue.empty = false) :
    queue.getch.chars + 1 = queue.chars := by
  rw [not_empty_iff] at nonempty
  unfold chars at nonempty
  unfold getch chars
  bv_omega

theorem chars_dec (nonempty : queue.empty = false) :
    queue.dec.chars + 1 = queue.chars := by
  rw [not_empty_iff] at nonempty
  unfold chars at nonempty
  unfold dec chars
  bv_omega

end Counts

/-! ## Contents -/

section Contents

variable {queue : Queue} {c : Byte}

/-- The place behind the bytes of a queue. -/
theorem head_eq :
    queue.head.toNat = (queue.tail.toNat + queue.chars) % ttyBufSize := by
  unfold chars ttyBufSize
  bv_omega

theorem contents_putch (room : queue.full = false) :
    (queue.putch c).contents = queue.contents ++ [c] := by
  have fits : queue.chars + [c].length ≤ ttyBufSize := by
    have total := queue.chars_add_left
    rw [not_full_iff] at room
    rw [List.length_singleton, ttyBufSize]
    omega
  have stored :
      Ring.window ttyBufSize
          (Ring.store ttyBufSize [c] (queue.tail.toNat + queue.chars) queue.buf)
          queue.tail.toNat (queue.chars + 1) =
        Ring.window ttyBufSize queue.buf queue.tail.toNat queue.chars ++ [c] :=
    Ring.window_store fits
  unfold contents
  rw [chars_putch room, ← stored]
  unfold putch
  rw [head_eq]
  rfl

theorem contents_getch (nonempty : queue.empty = false) :
    queue.contents = queue.first :: queue.getch.contents := by
  have place : (queue.tail + 1).toNat = (queue.tail.toNat + 1) % ttyBufSize := by
    unfold ttyBufSize
    bv_omega
  have inside : queue.tail.toNat < ttyBufSize := queue.tail.isLt
  unfold contents
  rw [← chars_getch nonempty, Nat.add_comm, Ring.window_add, Ring.window_one]
  unfold getch first
  rw [place, Ring.window_mod, Nat.mod_eq_of_lt inside]
  rfl

theorem contents_dec (nonempty : queue.empty = false) :
    queue.contents = queue.dec.contents ++ [queue.last] := by
  have place : (queue.head - 1).toNat =
      (queue.tail.toNat + queue.dec.chars) % ttyBufSize :=
    queue.dec.head_eq
  unfold contents
  rw [← chars_dec nonempty, Ring.window_add, Ring.window_one]
  unfold last
  rw [place]
  rfl

end Contents

end Queue

end Terminals

end HitOs
