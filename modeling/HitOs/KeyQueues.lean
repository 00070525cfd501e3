import HitOs.Terminals
import Mathlib.Data.Nat.Digits.Lemmas

namespace HitOs

/-!
# Interrupts that fill read queues

`put_queue` of `keyboard.S` and `read_char` of `rs_io.s`, in their registers.  Bytes are
stored behind the head before it is known whether they fit, and the head moves only when
all of them do, so that a queue gets all bytes of a key or none.
-/

namespace Terminals

/-- A read queue, the task that waits for it, and the states of the tasks. -/
structure Reader where
  queue : Queue
  procList : Option Nat
  state : Nat → Int

/-- `movl $0,(%ecx)`, if `proc_list` has a task. -/
def Reader.wake (reader : Reader) : Reader :=
  match reader.procList with
  | none => reader
  | some task => { reader with state := Function.update reader.state task 0 }

/-- `incl` and `andl $size-1` -/
def advance (ecx : BitVec 32) : BitVec 32 :=
  (ecx + 1) &&& 1023

/-- `shrdl $8,%ebx,%eax` and `shrl $8,%ebx` shift both registers as one. -/
theorem append_shift (eax ebx : BitVec 32) :
    ebx >>> 8 ++ (eax >>> 8 ||| ebx <<< 24) = (ebx ++ eax) >>> 8 := by
  apply BitVec.eq_of_getLsbD_eq
  intro index _
  simp only [BitVec.getLsbD_append, BitVec.getLsbD_ushiftRight,
    BitVec.getLsbD_or, BitVec.getLsbD_shiftLeft]
  grind

/-- A shift makes two registers smaller, unless the lower one is zero then. -/
theorem shift_lt
    {eax ebx : BitVec 32}
    (more : eax >>> 8 ||| ebx <<< 24 ≠ 0) :
    (ebx >>> 8 ++ (eax >>> 8 ||| ebx <<< 24)).toNat < (ebx ++ eax).toNat := by
  have shifted := congrArg BitVec.toNat (append_shift eax ebx)
  rw [BitVec.toNat_ushiftRight, Nat.shiftRight_eq_div_pow] at shifted
  have positive : (ebx >>> 8 ++ (eax >>> 8 ||| ebx <<< 24)).toNat ≠ 0 := by
    intro zero
    rw [BitVec.toNat_append, Nat.or_eq_zero_iff] at zero
    exact more (BitVec.eq_of_toNat_eq zero.2)
  omega

/--
The loop of `put_queue` from `1:` on: the bytes of the ring, and the new head, or none
where the ring is full.
-/
def putLoop (eax ebx ecx tail : BitVec 32) (buf : Nat → Byte) :
    (Nat → Byte) × Option (BitVec 32) :=
  let buf := Function.update buf ecx.toNat (eax.setWidth 8)
  let ecx := advance ecx
  if ecx = tail then
    (buf, none)
  else
    let next := eax >>> 8 ||| ebx <<< 24
    if _ : next = 0 then
      (buf, some ecx)
    else
      putLoop next (ebx >>> 8) ecx tail buf
termination_by (ebx ++ eax).toNat
decreasing_by exact shift_lt ‹_›

/-- `put_queue`, for the queue of the console. -/
def putQueue (eax ebx : BitVec 32) (reader : Reader) : Reader :=
  let queue := reader.queue
  match putLoop eax ebx (queue.head.setWidth 32) (queue.tail.setWidth 32)
      queue.buf with
  | (buf, none) => { reader with queue := { queue with buf := buf } }
  | (buf, some ecx) =>
    { reader with
      queue := { queue with buf := buf, head := ecx.setWidth 10 } }.wake

/-- `read_char`, up to its call of `do_tty_interrupt`. -/
def readChar (al : Byte) (queue : Queue) : Queue :=
  let ebx : BitVec 32 := queue.head.setWidth 32
  let buf := Function.update queue.buf ebx.toNat al
  let ebx := advance ebx
  if ebx = queue.tail.setWidth 32 then
    { queue with buf := buf }
  else
    { queue with buf := buf, head := ebx.setWidth 10 }

/-! ## Keys in registers -/

/--
The bytes of a key, at most eight.  The routine takes a zero byte for the end, which only
the first one cannot be.
-/
structure KeySequence where
  keys : List Byte
  short : keys.length ≤ 8
  nonempty : keys ≠ []
  nonzero : ∀ key ∈ keys.tail, key ≠ 0

/-- What `F1` sends. -/
def KeySequence.f1 : KeySequence where
  keys := [0x1b, 0x5b, 0x5b, 0x41]
  short := by decide
  nonempty := by decide
  nonzero := by decide

/-- The bytes as one number, the first one lowest. -/
def packed (keys : List Byte) : BitVec 64 :=
  BitVec.ofNat 64 (Nat.ofDigits 256 (keys.map BitVec.toNat))

/-- `%eax` -/
def lowHalf (word : BitVec 64) : BitVec 32 :=
  word.setWidth 32

/-- `%ebx` -/
def highHalf (word : BitVec 64) : BitVec 32 :=
  (word >>> 32).setWidth 32

/-- The first entry of `func_table`. -/
example : lowHalf (packed KeySequence.f1.keys) = 0x415b5b1b := by decide

section Registers

variable {word : BitVec 64} {key : Byte} {keys : List Byte}

theorem lowHalf_shift :
    lowHalf word >>> 8 ||| highHalf word <<< 24 = lowHalf (word >>> 8) := by
  apply BitVec.eq_of_getLsbD_eq
  intro index inside
  simp only [lowHalf, highHalf, BitVec.getLsbD_or, BitVec.getLsbD_ushiftRight,
    BitVec.getLsbD_shiftLeft, BitVec.getLsbD_setWidth]
  grind

theorem highHalf_shift :
    highHalf word >>> 8 = highHalf (word >>> 8) := by
  apply BitVec.eq_of_getLsbD_eq
  intro index inside
  simp only [highHalf, BitVec.getLsbD_ushiftRight, BitVec.getLsbD_setWidth]
  grind

theorem toNat_packed (short : keys.length ≤ 8) :
    (packed keys).toNat = Nat.ofDigits 256 (keys.map BitVec.toNat) := by
  have digits : ∀ digit ∈ keys.map BitVec.toNat, digit < 256 := by
    intro digit member
    obtain ⟨key, _, rfl⟩ := List.mem_map.mp member
    exact key.isLt
  have below := Nat.ofDigits_lt_base_pow_length (by decide : 1 < 256) digits
  have power : 256 ^ keys.length ≤ 256 ^ 8 :=
    Nat.pow_le_pow_right (by decide) short
  rw [List.length_map] at below
  exact Nat.mod_eq_of_lt (by omega)

/-- `%al` is the first byte, and a shift takes it away. -/
theorem packed_cons (short : (key :: keys).length ≤ 8) :
    (lowHalf (packed (key :: keys))).setWidth 8 = key ∧
      packed (key :: keys) >>> 8 = packed keys := by
  have fewer : keys.length ≤ 8 := by
    rw [List.length_cons] at short
    omega
  have value :
      (packed (key :: keys)).toNat = key.toNat + 256 * (packed keys).toNat := by
    rw [toNat_packed short, toNat_packed fewer, List.map_cons, Nat.ofDigits_cons]
  have below := key.isLt
  constructor
  · apply BitVec.eq_of_toNat_eq
    rw [lowHalf, BitVec.toNat_setWidth, BitVec.toNat_setWidth, value]
    omega
  · apply BitVec.eq_of_toNat_eq
    rw [BitVec.toNat_ushiftRight, Nat.shiftRight_eq_div_pow, value]
    omega

/-- `%eax` is zero when there is no byte left. -/
theorem lowHalf_packed_eq_zero
    (short : keys.length ≤ 8)
    (nonzero : ∀ key ∈ keys, key ≠ 0) :
    lowHalf (packed keys) = 0 ↔ keys = [] := by
  constructor
  · intro zero
    cases keys with
    | nil =>
      rfl
    | cons key keys =>
      have first := (packed_cons short).1
      rw [zero] at first
      exact absurd first.symm (nonzero key List.mem_cons_self)
  · rintro rfl
    rfl

end Registers

/-! ## Bytes offered to a ring -/

namespace Queue

/-- Bytes are put one by one; false where the ring is full before the last one. -/
def offer : List Byte → Queue → Queue × Bool
  | [], queue => (queue, true)
  | key :: keys, queue =>
    let queue := queue.putch key
    if queue.empty then (queue, false) else offer keys queue

variable {queue : Queue} {key : Byte} {keys : List Byte}

/-- A full queue with one more byte looks like an empty one. -/
theorem empty_putch : (queue.putch key).empty = queue.full := by
  rw [Bool.eq_iff_iff, empty_iff, full_iff]
  unfold chars left putch
  bv_omega

theorem offer_frame (keys : List Byte) (queue : Queue) :
    (offer keys queue).1.tail = queue.tail ∧
      (offer keys queue).1.data = queue.data := by
  induction keys generalizing queue with
  | nil =>
    exact ⟨rfl, rfl⟩
  | cons key keys inductionHypothesis =>
    simp only [offer]
    split
    · exact ⟨rfl, rfl⟩
    · exact inductionHypothesis _

/-- Bytes that fit are all put. -/
theorem offer_of_room (room : keys.length ≤ queue.left) :
    offer keys queue = (queue.putAll keys, true) := by
  induction keys generalizing queue with
  | nil =>
    rfl
  | cons key keys inductionHypothesis =>
    rw [List.length_cons] at room
    have here : queue.full = false := not_full_iff.mpr (by omega)
    have less := left_putch (c := key) here
    simp only [offer, empty_putch, here, Bool.false_eq_true, if_false]
    exact inductionHypothesis (by omega)

theorem offer_of_full (full : queue.left < keys.length) :
    (offer keys queue).2 = false := by
  induction keys generalizing queue with
  | nil =>
    exact absurd full (Nat.not_lt_zero _)
  | cons key keys inductionHypothesis =>
    rw [List.length_cons] at full
    simp only [offer, empty_putch]
    split
    · rfl
    · rename_i here
      have less := left_putch (c := key) (eq_false_of_ne_true here)
      exact inductionHypothesis (by omega)

/--
The bytes of a window that ends before the head stay where they are: what is offered goes
behind them, and stops where it would come around.
-/
theorem window_offer
    {length : Nat}
    (inside : length ≤ queue.chars) :
    Ring.window ttyBufSize (offer keys queue).1.buf queue.tail.toNat length =
      Ring.window ttyBufSize queue.buf queue.tail.toNat length := by
  induction keys generalizing queue with
  | nil =>
    rfl
  | cons key keys inductionHypothesis =>
    have total := queue.chars_add_left
    have stored :
        (queue.putch key).buf =
          Ring.store ttyBufSize [key] (queue.tail.toNat + queue.chars)
            queue.buf := by
      rw [putch, head_eq]
      rfl
    have here :
        Ring.window ttyBufSize (queue.putch key).buf queue.tail.toNat length =
          Ring.window ttyBufSize queue.buf queue.tail.toNat length := by
      rw [stored]
      apply Ring.window_store_of_disjoint
      · omega
      · rw [List.length_singleton, ttyBufSize]
        omega
    simp only [offer]
    split
    · exact here
    · rename_i more
      rw [empty_putch, Bool.not_eq_true] at more
      have longer := chars_putch (c := key) more
      have longEnough : length ≤ (queue.putch key).chars := by omega
      exact (inductionHypothesis longEnough).trans here

/-- The head moves when all bytes have been put, and otherwise not at all. -/
def commit (bytes : List Byte) (queue : Queue) : Queue :=
  let offered := offer bytes queue
  if offered.2 then offered.1 else { queue with buf := offered.1.buf }

/-- A queue gets all of the bytes or none, and is not taken for an empty one. -/
structure Atomic (bytes : List Byte) (before after : Queue) : Prop where
  data :
    after.data = before.data
  tail :
    after.tail = before.tail
  all :
    bytes.length ≤ before.left → after.contents = before.contents ++ bytes
  none :
    before.left < bytes.length →
      after.head = before.head ∧ after.contents = before.contents
  nonempty :
    before.empty = false → after.empty = false

theorem commit_atomic : Atomic keys queue (commit keys queue) := by
  obtain ⟨tail, data⟩ := queue.offer_frame keys
  by_cases room : keys.length ≤ queue.left
  · have whole : commit keys queue = queue.putAll keys := by
      simp [commit, offer_of_room room]
    have contents : (queue.putAll keys).contents = queue.contents ++ keys :=
      contents_putAll room
    rw [offer_of_room room] at tail data
    rw [whole]
    refine ⟨data, tail, fun _ => contents, fun full => ?_, fun nonempty => ?_⟩
    · exact absurd room (Nat.not_le_of_lt full)
    · rw [not_empty_iff] at nonempty ⊢
      rw [← length_contents] at nonempty ⊢
      rw [contents, List.length_append]
      omega
  · have full : queue.left < keys.length := Nat.lt_of_not_le room
    have discarded :
        commit keys queue = { queue with buf := (offer keys queue).1.buf } := by
      simp [commit, offer_of_full full]
    rw [discarded]
    refine ⟨rfl, rfl, fun fits => absurd fits room, fun _ => ⟨rfl, ?_⟩, id⟩
    exact window_offer (Nat.le_refl _)

end Queue

/-! ## The routines offer bytes -/

section Routines

variable {queue : Queue} {reader : Reader} {key : Byte} {keys : List Byte}

@[simp] theorem queue_wake : reader.wake.queue = reader.queue := by
  unfold Reader.wake
  split <;> rfl

/-- A head or a tail as a register has it. -/
theorem advance_setWidth (place : BitVec 10) :
    advance (place.setWidth 32) = (place + 1).setWidth 32 := by
  have mask (number : Nat) : number &&& 1023 = number % 2 ^ 10 :=
    Nat.and_two_pow_sub_one_eq_mod number 10
  have below := place.isLt
  apply BitVec.eq_of_toNat_eq
  rw [advance, BitVec.toNat_and]
  refine (mask _).trans ?_
  simp only [BitVec.toNat_add, BitVec.toNat_setWidth, BitVec.reduceToNat]
  omega

theorem setWidth_inj {first second : BitVec 10} :
    first.setWidth 32 = second.setWidth 32 ↔ first = second := by
  constructor
  · intro same
    have values := congrArg BitVec.toNat same
    simp only [BitVec.toNat_setWidth] at values
    bv_omega
  · rintro rfl
    rfl

theorem toNat_place (place : BitVec 10) :
    (place.setWidth 32).toNat = place.toNat := by
  have below := place.isLt
  rw [BitVec.toNat_setWidth]
  omega

theorem narrow (place : BitVec 10) : (place.setWidth 32).setWidth 10 = place :=
  BitVec.setWidth_setWidth_of_le place (by decide)

/-- `cmpl tail(%edx),%ecx` -/
theorem meets_tail (key : Byte) (queue : Queue) :
    (queue.head + 1).setWidth 32 = queue.tail.setWidth 32 ↔
      (queue.putch key).empty = true := by
  rw [setWidth_inj]
  exact beq_iff_eq.symm

/-- One turn of the loop is a `PUTCH`, with a look at the tail behind it. -/
theorem putLoop_turn
    (short : (key :: keys).length ≤ 8)
    (nonzero : ∀ key ∈ keys, key ≠ 0) :
    putLoop (lowHalf (packed (key :: keys))) (highHalf (packed (key :: keys)))
        (queue.head.setWidth 32) (queue.tail.setWidth 32) queue.buf =
      if (queue.putch key).empty then
        ((queue.putch key).buf, none)
      else if keys = [] then
        ((queue.putch key).buf, some ((queue.putch key).head.setWidth 32))
      else
        putLoop (lowHalf (packed keys)) (highHalf (packed keys))
          ((queue.putch key).head.setWidth 32) (queue.tail.setWidth 32)
          (queue.putch key).buf := by
  obtain ⟨first, rest⟩ := packed_cons short
  have fewer : keys.length ≤ 8 := by
    rw [List.length_cons] at short
    omega
  rw [putLoop]
  simp only [first, toNat_place, advance_setWidth, meets_tail key queue,
    lowHalf_shift, highHalf_shift, rest, lowHalf_packed_eq_zero fewer nonzero]
  rfl

/-- The loop of `put_queue` puts the bytes of a key until the ring is full. -/
theorem putLoop_packed
    (short : (key :: keys).length ≤ 8)
    (nonzero : ∀ key ∈ keys, key ≠ 0) :
    putLoop (lowHalf (packed (key :: keys))) (highHalf (packed (key :: keys)))
        (queue.head.setWidth 32) (queue.tail.setWidth 32) queue.buf =
      ((Queue.offer (key :: keys) queue).1.buf,
        if (Queue.offer (key :: keys) queue).2 then
          some ((Queue.offer (key :: keys) queue).1.head.setWidth 32)
        else
          none) := by
  induction keys generalizing key queue with
  | nil =>
    rw [putLoop_turn short nonzero, Queue.offer]
    by_cases full : (queue.putch key).empty = true
    · simp [full]
    · simp [full, Queue.offer]
  | cons second keys inductionHypothesis =>
    rw [putLoop_turn short nonzero, Queue.offer]
    by_cases full : (queue.putch key).empty = true
    · simp [full]
    · have fewer : (second :: keys).length ≤ 8 := by
        rw [List.length_cons] at short
        omega
      have others key (member : key ∈ keys) : key ≠ 0 :=
        nonzero key (List.mem_cons_of_mem _ member)
      have rest := @inductionHypothesis (queue.putch key) second fewer others
      simp only [full, if_false, List.cons_ne_nil, Bool.false_eq_true]
      exact rest

/-- `put_queue` commits the bytes of a key, and wakes the reader if they fit. -/
theorem putQueue_eq (sequence : KeySequence) :
    putQueue (lowHalf (packed sequence.keys)) (highHalf (packed sequence.keys))
        reader =
      let committed :=
        { reader with queue := reader.queue.commit sequence.keys }
      if sequence.keys.length ≤ reader.queue.left then committed.wake
      else committed := by
  obtain ⟨keys, short, nonempty, nonzero⟩ := sequence
  obtain ⟨key, keys, rfl⟩ := List.exists_cons_of_ne_nil nonempty
  obtain ⟨tail, data⟩ :=
    reader.queue.offer_frame (key :: keys)
  simp only [putQueue, Queue.commit, putLoop_packed short nonzero]
  by_cases room : (key :: keys).length ≤ reader.queue.left
  · simp only [Queue.offer_of_room room, if_true, if_pos room, narrow] at tail data ⊢
    rw [← tail, ← data]
  · rw [Queue.offer_of_full (Nat.lt_of_not_le room), if_neg room]
    rfl

/-- `read_char` commits its byte. -/
theorem readChar_eq (c : Byte) : readChar c queue = queue.commit [c] := by
  simp only [readChar, Queue.commit, Queue.offer, toNat_place, advance_setWidth,
    meets_tail c queue, narrow]
  by_cases full : (queue.putch c).empty = true
  · simp only [full, if_true]
    rfl
  · simp only [full]
    rfl

end Routines

/--
`put_queue` and `read_char` append all their bytes to a read queue or leave what is in it
alone, whatever its head and tail are.
-/
theorem producers_atomic
    (sequence : KeySequence)
    (reader : Reader)
    (c : Byte)
    (queue : Queue) :
    Queue.Atomic sequence.keys reader.queue
        (putQueue (lowHalf (packed sequence.keys))
          (highHalf (packed sequence.keys)) reader).queue ∧
      Queue.Atomic [c] queue (readChar c queue) := by
  constructor
  · rw [putQueue_eq]
    simp only
    split
    · rw [queue_wake]
      exact Queue.commit_atomic
    · exact Queue.commit_atomic
  · rw [readChar_eq]
    exact Queue.commit_atomic

end Terminals

end HitOs
