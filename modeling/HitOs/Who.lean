import HitOs.ByteStrings
import HitOs.PageWord

namespace HitOs

/-!
# The name that `iam` leaves for `whoami`

`sys_iam` and `sys_whoami` of `kernel/who.c`.  The kernel keeps one name in `msg`; the
messages on the console are left out.
-/

namespace Who

open ByteStrings

/-- `maxSize` -/
def maxSize : Nat := 24

/-- `EINVAL` -/
def einval : Int := 22

/-- The array `msg`, of which `maxSize` bytes are used. -/
abbrev Message := Nat → Byte

/-- The array is zero when the kernel starts. -/
def boot : Message :=
  fun _ => 0

/-- A string in the segment of the caller. -/
structure Name where
  bytes : Nat → Byte
  address : Nat
  string : List Byte
  isString : IsString bytes address string

/-! ## The calls -/

/-- `strcpy` between two arrays of `maxSize` bytes, if it stays in them. -/
def strcpy (destination source : Nat → Byte) : Option (Nat → Byte) :=
  let (i, destination) := copyUpTo source 0 0 maxSize 0 destination
  if i = maxSize then
    none
  else
    some destination

/--
`sys_iam`: the value that it returns, and the message that it leaves.  The array `tmp`
is not cleared before.
-/
def sysIam (name : Name) (tmp : Nat → Byte) (msg : Message) :
    Option (Int × Message) :=
  let (i, tmp) := copyUpTo name.bytes name.address 0 maxSize 0 tmp
  if i = maxSize then
    some (-einval, msg)
  else
    (strcpy msg tmp).map fun msg => ((i : Int), msg)

/-- The first loop of `sys_whoami`, as far as the array goes. -/
def msgSizeFrom (msg : Message) : Nat → Nat → Option Nat
  | 0, _ => none
  | room + 1, msgSize =>
    if msg msgSize = 0 then
      some msgSize
    else
      msgSizeFrom msg room (msgSize + 1)

/-- `sys_whoami`: the value that it returns, and what it leaves in the segment. -/
def sysWhoami (bytes : Nat → Byte) (name size : Nat) (msg : Message) :
    Option (Int × (Nat → Byte)) :=
  (msgSizeFrom msg maxSize 0).map fun msgSize =>
    if size < msgSize then
      (-einval, bytes)
    else
      let (i, bytes) := copyUpTo msg 0 name size 0 bytes
      ((i : Int), bytes)

/-- A call with the segment of its caller. -/
inductive Call where
  | iam (name : Name) (tmp : Nat → Byte)
  | whoami (bytes : Nat → Byte) (buf size : Nat)

/-- What a call returns, with the message and the segment of the caller after it. -/
structure Outcome where
  value : Int
  msg : Message
  bytes : Nat → Byte

def perform (msg : Message) : Call → Option Outcome
  | .iam name tmp =>
    (sysIam name tmp msg).map fun (value, msg) =>
      { value, msg, bytes := name.bytes }
  | .whoami bytes buf size =>
    (sysWhoami bytes buf size msg).map fun (value, bytes) =>
      { value, msg, bytes }

/-- The message after calls, each completed before the next. -/
def after (msg : Message) : List Call → Option Message
  | [] => some msg
  | call :: calls => (perform msg call).bind fun outcome => after outcome.msg calls

/-! ## What the calls are for -/

/-- The name that is accepted last, where `name` was before. -/
def accepted (name : List Byte) : List Call → List Byte
  | [] => name
  | .iam other _ :: calls =>
    accepted (if other.string.length ≤ 23 then other.string else name) calls
  | .whoami _ _ _ :: calls => accepted name calls

/-- What is promised of a call, `name` being the name that was accepted last. -/
def Promised (name : List Byte) (msg : Message) : Call → Outcome → Prop
  | .iam other _, outcome =>
    (other.string.length ≤ 23 → outcome.value = other.string.length) ∧
      (¬ other.string.length ≤ 23 → outcome.value = -einval ∧ outcome.msg = msg) ∧
      outcome.bytes = other.bytes
  | .whoami bytes buf size, outcome =>
    (name.length + 1 ≤ size →
        outcome.value = name.length ∧ Holds outcome.bytes buf (name ++ [0])) ∧
      (¬ name.length + 1 ≤ size → outcome.value = -einval) ∧
      ∀ a, ¬ (buf ≤ a ∧ a < buf + min size (name.length + 1)) →
        outcome.bytes a = bytes a

/-- The buffer is not just too short for the zero behind the name. -/
def NotTight (name : List Byte) : Call → Prop
  | .iam _ _ => True
  | .whoami _ _ size => size ≠ name.length

/-! ## One call -/

/-- The message is a name that has been accepted. -/
structure Keeps (msg : Message) (name : List Byte) : Prop where
  isString : IsString msg 0 name
  short : name.length ≤ 23

variable {msg : Message} {name : List Byte}

theorem keeps_boot : Keeps boot [] := by
  refine ⟨⟨by simp, ?_⟩, by simp⟩
  rw [holds_iff]
  intro i inside
  simp [boot]

/-- An accepted name is stored. -/
theorem sysIam_short
    {other : Name}
    (short : other.string.length ≤ 23)
    (tmp : Nat → Byte)
    (msg : Message) :
    ∃ msg',
      sysIam other tmp msg = some ((other.string.length : Int), msg') ∧
        Keeps msg' other.string := by
  have fits : other.string.length < 0 + maxSize := by
    unfold maxSize
    omega
  have copied :=
    other.isString.copyUpTo_eq (Nat.zero_le _) 0 maxSize tmp
  rw [if_pos fits, List.drop_zero, Nat.add_zero] at copied
  have stands : IsString
      (Ring.fill (other.string ++ [0]) 0 tmp) 0 other.string :=
    ⟨other.isString.nonzero, holds_fill⟩
  have again :=
    stands.copyUpTo_eq (Nat.zero_le _) 0 maxSize msg
  rw [if_pos fits, List.drop_zero, Nat.add_zero] at again
  have inside : other.string.length ≠ maxSize := by
    unfold maxSize
    omega
  refine ⟨Ring.fill (other.string ++ [0]) 0 msg, ?_,
    ⟨other.isString.nonzero, holds_fill⟩, short⟩
  unfold sysIam strcpy
  simp only [copied, again, if_neg inside, Option.map_some]

/-- A name that is too long is refused. -/
theorem sysIam_long
    {other : Name} {tmp : Nat → Byte}
    (long : ¬ other.string.length ≤ 23) :
    sysIam other tmp msg = some (-einval, msg) := by
  have ends : ¬ other.string.length < 0 + maxSize := by
    unfold maxSize
    omega
  have copied :=
    other.isString.copyUpTo_eq (Nat.zero_le _) 0 maxSize tmp
  rw [if_neg ends] at copied
  unfold sysIam
  simp only [copied, Nat.zero_add, if_true]

/-- The length of the name that is kept. -/
theorem msgSizeFrom_eq
    {room i : Nat}
    (keeps : Keeps msg name)
    (before : i ≤ name.length)
    (fits : name.length < i + room) :
    msgSizeFrom msg room i = some name.length := by
  induction room generalizing i with
  | zero =>
    omega
  | succ room inductionHypothesis =>
    unfold msgSizeFrom
    by_cases ends : i = name.length
    · have zero := keeps.isString.zero
      rw [Nat.zero_add] at zero
      rw [ends, if_pos zero]
    · have inside : i < name.length := by omega
      have char := keeps.isString.char inside
      rw [Nat.zero_add] at char
      have other : msg i ≠ 0 := by
        rw [char]
        exact keeps.isString.nonzero _ (List.getElem_mem inside)
      rw [if_neg other]
      exact inductionHypothesis (by omega) (by omega)

/-- What `sys_whoami` does for a buffer of any size. -/
theorem sysWhoami_eq
    {bytes : Nat → Byte} {buf size : Nat}
    (keeps : Keeps msg name) :
    sysWhoami bytes buf size msg =
      some
        (if size < name.length then
          (-einval, bytes)
        else if name.length < size then
          ((name.length : Int), Ring.fill (name ++ [0]) buf bytes)
        else
          ((name.length : Int), Ring.fill name buf bytes)) := by
  have fits : name.length < 0 + maxSize := by
    have short := keeps.short
    unfold maxSize
    omega
  have copied :=
    keeps.isString.copyUpTo_eq (Nat.zero_le _) buf size bytes
  rw [Nat.zero_add, List.drop_zero, Nat.add_zero] at copied
  unfold sysWhoami
  rw [msgSizeFrom_eq keeps (Nat.zero_le _) fits, Option.map_some, copied]
  by_cases less : size < name.length
  · simp only [if_pos less]
  · simp only [if_neg less]
    by_cases more : name.length < size
    · simp only [if_pos more]
    · have same : size = name.length := by omega
      subst same
      simp only [Nat.lt_irrefl, if_false, List.take_length]

theorem perform_iam {other : Name} {tmp : Nat → Byte} :
    perform msg (.iam other tmp) =
      (sysIam other tmp msg).map fun (value, msg) =>
        { value, msg, bytes := other.bytes } :=
  rfl

theorem perform_whoami {bytes : Nat → Byte} {buf size : Nat} :
    perform msg (.whoami bytes buf size) =
      (sysWhoami bytes buf size msg).map fun (value, bytes) =>
        { value, msg, bytes } :=
  rfl

/-- Every call completes, and the message is the name that was accepted last. -/
theorem perform_keeps
    (keeps : Keeps msg name)
    (call : Call) :
    ∃ outcome,
      perform msg call = some outcome ∧
        Keeps outcome.msg (accepted name [call]) := by
  cases call with
  | iam other tmp =>
    rw [perform_iam]
    by_cases short : other.string.length ≤ 23
    · obtain ⟨msg', done, kept⟩ := sysIam_short short tmp msg
      refine ⟨_, by rw [done, Option.map_some], ?_⟩
      simpa only [accepted, if_pos short] using kept
    · refine ⟨_, by rw [sysIam_long short, Option.map_some], ?_⟩
      simpa only [accepted, if_neg short] using keeps
  | whoami bytes buf size =>
    rw [perform_whoami]
    exact ⟨_, by rw [sysWhoami_eq keeps, Option.map_some], keeps⟩

/-- Nothing outside of the name and its zero is written, whatever the size is. -/
theorem whoami_writes_inside
    {bytes : Nat → Byte} {buf size a : Nat} {outcome : Outcome}
    (keeps : Keeps msg name)
    (performed : perform msg (.whoami bytes buf size) = some outcome)
    (outside : ¬ (buf ≤ a ∧ a < buf + min size (name.length + 1))) :
    outcome.bytes a = bytes a := by
  rw [perform_whoami, sysWhoami_eq keeps, Option.map_some, Option.some_inj] at performed
  subst performed
  simp only
  split
  · rfl
  · split
    · refine fill_of_outside ?_
      rw [List.length_append, List.length_singleton]
      omega
    · refine fill_of_outside ?_
      omega

/-- A call does what is promised exactly if its buffer is not tight. -/
theorem promised_iff
    {call : Call} {outcome : Outcome}
    (keeps : Keeps msg name)
    (performed : perform msg call = some outcome) :
    Promised name msg call outcome ↔ NotTight name call := by
  cases call with
  | iam other tmp =>
    rw [perform_iam] at performed
    refine iff_of_true ?_ trivial
    by_cases short : other.string.length ≤ 23
    · obtain ⟨msg', done, kept⟩ := sysIam_short short tmp msg
      rw [done, Option.map_some, Option.some_inj] at performed
      subst performed
      exact ⟨fun _ => rfl, fun long => absurd short long, rfl⟩
    · rw [sysIam_long short, Option.map_some, Option.some_inj] at performed
      subst performed
      exact ⟨fun fits => absurd fits short, fun _ => ⟨rfl, rfl⟩, rfl⟩
  | whoami bytes buf size =>
    have inside {a : Nat} :=
      whoami_writes_inside (a := a) keeps performed
    rw [perform_whoami, sysWhoami_eq keeps, Option.map_some,
      Option.some_inj] at performed
    subst performed
    unfold Promised NotTight
    rcases Nat.lt_trichotomy size name.length with less | same | more
    · refine iff_of_true ⟨?_, ?_, fun _ => inside⟩ (Nat.ne_of_lt less)
      · intro room
        omega
      · simp only [if_pos less, implies_true]
    · subst same
      refine iff_of_false ?_ fun different => different rfl
      rintro ⟨-, refused, -⟩
      have value := refused (by omega)
      simp only [Nat.lt_irrefl, if_false] at value
      unfold einval at value
      omega
    · have notLess : ¬ size < name.length := by omega
      refine iff_of_true ⟨?_, ?_, fun _ => inside⟩ (Nat.ne_of_gt more)
      · simp only [if_neg notLess, if_pos more]
        exact fun _ => ⟨trivial, holds_fill⟩
      · intro room
        omega

/-! ## All calls -/

theorem after_keeps
    (keeps : Keeps msg name)
    (calls : List Call) :
    ∃ msg', after msg calls = some msg' ∧ Keeps msg' (accepted name calls) := by
  induction calls generalizing msg name with
  | nil =>
    exact ⟨msg, rfl, keeps⟩
  | cons call calls inductionHypothesis =>
    obtain ⟨outcome, performed, kept⟩ := perform_keeps keeps call
    obtain ⟨msg', reached, keeps'⟩ := inductionHypothesis kept
    refine ⟨msg', ?_, ?_⟩
    · unfold after
      rw [performed]
      exact reached
    · cases call <;> exact keeps'

/--
Each of a sequence of calls does what is promised exactly if no buffer has just the
length of the name that was accepted last: such a buffer is filled without a zero.
-/
theorem names_round_trip_iff (calls : List Call) :
    (∀ earlier call later,
      calls = earlier ++ call :: later →
        ∃ msg outcome,
          after boot earlier = some msg ∧
            perform msg call = some outcome ∧
            Promised (accepted [] earlier) msg call outcome) ↔
      ∀ earlier call later,
        calls = earlier ++ call :: later →
          NotTight (accepted [] earlier) call := by
  refine forall_congr' fun earlier => forall_congr' fun call =>
    forall_congr' fun later => imp_congr_right fun _ => ?_
  obtain ⟨msg, reached, keeps⟩ := after_keeps keeps_boot earlier
  obtain ⟨outcome, performed, -⟩ := perform_keeps keeps call
  constructor
  · rintro ⟨other, result, reached', performed', promised⟩
    rw [reached, Option.some_inj] at reached'
    subst reached'
    exact (promised_iff keeps performed').mp promised
  · intro notTight
    exact ⟨msg, outcome, reached, performed,
      (promised_iff keeps performed).mpr notTight⟩

/-- A name of one letter. -/
def letter : Name where
  bytes := fun a => if a = 0 then 97 else 0
  address := 0
  string := [97]
  isString := ⟨by decide, rfl⟩

/-- A buffer of one byte is filled with the letter, and the call succeeds. -/
theorem letter_unterminated :
    ¬ ∀ earlier call later,
      [.iam letter fun _ => 0, .whoami (fun _ => 7) 100 1] =
          earlier ++ call :: later →
        ∃ msg outcome,
          after boot earlier = some msg ∧
            perform msg call = some outcome ∧
            Promised (accepted [] earlier) msg call outcome := by
  intro promised
  obtain ⟨msg, outcome, reached, performed, -, refused, -⟩ :=
    promised [.iam letter fun _ => 0] (.whoami (fun _ => 7) 100 1) [] rfl
  have value := refused (by decide)
  have all :
      ((after boot [.iam letter fun _ => 0]).bind fun msg =>
        perform msg (.whoami (fun _ => 7) 100 1)).map Outcome.value =
          some (1 : Int) := by
    decide
  rw [reached, Option.bind_some, performed, Option.map_some,
    Option.some_inj, value] at all
  exact absurd all (by decide)

end Who

end HitOs
