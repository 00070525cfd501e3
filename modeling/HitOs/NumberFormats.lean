import HitOs.ByteStrings
import HitOs.Numerals

namespace HitOs

/-!
# Numbers as text

`number` of `vsprintf.c`, with the loops that fill a field, against the parts of the
field that it writes.  All its counters are words of 32 bits.
-/

namespace Formats

abbrev Byte := BitVec 8

abbrev Word := BitVec 32

/-- A character of the program's text. -/
def char (c : Char) : Byte :=
  BitVec.ofNat 8 c.toNat

/-! ## Output -/

/-- The memory, and where the next character goes. -/
structure Output where
  memory : Nat → Byte
  str : Nat

namespace Output

/-- `*str++ = c` -/
def put (c : Byte) (out : Output) : Output where
  memory := Function.update out.memory out.str c
  str := out.str + 1

/-- Characters one after the other. -/
def write : List Byte → Output → Output
  | [], out => out
  | c :: text, out => write text (out.put c)

variable {out : Output} {text others : List Byte} {c : Byte}

theorem write_write : (out.write text).write others = out.write (text ++ others) := by
  induction text generalizing out with
  | nil => rfl
  | cons c text inductionHypothesis => exact inductionHypothesis

@[simp] theorem str_write : (out.write text).str = out.str + text.length := by
  induction text generalizing out with
  | nil => rfl
  | cons c text inductionHypothesis =>
    have next : (out.put c).str = out.str + 1 := rfl
    rw [write, inductionHypothesis, next, List.length_cons]
    omega

theorem memory_write : (out.write text).memory = Ring.fill text out.str out.memory := by
  induction text generalizing out with
  | nil => rfl
  | cons c text inductionHypothesis => exact inductionHypothesis

/-- Something has been written, and nothing else has changed. -/
def Extends (after out : Output) : Prop :=
  ∃ text, after = out.write text

theorem extends_write : (out.write text).Extends out :=
  ⟨text, rfl⟩

theorem extends_refl : out.Extends out :=
  ⟨[], rfl⟩

theorem Extends.trans
    {between after : Output}
    (second : after.Extends between)
    (first : between.Extends out) :
    after.Extends out := by
  obtain ⟨text, rfl⟩ := first
  obtain ⟨others, rfl⟩ := second
  exact ⟨text ++ others, write_write⟩

theorem extends_put : (out.put c).Extends out :=
  ⟨[c], rfl⟩

end Output

/-! ## Counters -/

section Counters

variable {c : Byte} {bound counter : Word} {out : Output}

/-- A difference that is in range is exact. -/
theorem toInt_sub
    {word other : Word}
    (lower : -2 ^ 31 ≤ word.toInt - other.toInt)
    (upper : word.toInt - other.toInt < 2 ^ 31) :
    (word - other).toInt = word.toInt - other.toInt := by
  rw [BitVec.toInt_sub]
  exact Int.bmod_eq_of_le (by omega) (by omega)

/-- A word that is above another one can be counted down. -/
theorem toInt_pred (more : bound.slt counter) :
    (counter - 1).toInt = counter.toInt - 1 := by
  have larger := BitVec.slt_iff_toInt_lt.mp more
  have lower := BitVec.le_toInt bound
  have upper := BitVec.toInt_lt (x := counter)
  have one : (1 : Word).toInt = 1 := rfl
  rw [toInt_sub (by omega) (by omega), one]

/-- `while (bound < counter--) *str++ = c`, and the counter behind it. -/
def padWhile (c : Byte) (bound counter : Word) (out : Output) : Word × Output :=
  if bound.slt counter then
    padWhile c bound (counter - 1) (out.put c)
  else
    (counter - 1, out)
termination_by (counter.toInt - bound.toInt).toNat
decreasing_by
  have larger := BitVec.slt_iff_toInt_lt.mp ‹_›
  rw [toInt_pred ‹_›]
  omega

/-- How far a counter is above a bound. -/
def above (bound counter : Word) : Nat :=
  (counter.toInt - bound.toInt).toNat

theorem padWhile_eq :
    padWhile c bound counter out =
      ((if bound.slt counter then bound else counter) - 1,
        out.write (List.replicate (above bound counter) c)) := by
  induction counter, out using padWhile.induct c bound with
  | case1 counter out more inductionHypothesis =>
    have larger := BitVec.slt_iff_toInt_lt.mp more
    have pred := toInt_pred more
    have count : above bound counter = above bound (counter - 1) + 1 := by
      unfold above
      omega
    have last :
        (if bound.slt (counter - 1) then bound else counter - 1) = bound := by
      split
      case isTrue => rfl
      case isFalse notMore =>
        have notLarger := mt BitVec.slt_iff_toInt_lt.mpr notMore
        exact BitVec.eq_of_toInt_eq (by omega)
    rw [padWhile, if_pos more, inductionHypothesis, last, if_pos more, count,
      List.replicate_succ]
    rfl
  | case2 counter out done =>
    rw [padWhile, if_neg done, if_neg done]
    have least : above bound counter = 0 := by
      have notLarger := mt BitVec.slt_iff_toInt_lt.mpr done
      unfold above
      omega
    rw [least]
    rfl

theorem padWhile_snd :
    (padWhile c bound counter out).2 =
      out.write (List.replicate (above bound counter) c) := by
  rw [padWhile_eq]

theorem extends_padWhile : (padWhile c bound counter out).2.Extends out :=
  ⟨_, padWhile_snd⟩

/-- What a counter is after it has been counted down to zero. -/
theorem toInt_padWhile (lower : -2 ^ 31 < counter.toInt) :
    (padWhile c 0 counter out).1.toInt = min 0 counter.toInt - 1 := by
  have one : (1 : Word).toInt = 1 := rfl
  have isZero : (0 : Word).toInt = 0 := rfl
  have upper := BitVec.toInt_lt (x := counter)
  rw [padWhile_eq]
  dsimp only
  split
  case isTrue more =>
    have larger := BitVec.slt_iff_toInt_lt.mp more
    rw [toInt_sub (by omega) (by omega)]
    omega
  case isFalse notMore =>
    have notLarger := mt BitVec.slt_iff_toInt_lt.mpr notMore
    rw [toInt_sub (by omega) (by omega)]
    omega

theorem above_zero (notMore : counter.toInt ≤ 0) : above 0 counter = 0 := by
  have isZero : (0 : Word).toInt = 0 := rfl
  unfold above
  omega

/-- Counted down to zero once, a counter is used up. -/
theorem above_padWhile (lower : -2 ^ 31 < counter.toInt) :
    above 0 (padWhile c 0 counter out).1 = 0 := by
  have once : (padWhile c 0 counter out).1.toInt = _ := toInt_padWhile lower
  exact above_zero (by omega)

theorem above_padWhile_padWhile
    {other : Byte} {between : Output}
    (lower : -2 ^ 31 + 1 < counter.toInt) :
    above 0 (padWhile other 0 (padWhile c 0 counter out).1 between).1 = 0 := by
  have once : (padWhile c 0 counter out).1.toInt = _ := toInt_padWhile (by omega)
  exact above_padWhile (by omega)

end Counters

/-! ## Flags -/

namespace Flag

/-- Pad with zero. -/
def zeropad : Word := 1

/-- Signed instead of unsigned. -/
def sign : Word := 2

/-- Show plus. -/
def plus : Word := 4

/-- Space if plus. -/
def space : Word := 8

/-- Left justified. -/
def left : Word := 16

/-- `0x` -/
def special : Word := 32

/-- `abcdef` instead of `ABCDEF`. -/
def small : Word := 64

end Flag

/-- `type & flag` -/
def has (type flag : Word) : Bool :=
  type &&& flag != 0

section Flags

variable {type flag other : Word}

/-- Bits that stay have the flags that are among them. -/
theorem has_and
    (among : other &&& flag = flag) :
    has (type &&& other) flag = has type flag := by
  unfold has
  rw [BitVec.and_assoc, among]

theorem has_or (type flag other : Word) :
    has type (flag ||| other) = (has type flag || has type other) := by
  unfold has
  rw [BitVec.and_or_distrib_left, Bool.eq_iff_iff, Bool.or_eq_true]
  simp only [bne_iff_ne]
  exact (not_congr BitVec.or_eq_zero_iff).trans not_and_or

/-- `type &= ~ZEROPAD` for a number that is left justified. -/
def justified (type : Word) : Word :=
  if has type Flag.left then type &&& ~~~Flag.zeropad else type

theorem has_justified
    (type : Word)
    (kept : ~~~Flag.zeropad &&& flag = flag) :
    has (justified type) flag = has type flag := by
  unfold justified
  split
  · exact has_and kept
  · rfl

/-- What is left justified is not padded with zeros. -/
theorem has_justified_zeropad :
    has (justified type) Flag.zeropad =
      (has type Flag.zeropad && !has type Flag.left) := by
  unfold justified
  split
  case isTrue onLeft =>
    rw [onLeft, Bool.not_true, Bool.and_false]
    unfold has
    rw [BitVec.and_assoc]
    simp [Flag.zeropad]
  case isFalse notLeft =>
    simp [notLeft]

end Flags

/-! ## Digits -/

/-- The characters of digits. -/
def symbols (small : Bool) : List Byte :=
  if small then
    ['0', '1', '2', '3', '4', '5', '6', '7', '8', '9', 'a', 'b', 'c', 'd', 'e', 'f',
      'g', 'h', 'i', 'j', 'k', 'l', 'm', 'n', 'o', 'p', 'q', 'r', 's', 't', 'u', 'v',
      'w', 'x', 'y', 'z'].map char
  else
    ['0', '1', '2', '3', '4', '5', '6', '7', '8', '9', 'A', 'B', 'C', 'D', 'E', 'F',
      'G', 'H', 'I', 'J', 'K', 'L', 'M', 'N', 'O', 'P', 'Q', 'R', 'S', 'T', 'U', 'V',
      'W', 'X', 'Y', 'Z'].map char

theorem symbols_nodup {small : Bool} : (symbols small).Nodup := by
  cases small <;> decide

theorem length_symbols {small : Bool} : (symbols small).length = 36 := by
  cases small <;> rfl

section Remainders

variable {digits : List Byte} {num base : Word}

/-- A division makes a number smaller. -/
theorem toNat_div_lt (bases : 2 ≤ base.toNat) (nonzero : num ≠ 0) :
    (num / base).toNat < num.toNat := by
  have positive : num.toNat ≠ 0 := fun zero => nonzero (BitVec.eq_of_toNat_eq zero)
  rw [BitVec.toNat_udiv]
  exact Nat.div_lt_self (by omega) bases

/--
`tmp` behind `while (num != 0) tmp[i++] = digits[do_div(num, base)]`.  The division is one
of words without signs; bases below 2 have been refused before.
-/
def remainders (digits : List Byte) (num base : Word) : List Byte :=
  if _ : num = 0 ∨ base.toNat < 2 then
    []
  else
    digits.getD (num % base).toNat 0 :: remainders digits (num / base) base
termination_by num.toNat
decreasing_by
  obtain ⟨isSome, bases⟩ := not_or.mp ‹_›
  exact toNat_div_lt (Nat.le_of_not_lt bases) isSome

theorem remainders_eq (bases : 2 ≤ base.toNat) :
    remainders digits num base =
      Numeral.write digits 0 (Nat.digits base.toNat num.toNat) := by
  induction num using remainders.induct base with
  | case1 num done =>
    have zero : num.toNat = 0 := by
      rw [done.resolve_right (by omega)]
      rfl
    rw [remainders, dif_pos done, zero, Nat.digits_zero]
    rfl
  | case2 num more inductionHypothesis =>
    have positive : num.toNat ≠ 0 := fun zero =>
      (not_or.mp more).1 (BitVec.eq_of_toNat_eq zero)
    rw [remainders, dif_neg more, inductionHypothesis,
      Nat.digits_def' bases (Nat.pos_of_ne_zero positive), BitVec.toNat_umod,
      BitVec.toNat_udiv]
    rfl

/-- `tmp`, the lowest digit first. -/
def reversed (digits : List Byte) (num base : Word) : List Byte :=
  if num = 0 then [char '0'] else remainders digits num base

/-- The digits in `tmp` are those of the number. -/
theorem reversed_eq
    {small : Bool}
    (bases : 2 ≤ base.toNat) :
    (reversed (symbols small) num base).reverse =
      Numeral.write (symbols small) 0 (Numeral.digits base.toNat num.toNat) := by
  unfold reversed Numeral.digits
  by_cases zero : num = 0
  · subst zero
    cases small <;> rfl
  · have positive : num.toNat ≠ 0 := fun isNone => zero (BitVec.eq_of_toNat_eq isNone)
    rw [if_neg zero, if_neg positive, remainders_eq bases]
    unfold Numeral.write
    rw [List.map_reverse]

/-- There is room in `tmp`. -/
theorem length_reversed_le
    {small : Bool}
    (bases : 2 ≤ base.toNat) :
    (reversed (symbols small) num base).length ≤ 32 := by
  have power : num.toNat < base.toNat ^ 32 :=
    num.isLt.trans_le (Nat.pow_le_pow_left bases 32)
  have inBase := Numeral.length_digits_le bases (by decide) power
  rw [← List.length_reverse, reversed_eq bases]
  unfold Numeral.write
  rwa [List.length_map]

end Remainders

/-! ## Fields -/

/-- The sign of a number, if it is shown, and the number without it. -/
def signed (type num : Word) : Byte × Word :=
  if has type Flag.sign && num.slt 0 then
    (char '-', -num)
  else if has type Flag.plus then
    (char '+', num)
  else if has type Flag.space then
    (char ' ', num)
  else
    (0, num)

/-- What the mark of a base takes from the size. -/
def unmarked (type base size : Word) : Word :=
  if has type Flag.special then
    if base = 16 then size - 2
    else if base = 8 then size - 1
    else size
  else
    size

/-- `0` or `0x` -/
def putMark (digits : List Byte) (type base : Word) (out : Output) : Output :=
  if has type Flag.special then
    if base = 8 then
      out.put (char '0')
    else if base = 16 then
      (out.put (char '0')).put (digits.getD 33 0)
    else
      out
  else
    out

/-- `if (i > precision) precision = i` -/
def larger (precision i : Word) : Word :=
  if precision.slt i then i else precision

/-- `number` from where the precision is taken from the size. -/
def place
    (digits : List Byte)
    (base size precision type : Word)
    (sign : Byte)
    (tmp : List Byte)
    (out : Output) : Output :=
  let c := if has type Flag.zeropad then char '0' else char ' '
  let i := BitVec.ofNat 32 tmp.length
  let precision := larger precision i
  let size := size - precision
  let (size, out) :=
    if has type (Flag.zeropad + Flag.left) then (size, out)
    else padWhile (char ' ') 0 size out
  let out := if sign = 0 then out else out.put sign
  let out := putMark digits type base out
  let (size, out) :=
    if has type Flag.left then (size, out) else padWhile c 0 size out
  let out := (padWhile (char '0') i precision out).2
  let out := out.write tmp.reverse
  (padWhile (char ' ') 0 size out).2

/-- `number` -/
def number (num base size precision type : Word) (out : Output) : Option Output :=
  let digits := symbols (has type Flag.small)
  let type := justified type
  if base.slt 2 || (36 : Word).slt base then
    none
  else
    let (sign, num) := signed type num
    let size := if sign = 0 then size else size - 1
    let size := unmarked type base size
    some (place digits base size precision type sign (reversed digits num base) out)

/-- A number and what stands around it. -/
structure Field where
  left : Nat
  sign : List Byte
  mark : List Byte
  zeros : Nat
  digits : List Byte
  right : Nat

namespace Field

/-- The characters of a field. -/
def text (field : Field) : List Byte :=
  List.replicate field.left (char ' ') ++ field.sign ++ field.mark ++
    List.replicate field.zeros (char '0') ++ field.digits ++
    List.replicate field.right (char ' ')

/-- Where the flags put what a field has to spare. -/
def fill (type : Word) (spare : Nat) (field : Field) : Field :=
  if has type Flag.left then
    { field with right := field.right + spare }
  else if has type Flag.zeropad then
    { field with zeros := field.zeros + spare }
  else
    { field with left := field.left + spare }

variable {type : Word} {spare : Nat} {field : Field}

@[simp] theorem fill_sign : (field.fill type spare).sign = field.sign := by
  unfold fill
  split <;> [rfl; split <;> rfl]

@[simp] theorem fill_mark : (field.fill type spare).mark = field.mark := by
  unfold fill
  split <;> [rfl; split <;> rfl]

@[simp] theorem fill_digits : (field.fill type spare).digits = field.digits := by
  unfold fill
  split <;> [rfl; split <;> rfl]

/-- What is spare is filled, on one side or on the other. -/
theorem length_fill :
    (field.fill type spare).text.length = field.text.length + spare := by
  unfold fill
  split
  · simp [text]
    omega
  · split <;> simp [text] <;> omega

end Field

/-- The sign that is shown. -/
def signText (type num : Word) : List Byte :=
  if has type Flag.sign && num.slt 0 then [char '-']
  else if has type Flag.plus then [char '+']
  else if has type Flag.space then [char ' ']
  else []

/-- The mark of base 8 or 16. -/
def markText (type : Word) (base : Nat) : List Byte :=
  if has type Flag.special then
    if base = 8 then [char '0']
    else if base = 16 then
      [char '0', if has type Flag.small then char 'x' else char 'X']
    else []
  else
    []

/-- The number that is shown behind the sign. -/
def magnitude (type num : Word) : Nat :=
  if has type Flag.sign then num.toInt.natAbs else num.toNat

/-- The parts that a number has by itself, with zeros up to its precision. -/
def parts (num : Word) (base : Nat) (precision : Int) (type : Word) : Field :=
  let digits :=
    Numeral.write (symbols (has type Flag.small)) 0
      (Numeral.digits base (magnitude type num))
  { left := 0
    sign := signText type num
    mark := markText type base
    zeros := (precision - digits.length).toNat
    digits := digits
    right := 0 }

/-- The field of the given size that `printf` shows for a number. -/
def rendering (num : Word) (base : Nat) (size precision : Int) (type : Word) : Field :=
  let field := parts num base precision type
  field.fill type (size - field.text.length).toNat

/-! ## What `number` writes -/

section Number

variable {num base size precision type : Word} {sign : Byte} {tmp : List Byte}
variable {digits : List Byte} {out : Output}

theorem putMark_eq :
    putMark (symbols (has type Flag.small)) type base out =
      out.write (markText type base.toNat) := by
  unfold putMark markText
  have eight : base = 8 ↔ base.toNat = 8 := BitVec.toNat_inj.symm
  have sixteen : base = 16 ↔ base.toNat = 16 := BitVec.toNat_inj.symm
  simp only [eight, sixteen]
  split
  · split
    · rfl
    · split
      · cases has type Flag.small <;> rfl
      · rfl
  · rfl

/-- A sign is shown if it is a character. -/
def shown (sign : Byte) : List Byte :=
  if sign = 0 then [] else [sign]

theorem shown_signed : shown (signed type num).1 = signText type num := by
  unfold signed signText
  split
  · rfl
  · split
    · rfl
    · split <;> rfl

theorem toInt_zero : (0 : Word).toInt = 0 :=
  rfl

theorem length_shown_le : (shown sign).length ≤ 1 := by
  unfold shown
  split <;> simp

theorem length_markText_le {base : Nat} : (markText type base).length ≤ 2 := by
  unfold markText
  split
  · split
    · simp
    · split <;> simp
  · simp

/-- Also the lowest number has its value without the sign. -/
theorem toNat_signed : (signed type num).2.toNat = magnitude type num := by
  have values := BitVec.toInt_eq_toNat_cond num
  have below := num.isLt
  unfold signed magnitude
  by_cases negative : (has type Flag.sign && num.slt 0) = true
  · obtain ⟨isSigned, less⟩ := Bool.and_eq_true_iff.mp negative
    have lessThanZero := BitVec.slt_iff_toInt_lt.mp less
    rw [if_pos negative, if_pos isSigned]
    rw [toInt_zero] at lessThanZero
    simp only [BitVec.toNat_neg]
    split at values <;> omega
  · have same :
        (if has type Flag.sign = true then num.toInt.natAbs else num.toNat) =
          num.toNat := by
      split
      case isTrue isSigned =>
        rw [isSigned, Bool.true_and] at negative
        have notLess := mt BitVec.slt_iff_toInt_lt.mpr negative
        rw [toInt_zero] at notLess
        split at values <;> omega
      case isFalse => rfl
    rw [if_neg negative, same]
    split
    · rfl
    · split <;> rfl

theorem putSign_eq :
    (if sign = 0 then out else out.put sign) = out.write (shown sign) := by
  unfold shown
  split <;> rfl

/-- What `place` has to show, whatever the size is. -/
def found (type : Word) (base : Nat) (precision : Word) (sign : Byte) (tmp : List Byte) :
    Field where
  left := 0
  sign := shown sign
  mark := markText type base
  zeros := above (BitVec.ofNat 32 tmp.length) (larger precision (BitVec.ofNat 32 tmp.length))
  digits := tmp.reverse
  right := 0

/-- What `place` writes, unless it counts the size down from the lowest words. -/
theorem place_eq
    {spare : Word}
    (flags : has type Flag.left = true → has type Flag.zeropad = false)
    (left : size - larger precision (BitVec.ofNat 32 tmp.length) = spare)
    (lower : -2 ^ 31 + 1 < spare.toInt) :
    place (symbols (has type Flag.small)) base size precision type sign tmp out =
      out.write
        ((found type base.toNat precision sign tmp).fill type (above 0 spare)).text := by
  have either :
      has type (Flag.zeropad + Flag.left) =
        (has type Flag.zeropad || has type Flag.left) :=
    has_or type Flag.zeropad Flag.left
  have usedUp (c : Byte) (out : Output) : above 0 (padWhile c 0 spare out).1 = 0 :=
    above_padWhile (by omega)
  have usedTwice (c other : Byte) (out between : Output) :
      above 0 (padWhile other 0 (padWhile c 0 spare out).1 between).1 = 0 :=
    above_padWhile_padWhile lower
  unfold place Field.fill
  simp only [either, putSign_eq, putMark_eq, padWhile_snd, left]
  cases onLeft : has type Flag.left with
  | true =>
    rw [flags onLeft]
    simp [Output.write_write, Field.text, found]
  | false =>
    cases zeros : has type Flag.zeropad with
    | true =>
      simp only [Bool.or_false, if_true, Bool.false_eq_true, if_false, padWhile_snd,
        usedUp, Output.write_write, Field.text, found]
      rw [Nat.add_comm (above _ _), List.replicate_add]
      simp
    | false =>
      simp only [Bool.or_false, Bool.false_eq_true, if_false, padWhile_snd, usedUp,
        usedTwice, Output.write_write, Field.text, found]
      simp

theorem toInt_unsigned (lower : -1 ≤ size.toInt) :
    (if sign = 0 then size else size - 1).toInt = size.toInt - (shown sign).length := by
  have upper := BitVec.toInt_lt (x := size)
  have one : (1 : Word).toInt = 1 := rfl
  unfold shown
  split
  · exact (Int.sub_zero _).symm
  · rw [toInt_sub (by omega) (by omega), one]
    rfl

/-- The size is less by as much as the mark is long. -/
theorem toInt_unmarked (lower : -2 ≤ size.toInt) :
    (unmarked type base size).toInt = size.toInt - (markText type base.toNat).length := by
  have upper := BitVec.toInt_lt (x := size)
  have one : (1 : Word).toInt = 1 := rfl
  have two : (2 : Word).toInt = 2 := rfl
  have eight : base = 8 ↔ base.toNat = 8 := BitVec.toNat_inj.symm
  have sixteen : base = 16 ↔ base.toNat = 16 := BitVec.toNat_inj.symm
  unfold unmarked markText
  simp only [eight, sixteen]
  cases has type Flag.special with
  | false => simp
  | true =>
    by_cases inEight : base.toNat = 8
    · simp only [inEight, if_true]
      rw [if_neg (by decide), toInt_sub (by omega) (by omega), one]
      rfl
    · by_cases inSixteen : base.toNat = 16
      · simp only [inSixteen, if_true]
        rw [if_neg (by decide), toInt_sub (by omega) (by omega), two]
        rfl
      · simp [inEight, inSixteen]

theorem toInt_larger {i : Word} :
    (larger precision i).toInt = max precision.toInt i.toInt := by
  unfold larger
  split
  case isTrue less =>
    have smaller := BitVec.slt_iff_toInt_lt.mp less
    omega
  case isFalse notLess =>
    have notSmaller := mt BitVec.slt_iff_toInt_lt.mpr notLess
    omega

/-- With any size and precision, something is written. -/
theorem extends_place :
    (place (symbols (has type Flag.small)) base size precision type sign tmp out).Extends
      out := by
  unfold place
  simp only [putSign_eq, putMark_eq]
  refine extends_padWhile.trans ?_
  refine Output.extends_write.trans ?_
  refine extends_padWhile.trans ?_
  split
  · refine Output.extends_write.trans (Output.extends_write.trans ?_)
    split
    · exact Output.extends_refl
    · exact extends_padWhile
  · refine extends_padWhile.trans ?_
    refine Output.extends_write.trans (Output.extends_write.trans ?_)
    split
    · exact Output.extends_refl
    · exact extends_padWhile

/-! The flag that `number` clears does not change the parts of a field. -/

theorem signText_justified : signText (justified type) num = signText type num := by
  unfold signText
  rw [has_justified _ (by decide), has_justified _ (by decide), has_justified _ (by decide)]

theorem markText_justified {base : Nat} :
    markText (justified type) base = markText type base := by
  unfold markText
  rw [has_justified _ (by decide), has_justified _ (by decide)]

theorem magnitude_justified : magnitude (justified type) num = magnitude type num := by
  unfold magnitude
  rw [has_justified _ (by decide)]

theorem fill_justified {spare : Nat} {field : Field} :
    field.fill (justified type) spare = field.fill type spare := by
  unfold Field.fill
  rw [has_justified _ (by decide), has_justified_zeropad]
  cases has type Flag.left with
  | true => rfl
  | false => rw [Bool.not_false, Bool.and_true]

/-- Read back, the digits of a number are the number. -/
theorem value_parts
    {base : Nat} {precision : Int}
    (bases : 2 ≤ base ∧ base ≤ 36)
    (zeros : Nat) :
    Numeral.value base
      (Numeral.read (symbols (has type Flag.small))
        (List.replicate zeros (char '0') ++ (parts num base precision type).digits)) =
      magnitude type num := by
  have inside digit (member : digit ∈ Numeral.digits base (magnitude type num)) :
      digit < (symbols (has type Flag.small)).length := by
    rw [length_symbols]
    exact (Numeral.digit_lt bases.1 member).trans_le bases.2
  have noughts :
      Numeral.read (symbols (has type Flag.small)) (List.replicate zeros (char '0')) =
        List.replicate zeros 0 := by
    unfold Numeral.read
    rw [List.map_replicate]
    cases has type Flag.small <;> rfl
  rw [Numeral.read_append, noughts, Numeral.value_zeros]
  unfold parts
  rw [Numeral.read_write symbols_nodup inside, Numeral.value_digits]

/-- The length of a field is the one that is asked for, or that of its parts. -/
theorem length_rendering {base : Nat} {size precision : Int} :
    let field := rendering num base size precision type
    (field.text.length : Int) =
      max size
        (field.sign.length + field.mark.length + max precision field.digits.length) := by
  intro field
  have whole : field.text.length = _ := Field.length_fill
  have sign : field.sign = _ := Field.fill_sign
  have mark : field.mark = _ := Field.fill_mark
  have digits : field.digits = _ := Field.fill_digits
  have zeros :
      (parts num base precision type).zeros =
        (precision - (parts num base precision type).digits.length).toNat := rfl
  have own :
      (parts num base precision type).text.length =
        (parts num base precision type).sign.length +
          (parts num base precision type).mark.length +
          (parts num base precision type).zeros +
          (parts num base precision type).digits.length := by
    simp [Field.text, parts]
    omega
  rw [whole, sign, mark, digits]
  omega

/-- A base that has symbols is not refused. -/
theorem number_of_base (bases : 2 ≤ base.toNat ∧ base.toNat ≤ 36) :
    number num base size precision type out =
      some (place (symbols (has type Flag.small)) base
        (unmarked (justified type) base
          (if (signed (justified type) num).1 = 0 then size else size - 1))
        precision (justified type) (signed (justified type) num).1
        (reversed (symbols (has type Flag.small)) (signed (justified type) num).2 base)
        out) := by
  have value := BitVec.toInt_eq_toNat_cond base
  have two : (2 : Word).toInt = 2 := rfl
  have last : (36 : Word).toInt = 36 := rfl
  have inside : ¬ (base.slt 2 || (36 : Word).slt base) = true := by
    rw [Bool.or_eq_true, BitVec.slt_iff_toInt_lt, BitVec.slt_iff_toInt_lt]
    split at value <;> omega
  unfold number
  exact if_neg inside

/-- A number in a base that has symbols is written, whatever else is asked for. -/
theorem extends_number (bases : 2 ≤ base.toNat ∧ base.toNat ≤ 36) :
    ∃ after, number num base size precision type out = some after ∧ after.Extends out := by
  refine ⟨_, number_of_base bases, ?_⟩
  have small : has (justified type) Flag.small = has type Flag.small :=
    has_justified type (by decide)
  rw [← small]
  exact extends_place

/-- The length of `tmp` as a word. -/
theorem toInt_length (room : tmp.length ≤ 32) :
    (BitVec.ofNat 32 tmp.length).toInt = tmp.length := by
  rw [BitVec.toInt_ofNat']
  exact Int.bmod_eq_of_le (by omega) (by omega)

theorem length_found (room : tmp.length ≤ 32) :
    ((found type base.toNat precision sign tmp).text.length : Int) =
      (shown sign).length + (markText type base.toNat).length +
        (larger precision (BitVec.ofNat 32 tmp.length)).toInt := by
  have count := toInt_length room
  have most : (larger precision (BitVec.ofNat 32 tmp.length)).toInt = _ := toInt_larger
  have zeros :
      above (BitVec.ofNat 32 tmp.length) (larger precision (BitVec.ofNat 32 tmp.length)) =
        ((larger precision (BitVec.ofNat 32 tmp.length)).toInt - tmp.length).toNat := by
    unfold above
    rw [count]
  have whole :
      (found type base.toNat precision sign tmp).text.length =
        (shown sign).length + (markText type base.toNat).length +
          above (BitVec.ofNat 32 tmp.length)
            (larger precision (BitVec.ofNat 32 tmp.length)) + tmp.length := by
    simp [Field.text, found]
    omega
  omega

/-- The counter of the size holds what the field has to spare. -/
theorem toInt_spare
    (room : tmp.length ≤ 32)
    (sizes : -1 ≤ size.toInt ∧ size.toInt ≤ 2 ^ 30)
    (precisions : -1 ≤ precision.toInt ∧ precision.toInt ≤ 2 ^ 30) :
    (unmarked type base (if sign = 0 then size else size - 1) -
        larger precision (BitVec.ofNat 32 tmp.length)).toInt =
      size.toInt - (found type base.toNat precision sign tmp).text.length := by
  have count := toInt_length room
  have most : (larger precision (BitVec.ofNat 32 tmp.length)).toInt = _ := toInt_larger
  have fewSigns : (shown sign).length ≤ 1 := length_shown_le
  have fewMarks : (markText type base.toNat).length ≤ 2 := length_markText_le
  have unsigned :
      (if sign = 0 then size else size - 1).toInt = size.toInt - (shown sign).length :=
    toInt_unsigned sizes.1
  have unmarked :
      (unmarked type base (if sign = 0 then size else size - 1)).toInt =
        (if sign = 0 then size else size - 1).toInt -
          (markText type base.toNat).length :=
    toInt_unmarked (by omega)
  rw [toInt_sub (by omega) (by omega), length_found room]
  omega

/-- With the digits and the sign of a number, `place` finds the parts of its field. -/
theorem found_eq
    (room : tmp.length ≤ 32)
    (signs : shown sign = signText type num)
    (digits : tmp.reverse = (parts num base.toNat precision.toInt type).digits) :
    found (justified type) base.toNat precision sign tmp =
      parts num base.toNat precision.toInt type := by
  have count := toInt_length room
  have most : (larger precision (BitVec.ofNat 32 tmp.length)).toInt = _ := toInt_larger
  have length : (parts num base.toNat precision.toInt type).digits.length = tmp.length := by
    rw [← digits, List.length_reverse]
  have zeros :
      above (BitVec.ofNat 32 tmp.length) (larger precision (BitVec.ofNat 32 tmp.length)) =
        (precision.toInt -
          (parts num base.toNat precision.toInt type).digits.length).toNat := by
    unfold above
    omega
  unfold found
  rw [signs, markText_justified, zeros, digits]
  rfl

theorem number_eq
    (bases : 2 ≤ base.toNat ∧ base.toNat ≤ 36)
    (sizes : -1 ≤ size.toInt ∧ size.toInt ≤ 2 ^ 30)
    (precisions : -1 ≤ precision.toInt ∧ precision.toInt ≤ 2 ^ 30) :
    number num base size precision type out =
      some (out.write
        (rendering num base.toNat size.toInt precision.toInt type).text) := by
  let field := parts num base.toNat precision.toInt type
  let sign := (signed (justified type) num).1
  let tmp :=
    reversed (symbols (has type Flag.small)) (signed (justified type) num).2 base
  have room : tmp.length ≤ 32 := length_reversed_le bases.1
  have signs : shown sign = signText type num := shown_signed.trans signText_justified
  have digits : tmp.reverse = field.digits := by
    unfold tmp
    rw [reversed_eq bases.1, toNat_signed, magnitude_justified]
    rfl
  have whole : found (justified type) base.toNat precision sign tmp = field :=
    found_eq room signs digits
  have spare :
      (unmarked (justified type) base (if sign = 0 then size else size - 1) -
          larger precision (BitVec.ofNat 32 tmp.length)).toInt =
        size.toInt - field.text.length := by
    rw [← whole]
    exact toInt_spare room sizes precisions
  have flags (onLeft : has (justified type) Flag.left = true) :
      has (justified type) Flag.zeropad = false := by
    rw [has_justified _ (by decide)] at onLeft
    rw [has_justified_zeropad, onLeft, Bool.not_true, Bool.and_false]
  have longest : (field.text.length : Int) ≤ 2 ^ 30 + 35 := by
    have length :
        ((found (justified type) base.toNat precision sign tmp).text.length : Int) = _ :=
      length_found room
    rw [whole] at length
    have count := toInt_length room
    have most : (larger precision (BitVec.ofNat 32 tmp.length)).toInt = _ := toInt_larger
    have fewSigns : (shown sign).length ≤ 1 := length_shown_le
    have fewMarks : (markText (justified type) base.toNat).length ≤ 2 := length_markText_le
    omega
  have small : has (justified type) Flag.small = has type Flag.small :=
    has_justified type (by decide)
  rw [number_of_base bases, ← small]
  refine congrArg some ((place_eq flags rfl ?_).trans ?_)
  · rw [small]
    exact lt_of_lt_of_eq (by omega) spare.symm
  · rw [small, whole, fill_justified]
    unfold above
    rw [spare, toInt_zero, Int.sub_zero]
    rfl

/--
For every number, every base and all flags, `number` writes the field of `printf`: the
digits read as the number, and the field is as long as its size or its parts ask for.
-/
theorem number_exact
    (bases : 2 ≤ base.toNat ∧ base.toNat ≤ 36)
    (sizes : -1 ≤ size.toInt ∧ size.toInt ≤ 2 ^ 30)
    (precisions : -1 ≤ precision.toInt ∧ precision.toInt ≤ 2 ^ 30) :
    let field := rendering num base.toNat size.toInt precision.toInt type
    number num base size precision type out = some (out.write field.text) ∧
      (∀ zeros,
        Numeral.value base.toNat
          (Numeral.read (symbols (has type Flag.small))
            (List.replicate zeros (char '0') ++ field.digits)) = magnitude type num) ∧
      (field.text.length : Int) =
        max size.toInt
          (field.sign.length + field.mark.length +
            max precision.toInt field.digits.length) := by
  intro field
  have digits : field.digits = _ := Field.fill_digits
  refine ⟨number_eq bases sizes precisions, fun zeros => ?_, length_rendering⟩
  rw [digits]
  exact value_parts bases zeros

/-- The lowest number in a field of 14 characters. -/
theorem number_exact_lowest :
    number (BitVec.intMin 32) 10 14 (-1) Flag.sign ⟨fun _ => 0, 0⟩ =
      some (Output.write
        ([' ', ' ', ' ', '-', '2', '1', '4', '7', '4', '8', '3', '6', '4', '8'].map char)
        ⟨fun _ => 0, 0⟩) := by
  have bases : 2 ≤ (10 : Word).toNat ∧ (10 : Word).toNat ≤ 36 := by decide
  have sizes : -1 ≤ (14 : Word).toInt ∧ (14 : Word).toInt ≤ 2 ^ 30 := by decide
  have precisions : -1 ≤ (-1 : Word).toInt ∧ (-1 : Word).toInt ≤ 2 ^ 30 := by decide
  have field :
      (rendering (BitVec.intMin 32) 10 14 (-1) Flag.sign).text =
        [' ', ' ', ' ', '-', '2', '1', '4', '7', '4', '8', '3', '6', '4', '8'].map
          char := by
    decide +kernel
  rw [← field]
  exact (number_exact bases sizes precisions).1

end Number

end Formats

end HitOs
