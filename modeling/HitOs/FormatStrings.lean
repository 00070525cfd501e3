import HitOs.NumberFormats

namespace HitOs

/-!
# Formats

`vsprintf` and `skip_atoi`, with the place in the format that they read.  Behind the NUL
of the format there is nothing to read.  The format is one to which nothing is stored, or
one in the memory that `vsprintf` stores to.
-/

namespace Formats

/-- The characters of a string, without the NUL at its end. -/
structure Format where
  chars : List Byte
  noNul : 0 ∉ chars

/-- `*fmt`, if it is a character of the format or its NUL. -/
def Format.read (format : Format) (fmt : Nat) : Option Byte :=
  (format.chars ++ [0])[fmt]?

/-- What is read is at most the NUL. -/
theorem Format.le_of_read
    {format : Format} {fmt : Nat} {c : Byte}
    (there : format.read fmt = some c) :
    fmt ≤ format.chars.length := by
  obtain ⟨inside, -⟩ := List.getElem?_eq_some_iff.mp there
  rw [List.length_append, List.length_singleton] at inside
  omega

/-- Where a format is read, and the place of its NUL. -/
structure Reader where
  last : Nat
  read : Nat → Option Byte
  inside : ∀ {fmt c}, read fmt = some c → fmt ≤ last

/-- A format to which nothing is stored. -/
def Format.reader (format : Format) : Reader where
  last := format.chars.length
  read := format.read
  inside := Format.le_of_read

/-- A format that has been stored at a place, up to where its NUL was. -/
def Format.readerIn (format : Format) (place : Nat) (memory : Nat → Byte) : Reader where
  last := format.chars.length
  read fmt :=
    if fmt ≤ format.chars.length then some (memory (place + fmt)) else none
  inside there := by
    split at there
    case isTrue inside => exact inside
    case isFalse => cases there

/-- The words behind the format, and what stands before the NUL behind a pointer. -/
structure Arguments where
  word : Nat → Word
  string : Word → List Byte

/-! ## Parts of a directive -/

/-- `is_digit` -/
def isDigit (c : Byte) : Bool :=
  char '0' ≤ c && c ≤ char '9'

/-- The flag of a character. -/
def flagOf (c : Byte) : Option Word :=
  if c = char '-' then some Flag.left
  else if c = char '+' then some Flag.plus
  else if c = char ' ' then some Flag.space
  else if c = char '#' then some Flag.special
  else if c = char '0' then some Flag.zeropad
  else none

/-- `h`, `l`, or `L` for integer fields. -/
def isQualifier (c : Byte) : Bool :=
  c == char 'h' || c == char 'l' || c == char 'L'

/-- The labels of the last `switch`. -/
inductive Conversion where
  | c
  | s
  | o
  | p
  | x
  | X
  | d
  | i
  | u
  | n
  | other
  deriving Repr, DecidableEq

/-- Where the last `switch` goes for a character. -/
def Conversion.of (c : Byte) : Conversion :=
  if c = char 'c' then .c
  else if c = char 's' then .s
  else if c = char 'o' then .o
  else if c = char 'p' then .p
  else if c = char 'x' then .x
  else if c = char 'X' then .X
  else if c = char 'd' then .d
  else if c = char 'i' then .i
  else if c = char 'u' then .u
  else if c = char 'n' then .n
  else .other

/-- How much of a directive has been read, and what it has said. -/
structure Directive where
  fmt : Nat
  args : Nat
  flags : Word
  fieldWidth : Word
  precision : Word

/-- How far `vsprintf` is, and what it has stored for `%n` through which pointers. -/
structure Progress where
  fmt : Nat
  args : Nat
  out : Output
  counts : List (Word × Word)

/-- `*ip = value` -/
def Output.store (ip value : Word) (out : Output) : Output where
  memory := ByteStrings.putLong value.toNat ip.toNat out.memory
  str := out.str

section Reading

variable (reader : Reader) (arguments : Arguments)

/-- `skip_atoi` from `i` on, and where it leaves the format. -/
def skipAtoi (fmt : Nat) (i : Word) : Option (Nat × Word) :=
  match _ : reader.read fmt with
  | none => none
  | some c =>
    if isDigit c then
      skipAtoi (fmt + 1) (i * 10 + c.setWidth 32 - (char '0').setWidth 32)
    else
      some (fmt, i)
termination_by reader.last + 1 - fmt
decreasing_by
  have inside := reader.inside ‹_›
  omega

/-- From `repeat` on. -/
def processFlags (fmt : Nat) (flags : Word) : Option (Nat × Word) :=
  match _ : reader.read (fmt + 1) with
  | none => none
  | some c =>
    match flagOf c with
    | some flag => processFlags (fmt + 1) (flags ||| flag)
    | none => some (fmt + 1, flags)
termination_by reader.last + 1 - fmt
decreasing_by
  have inside := reader.inside ‹_›
  omega

/-- A number that is written, or a star for an argument, and what they set. -/
def readSize
    (setNumber setArgument : Word → Directive → Directive)
    (directive : Directive) : Option Directive := do
  let c ← reader.read directive.fmt
  if isDigit c then
    let (fmt, number) ← skipAtoi reader directive.fmt 0
    some (setNumber number { directive with fmt := fmt })
  else if c = char '*' then
    -- the source does not go on behind the star
    some
      (setArgument (arguments.word directive.args)
        { directive with args := directive.args + 1 })
  else
    some directive

end Reading

/-- A negative width is one that is left justified. -/
def Directive.setWidth (width : Word) (directive : Directive) : Directive :=
  if width.slt 0 then
    { directive with fieldWidth := -width, flags := directive.flags ||| Flag.left }
  else
    { directive with fieldWidth := width }

section Sizes

variable (reader : Reader) (arguments : Arguments)

/-- Get the field width. -/
def getWidth : Directive → Option Directive :=
  readSize reader arguments
    (fun width directive => { directive with fieldWidth := width })
    Directive.setWidth

/-- The precision behind its dot. -/
def readPrecision : Directive → Option Directive :=
  readSize reader arguments
    (fun precision directive => { directive with precision := precision })
    (fun precision directive => { directive with precision := precision })

/-- Get the precision. -/
def getPrecision (directive : Directive) : Option Directive := do
  let c ← reader.read directive.fmt
  if c = char '.' then
    let directive ←
      readPrecision reader arguments { directive with fmt := directive.fmt + 1 }
    if directive.precision.slt 0 then
      some { directive with precision := 0 }
    else
      some directive
  else
    some directive

/-- Get the conversion qualifier, which nothing uses. -/
def getQualifier (directive : Directive) : Option Directive := do
  let c ← reader.read directive.fmt
  if isQualifier c then
    some { directive with fmt := directive.fmt + 1 }
  else
    some directive

end Sizes

/-! ## Conversions -/

/-- A word that is positive after it has been counted down. -/
theorem toInt_pred_of_pos {word : Word} (positive : (0 : Word).slt (word - 1)) :
    (word - 1 - 1).toInt = (word - 1).toInt - 1 :=
  toInt_pred positive

/-- `while (--field_width > 0) *str++ = ' '` -/
def padDown (fieldWidth : Word) (out : Output) : Word × Output :=
  if (0 : Word).slt (fieldWidth - 1) then
    padDown (fieldWidth - 1) (out.put (char ' '))
  else
    (fieldWidth - 1, out)
termination_by (fieldWidth - 1).toInt.toNat
decreasing_by
  have positive := BitVec.slt_iff_toInt_lt.mp ‹_›
  rw [toInt_pred_of_pos ‹_›]
  rw [toInt_zero] at positive
  omega

/-- `case 'c'` -/
def putChar (argument fieldWidth flags : Word) (out : Output) : Output :=
  let (fieldWidth, out) :=
    if has flags Flag.left then (fieldWidth, out) else padDown fieldWidth out
  let out := out.put (argument.setWidth 8)
  (padDown fieldWidth out).2

/-- `case 's'` -/
def putString
    (s : List Byte)
    (fieldWidth precision flags : Word)
    (out : Output) : Output :=
  let len := BitVec.ofNat 32 s.length
  let len :=
    if precision.slt 0 then len
    else if precision.slt len then precision
    else len
  let (fieldWidth, out) :=
    if has flags Flag.left then (fieldWidth, out)
    else padWhile (char ' ') len fieldWidth out
  let out := out.write (s.take len.toInt.toNat)
  (padWhile (char ' ') len fieldWidth out).2

/-- What a conversion with one argument does to the output. -/
def putArgument
    (conversion : Conversion)
    (arguments : Arguments)
    (directive : Directive)
    (out : Output) : Option Output :=
  let argument := arguments.word directive.args
  let width := directive.fieldWidth
  let precision := directive.precision
  let flags := directive.flags
  match conversion with
  | .c => some (putChar argument width flags out)
  | .s => some (putString (arguments.string argument) width precision flags out)
  | .o => number argument 8 width precision flags out
  | .p =>
    if width = -1 then
      number argument 16 8 precision (flags ||| Flag.zeropad) out
    else
      number argument 16 width precision flags out
  | .x => number argument 16 width precision (flags ||| Flag.small) out
  | .X => number argument 16 width precision flags out
  | .d => number argument 10 width precision (flags ||| Flag.sign) out
  | .i => number argument 10 width precision (flags ||| Flag.sign) out
  | .u => number argument 10 width precision flags out
  | .n => some out
  | .other => some out

/-- The last `switch`, for a buffer at `buf`. -/
def convert
    (reader : Reader)
    (arguments : Arguments)
    (buf : Nat)
    (directive : Directive)
    (progress : Progress) : Option Progress := do
  let c ← reader.read directive.fmt
  let conversion := Conversion.of c
  if conversion = .other then
    let out := if c = char '%' then progress.out else progress.out.put (char '%')
    if c = 0 then
      -- back to the last character, so that the loop goes on to the NUL
      some
        { progress with fmt := directive.fmt - 1, args := directive.args, out := out }
    else
      some
        { progress with fmt := directive.fmt, args := directive.args, out := out.put c }
  else
    let out ← putArgument conversion arguments directive progress.out
    let progress := { progress with fmt := directive.fmt, args := directive.args + 1 }
    if conversion = .n then
      let ip := arguments.word directive.args
      let count := BitVec.ofNat 32 (out.str - buf)
      some
        { progress with
          out := out.store ip count
          counts := progress.counts ++ [(ip, count)] }
    else
      some { progress with out := out }

/-- What is done at a `%`. -/
def direct
    (reader : Reader)
    (arguments : Arguments)
    (buf : Nat)
    (progress : Progress) : Option Progress := do
  let (fmt, flags) ← processFlags reader progress.fmt 0
  let begun : Directive :=
    { fmt := fmt
      args := progress.args
      flags := flags
      fieldWidth := -1
      precision := -1 }
  let sized ← getWidth reader arguments begun
  let precise ← getPrecision reader arguments sized
  let qualified ← getQualifier reader precise
  convert reader arguments buf qualified progress

/-- The body of the loop over the format. -/
def formatStep
    (reader : Reader)
    (arguments : Arguments)
    (buf : Nat)
    (c : Byte)
    (progress : Progress) : Option Progress :=
  if c = char '%' then
    direct reader arguments buf progress
  else
    some { progress with out := progress.out.put c }

/-- The loop over the format; none when the fuel is used up. -/
def formatLoop
    (reader : (Nat → Byte) → Reader)
    (arguments : Arguments)
    (buf : Nat) : Nat → Progress → Option Progress
  | 0, _ => none
  | fuel + 1, progress => do
      let here := reader progress.out.memory
      let c ← here.read progress.fmt
      if c = 0 then
        some progress
      else
        let done ← formatStep here arguments buf c progress
        formatLoop reader arguments buf fuel { done with fmt := done.fmt + 1 }

/--
What `vsprintf` returns, with the memory, where its NUL stands, and how many arguments it
has taken.
-/
structure Result where
  memory : Nat → Byte
  str : Nat
  returned : Word
  args : Nat
  counts : List (Word × Word)

/-- `vsprintf` of what a reader finds. -/
def vsprintfOf
    (reader : (Nat → Byte) → Reader)
    (arguments : Arguments)
    (buf : Nat)
    (memory : Nat → Byte)
    (fuel : Nat) : Option Result := do
  let last ←
    formatLoop reader arguments buf fuel
      { fmt := 0, args := 0, out := { memory := memory, str := buf }, counts := [] }
  some
    { memory := Function.update last.out.memory last.out.str 0
      str := last.out.str
      returned := BitVec.ofNat 32 (last.out.str - buf)
      args := last.args
      counts := last.counts }

/-- `vsprintf` of a format to which nothing is stored. -/
def vsprintf (format : Format) :=
  vsprintfOf fun _ => format.reader

/-- `vsprintf` of a format that stands in the memory. -/
def vsprintfIn (format : Format) (place : Nat) :=
  vsprintfOf (format.readerIn place)

end Formats

end HitOs
