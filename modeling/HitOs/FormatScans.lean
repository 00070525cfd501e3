import HitOs.FormatStrings

namespace HitOs

/-!
# How a format is read

What the code reads of a format depends on the characters that are left of it alone.  So
each part of a directive leaves a suffix of what it finds, and the whole format is read
up to its NUL and not beyond.
-/

namespace Formats

open ByteStrings (Holds fill_of_outside holds_iff holds_append holds_fill holds_singleton
  putLong_of_outside)

/-! ## What is left of a format -/

namespace Scan

/-- Behind the flags. -/
def flags (rest : List Byte) : List Byte :=
  rest.dropWhile fun c => (flagOf c).isSome

/-- How many arguments a width or a precision takes; a star is not passed over. -/
def stars (rest : List Byte) : Nat :=
  if rest.head? = some (char '*') then 1 else 0

/-- Behind the digits of a width or of a precision. -/
def size (rest : List Byte) : List Byte :=
  rest.dropWhile isDigit

/-- The arguments of a precision, and what is behind it. -/
def precision : List Byte → Nat × List Byte
  | [] => (0, [])
  | c :: rest => if c = char '.' then (stars rest, size rest) else (0, c :: rest)

/-- Behind the qualifier. -/
def qualifier : List Byte → List Byte
  | [] => []
  | c :: rest => if isQualifier c then rest else c :: rest

/-- The arguments of a conversion, and what is behind it. -/
def conversion : List Byte → Nat × List Byte
  | [] => (0, [])
  | c :: rest => (if Conversion.of c = .other then 0 else 1, rest)

/-- The arguments of a directive, and what is behind it. -/
def directive (rest : List Byte) : Nat × List Byte :=
  let sized := flags rest
  let precise := precision (size sized)
  let converted := conversion (qualifier precise.2)
  (stars sized + precise.1 + converted.1, converted.2)

variable {rest : List Byte}

theorem length_directive_le : (directive rest).2.length ≤ rest.length := by
  have flagged : (flags rest).length ≤ rest.length :=
    (List.dropWhile_suffix _).length_le
  have sized : (size (flags rest)).length ≤ (flags rest).length :=
    (List.dropWhile_suffix _).length_le
  have precise (rest : List Byte) : (precision rest).2.length ≤ rest.length := by
    cases rest with
    | nil => exact le_rfl
    | cons c rest =>
      rw [precision]
      split
      · exact (List.dropWhile_suffix _).length_le.trans (Nat.le_succ _)
      · exact le_rfl
  have qualified (rest : List Byte) : (qualifier rest).length ≤ rest.length := by
    cases rest with
    | nil => exact le_rfl
    | cons c rest =>
      rw [qualifier]
      split
      · exact Nat.le_succ _
      · exact le_rfl
  have converted (rest : List Byte) : (conversion rest).2.length ≤ rest.length := by
    cases rest with
    | nil => exact le_rfl
    | cons c rest => exact Nat.le_succ _
  calc
    (directive rest).2.length
      ≤ (qualifier (precision (size (flags rest))).2).length := converted _
    _ ≤ (precision (size (flags rest))).2.length := qualified _
    _ ≤ (size (flags rest)).length := precise _
    _ ≤ rest.length := sized.trans flagged

/-- How many arguments a format takes. -/
def takes : List Byte → Nat
  | [] => 0
  | c :: rest =>
    if c = char '%' then
      (directive rest).1 + takes (directive rest).2
    else
      takes rest
termination_by rest => rest.length
decreasing_by
  · exact Nat.lt_succ_of_le length_directive_le
  · exact Nat.lt_succ_self _

end Scan

/-! ## Reading -/

section Reading

variable {format : Format} {fmt : Nat} {c : Byte} {rest : List Byte}

/-- From a place in a format on, some characters are left. -/
structure Format.At (format : Format) (fmt : Nat) (rest : List Byte) : Prop where
  left : format.chars.drop fmt = rest
  inside : fmt ≤ format.chars.length

/-- At the end there is the NUL. -/
theorem Format.At.read_nil (here : format.At fmt []) :
    format.reader.read fmt = some 0 := by
  have last : fmt = format.chars.length :=
    le_antisymm here.inside (List.drop_eq_nil_iff.mp here.left)
  change format.read fmt = some 0
  unfold Format.read
  rw [last, List.getElem?_append_right le_rfl, Nat.sub_self]
  rfl

theorem Format.At.lt (here : format.At fmt (c :: rest)) : fmt < format.chars.length := by
  have length := congrArg List.length here.left
  rw [List.length_drop, List.length_cons] at length
  omega

theorem Format.At.read_cons (here : format.At fmt (c :: rest)) :
    format.reader.read fmt = some c := by
  have first := congrArg List.head? here.left
  rw [List.head?_drop] at first
  change format.read fmt = some c
  unfold Format.read
  rw [List.getElem?_append_left here.lt, first]
  rfl

theorem Format.At.ne_zero (here : format.At fmt (c :: rest)) : c ≠ 0 := by
  rintro rfl
  have member : 0 ∈ format.chars.drop fmt := by
    rw [here.left]
    exact List.mem_cons_self
  exact format.noNul (List.mem_of_mem_drop member)

theorem Format.At.next (here : format.At fmt (c :: rest)) : format.At (fmt + 1) rest := by
  refine ⟨?_, here.lt⟩
  rw [← List.drop_drop, here.left]
  rfl

theorem skipAtoi_of_read {i : Word} (there : format.reader.read fmt = some c) :
    skipAtoi format.reader fmt i =
      if isDigit c then
        skipAtoi format.reader (fmt + 1) (i * 10 + c.setWidth 32 - (char '0').setWidth 32)
      else
        some (fmt, i) := by
  rw [skipAtoi]
  split
  case h_1 absent =>
    rw [there] at absent
    cases absent
  case h_2 other read =>
    rw [there] at read
    cases read
    rfl

theorem processFlags_of_read {flags : Word} (there : format.reader.read (fmt + 1) = some c) :
    processFlags format.reader fmt flags =
      match flagOf c with
      | some flag => processFlags format.reader (fmt + 1) (flags ||| flag)
      | none => some (fmt + 1, flags) := by
  rw [processFlags]
  split
  case h_1 absent =>
    rw [there] at absent
    cases absent
  case h_2 other read =>
    rw [there] at read
    cases read
    rfl

/-- `skip_atoi` stops behind the digits. -/
theorem skipAtoi_spec {i : Word} (here : format.At fmt rest) :
    ∃ next value, skipAtoi format.reader fmt i = some (next, value) ∧
      format.At next (Scan.size rest) := by
  induction rest generalizing fmt i with
  | nil =>
    rw [skipAtoi_of_read here.read_nil]
    exact ⟨fmt, i, rfl, here⟩
  | cons c rest inductionHypothesis =>
    rw [skipAtoi_of_read here.read_cons]
    unfold Scan.size
    rw [List.dropWhile_cons]
    split
    case isTrue => exact inductionHypothesis here.next
    case isFalse => exact ⟨fmt, i, rfl, here⟩

/-- The flags are read up to the first other character. -/
theorem processFlags_spec {flags : Word} (here : format.At (fmt + 1) rest) :
    ∃ next after, processFlags format.reader fmt flags = some (next, after) ∧
      format.At next (Scan.flags rest) := by
  induction rest generalizing fmt flags with
  | nil =>
    rw [processFlags_of_read here.read_nil]
    exact ⟨fmt + 1, flags, rfl, here⟩
  | cons c rest inductionHypothesis =>
    rw [processFlags_of_read here.read_cons]
    unfold Scan.flags
    rw [List.dropWhile_cons]
    cases isFlag : flagOf c with
    | none => exact ⟨fmt + 1, flags, rfl, here⟩
    | some flag => exact inductionHypothesis here.next

/-! A size begins with a digit or with a star, or there is none. -/

theorem stars_of_digit (digit : isDigit c = true) : Scan.stars (c :: rest) = 0 := by
  refine if_neg fun star => ?_
  rw [Option.some.inj star] at digit
  cases digit

theorem stars_of_star (star : c = char '*') : Scan.stars (c :: rest) = 1 :=
  if_pos (congrArg some star)

theorem stars_of_none (noStar : c ≠ char '*') : Scan.stars (c :: rest) = 0 :=
  if_neg fun star => noStar (Option.some.inj star)

theorem size_of_none (noDigit : ¬ isDigit c = true) :
    Scan.size (c :: rest) = c :: rest :=
  List.dropWhile_cons_of_neg noDigit

/-- Neither of what a size sets moves on in the format or in the arguments. -/
structure Stays (set : Word → Directive → Directive) : Prop where
  fmt : ∀ word directive, (set word directive).fmt = directive.fmt
  args : ∀ word directive, (set word directive).args = directive.args

/-- A size takes an argument for a star, and is passed over if it is a number. -/
theorem readSize_spec
    (arguments : Arguments)
    {setNumber setArgument : Word → Directive → Directive} {directive : Directive}
    (numberStays : Stays setNumber)
    (argumentStays : Stays setArgument)
    (here : format.At directive.fmt rest) :
    ∃ sized,
      readSize format.reader arguments setNumber setArgument directive = some sized ∧
      sized.args = directive.args + Scan.stars rest ∧
      format.At sized.fmt (Scan.size rest) := by
  unfold readSize
  cases rest with
  | nil =>
    rw [here.read_nil]
    exact ⟨directive, rfl, rfl, here⟩
  | cons c rest =>
    rw [here.read_cons, Option.bind_eq_bind, Option.bind_some]
    by_cases digit : isDigit c = true
    · obtain ⟨next, number, skipped, there⟩ := skipAtoi_spec (i := 0) here
      rw [if_pos digit, skipped, stars_of_digit digit]
      refine ⟨_, rfl, numberStays.args _ _, ?_⟩
      rw [numberStays.fmt]
      exact there
    · rw [if_neg digit, size_of_none digit]
      by_cases star : c = char '*'
      · rw [if_pos star, stars_of_star star]
        refine ⟨_, rfl, argumentStays.args _ _, ?_⟩
        rw [argumentStays.fmt]
        exact here
      · rw [if_neg star, stars_of_none star]
        exact ⟨directive, rfl, rfl, here⟩

theorem stays_setWidth : Stays Directive.setWidth where
  fmt word directive := by
    unfold Directive.setWidth
    split <;> rfl
  args word directive := by
    unfold Directive.setWidth
    split <;> rfl

theorem getWidth_spec
    (arguments : Arguments)
    {directive : Directive}
    (here : format.At directive.fmt rest) :
    ∃ sized, getWidth format.reader arguments directive = some sized ∧
      sized.args = directive.args + Scan.stars rest ∧
      format.At sized.fmt (Scan.size rest) :=
  readSize_spec arguments ⟨fun _ _ => rfl, fun _ _ => rfl⟩ stays_setWidth here

theorem readPrecision_spec
    (arguments : Arguments)
    {directive : Directive}
    (here : format.At directive.fmt rest) :
    ∃ precise, readPrecision format.reader arguments directive = some precise ∧
      precise.args = directive.args + Scan.stars rest ∧
      format.At precise.fmt (Scan.size rest) :=
  readSize_spec arguments ⟨fun _ _ => rfl, fun _ _ => rfl⟩
    ⟨fun _ _ => rfl, fun _ _ => rfl⟩ here

theorem getPrecision_spec
    (arguments : Arguments)
    {directive : Directive}
    (here : format.At directive.fmt rest) :
    ∃ precise, getPrecision format.reader arguments directive = some precise ∧
      precise.args = directive.args + (Scan.precision rest).1 ∧
      format.At precise.fmt (Scan.precision rest).2 := by
  unfold getPrecision
  cases rest with
  | nil =>
    rw [here.read_nil]
    exact ⟨directive, rfl, rfl, here⟩
  | cons c rest =>
    rw [here.read_cons, Option.bind_eq_bind, Option.bind_some, Scan.precision]
    by_cases dot : c = char '.'
    · let behind := { directive with fmt := directive.fmt + 1 }
      have atBehind : format.At behind.fmt rest := here.next
      obtain ⟨precise, read, args, there⟩ := readPrecision_spec arguments atBehind
      rw [if_pos dot, if_pos dot, read, Option.bind_eq_bind, Option.bind_some]
      split <;> exact ⟨_, rfl, args, there⟩
    · rw [if_neg dot, if_neg dot]
      exact ⟨directive, rfl, rfl, here⟩

/-- A qualifier is passed over. -/
theorem getQualifier_spec
    {directive : Directive}
    (here : format.At directive.fmt rest) :
    ∃ qualified, getQualifier format.reader directive = some qualified ∧
      qualified.args = directive.args ∧
      format.At qualified.fmt (Scan.qualifier rest) := by
  unfold getQualifier
  cases rest with
  | nil =>
    rw [here.read_nil]
    exact ⟨directive, rfl, rfl, here⟩
  | cons c rest =>
    rw [here.read_cons, Option.bind_eq_bind, Option.bind_some, Scan.qualifier]
    split
    case isTrue => exact ⟨_, rfl, rfl, here.next⟩
    case isFalse => exact ⟨directive, rfl, rfl, here⟩

end Reading

/-! ## Writing -/

section Writing

variable {fieldWidth precision flags argument : Word} {out : Output} {s : List Byte}

theorem extends_padDown : (padDown fieldWidth out).2.Extends out := by
  induction fieldWidth, out using padDown.induct with
  | case1 fieldWidth out more inductionHypothesis =>
    rw [padDown, if_pos more]
    exact inductionHypothesis.trans Output.extends_put
  | case2 fieldWidth out done =>
    rw [padDown, if_neg done]
    exact Output.extends_refl

theorem extends_putChar : (putChar argument fieldWidth flags out).Extends out := by
  unfold putChar
  dsimp only
  refine extends_padDown.trans (Output.extends_put.trans ?_)
  split
  · exact Output.extends_refl
  · exact extends_padDown

theorem extends_putString : (putString s fieldWidth precision flags out).Extends out := by
  unfold putString
  dsimp only
  refine extends_padWhile.trans (Output.extends_write.trans ?_)
  split
  · exact Output.extends_refl
  · exact extends_padWhile

theorem putArgument_spec
    (conversion : Conversion)
    (arguments : Arguments)
    (directive : Directive) :
    ∃ after, putArgument conversion arguments directive out = some after ∧
      after.Extends out := by
  have octal : 2 ≤ (8 : Word).toNat ∧ (8 : Word).toNat ≤ 36 := by decide
  have decimal : 2 ≤ (10 : Word).toNat ∧ (10 : Word).toNat ≤ 36 := by decide
  have hexadecimal : 2 ≤ (16 : Word).toNat ∧ (16 : Word).toNat ≤ 36 := by decide
  cases conversion with
  | c => exact ⟨_, rfl, extends_putChar⟩
  | s => exact ⟨_, rfl, extends_putString⟩
  | o => exact extends_number octal
  | p =>
    unfold putArgument
    dsimp only
    split <;> exact extends_number hexadecimal
  | x => exact extends_number hexadecimal
  | X => exact extends_number hexadecimal
  | d => exact extends_number decimal
  | i => exact extends_number decimal
  | u => exact extends_number decimal
  | n => exact ⟨_, rfl, Output.extends_refl⟩
  | other => exact ⟨_, rfl, Output.extends_refl⟩

/-- An address that a stored word misses. -/
def Misses (address : Nat) (ip : Word) : Prop :=
  address < ip.toNat ∨ ip.toNat + 4 ≤ address

/--
A text has been written and words have been stored, and nothing else has changed.  The
text stands there unless a word has been stored into it.
-/
structure Output.Writes
    (out after : Output)
    (text : List Byte)
    (stored : List Word) : Prop where
  str : after.str = out.str + text.length
  outside :
    ∀ address, (address < out.str ∨ after.str ≤ address) →
      (∀ ip ∈ stored, Misses address ip) → after.memory address = out.memory address
  holds :
    (∀ ip ∈ stored, ∀ address, out.str ≤ address → address < after.str →
      Misses address ip) → Holds after.memory out.str text

theorem writes_of_extends {after : Output} (extended : after.Extends out) :
    ∃ text, out.Writes after text [] := by
  obtain ⟨text, rfl⟩ := extended
  refine ⟨text, Output.str_write, fun address outside _ => ?_, fun _ => ?_⟩
  · rw [Output.str_write] at outside
    rw [Output.memory_write]
    exact fill_of_outside outside
  · rw [Output.memory_write]
    exact holds_fill

theorem writes_store (ip value : Word) : out.Writes (out.store ip value) [] [ip] where
  str := rfl
  outside _ _ missed :=
    putLong_of_outside (missed ip List.mem_cons_self)
  holds _ := rfl

/-- One text is written behind another. -/
theorem Output.Writes.trans
    {between after : Output} {text text' : List Byte} {stored stored' : List Word}
    (first : out.Writes between text stored)
    (second : between.Writes after text' stored') :
    out.Writes after (text ++ text') (stored ++ stored') := by
  have middle := first.str
  have last := second.str
  refine ⟨?_, fun address outside missed => ?_, fun missed => ?_⟩
  · rw [last, middle, List.length_append, Nat.add_assoc]
  · rw [second.outside address (by omega)
      fun ip member => missed ip (List.mem_append_right _ member)]
    exact first.outside address (by omega)
      fun ip member => missed ip (List.mem_append_left _ member)
  · refine holds_append.mpr ⟨?_, ?_⟩
    · have before := first.holds fun ip member address low high =>
        missed ip (List.mem_append_left _ member) address low (by omega)
      refine before.congr fun address low high => ?_
      refine second.outside address (.inl (by omega)) fun ip member => ?_
      exact missed ip (List.mem_append_right _ member) address low (by omega)
    · rw [← middle]
      refine second.holds fun ip member address low high => ?_
      exact missed ip (List.mem_append_right _ member) address (by omega) high

/-- What has been written and stored between two points of a run. -/
def Progress.Wrote (before after : Progress) : Prop :=
  ∃ text stored,
    after.counts = before.counts ++ stored ∧
      before.out.Writes after.out text (stored.map Prod.fst)

theorem wrote_of_extends
    {before after : Progress}
    (counts : after.counts = before.counts)
    (extended : after.out.Extends before.out) :
    before.Wrote after := by
  obtain ⟨text, writes⟩ := writes_of_extends extended
  exact ⟨text, [], counts.trans (List.append_nil _).symm, writes⟩

theorem Progress.Wrote.trans
    {before between after : Progress}
    (first : before.Wrote between)
    (second : between.Wrote after) :
    before.Wrote after := by
  obtain ⟨text, stored, counts, writes⟩ := first
  obtain ⟨text', stored', counts', writes'⟩ := second
  refine ⟨text ++ text', stored ++ stored', ?_, ?_⟩
  · rw [counts', counts, List.append_assoc]
  · rw [List.map_append]
    exact writes.trans writes'

/-- A format at a place is spared: neither the text from `start` on nor a word meets it. -/
structure Progress.Spares
    (last : Progress)
    (format : Format)
    (place start : Nat) : Prop where
  text : place + format.chars.length < start ∨ last.out.str < place
  counts :
    ∀ stored ∈ last.counts, ∀ address, place ≤ address →
      address ≤ place + format.chars.length → Misses address stored.1

/-- What is spared in the end has been spared on the way. -/
theorem Progress.Spares.kept
    {format : Format} {before after last : Progress} {place : Nat}
    (spares : last.Spares format place before.out.str)
    (first : before.Wrote after)
    (second : after.Wrote last)
    (there : Holds before.out.memory place (format.chars ++ [0])) :
    Holds after.out.memory place (format.chars ++ [0]) ∧
      last.Spares format place after.out.str := by
  obtain ⟨text, stored, counts, writes⟩ := first
  obtain ⟨text', stored', counts', writes'⟩ := second
  have middle := writes.str
  have ends := writes'.str
  have apart := spares.text
  refine ⟨there.congr fun address low high => ?_, ?_, spares.counts⟩
  · rw [List.length_append, List.length_singleton] at high
    refine writes.outside address (by omega) fun ip member => ?_
    obtain ⟨pair, inside, rfl⟩ := List.mem_map.mp member
    refine spares.counts pair ?_ address low (by omega)
    rw [counts', counts]
    exact List.mem_append_left _ (List.mem_append_right _ inside)
  · omega

end Writing

/-! ## Directives -/

section Directives

variable {format : Format} {rest : List Byte}

/--
What a step of the loop does to its progress: it takes some arguments, writes something,
and leaves the rest of the format for the next step.
-/
structure Advances
    (format : Format)
    (before after : Progress)
    (taken : Nat)
    (rest : List Byte) : Prop where
  args : after.args = before.args + taken
  wrote : before.Wrote after
  left : format.At (after.fmt + 1) rest

/-- After the conversion, `++fmt` comes to what is behind it or to the NUL. -/
theorem convert_spec
    (arguments : Arguments)
    (buf : Nat)
    (progress : Progress)
    {directive : Directive}
    (nonempty : format.chars ≠ [])
    (here : format.At directive.fmt rest) :
    ∃ after, convert format.reader arguments buf directive progress = some after ∧
      after.args = directive.args + (Scan.conversion rest).1 ∧
      progress.Wrote after ∧
      format.At (after.fmt + 1) (Scan.conversion rest).2 := by
  unfold convert
  cases rest with
  | nil =>
    rw [here.read_nil]
    refine ⟨_, rfl, rfl, wrote_of_extends rfl Output.extends_put, ?_⟩
    have length := List.length_pos_of_ne_nil nonempty
    have last := List.drop_eq_nil_iff.mp here.left
    have back : directive.fmt - 1 + 1 = directive.fmt := by omega
    rw [back]
    exact here
  | cons c rest =>
    rw [here.read_cons, Option.bind_eq_bind, Option.bind_some, Scan.conversion]
    dsimp only
    split
    case isTrue unknown =>
      rw [if_neg here.ne_zero]
      refine ⟨_, rfl, rfl, ?_, here.next⟩
      refine wrote_of_extends rfl (Output.extends_put.trans ?_)
      split
      · exact Output.extends_refl
      · exact Output.extends_put
    case isFalse known =>
      obtain ⟨out, put, written⟩ :=
        putArgument_spec (Conversion.of c) arguments directive
      rw [put, Option.bind_eq_bind, Option.bind_some]
      split
      case isTrue counts =>
        refine ⟨_, rfl, rfl, ?_, here.next⟩
        obtain ⟨text, writes⟩ := writes_of_extends written
        exact ⟨_, [_], rfl, writes.trans (writes_store _ _)⟩
      case isFalse =>
        exact ⟨_, rfl, rfl, wrote_of_extends rfl written, here.next⟩

/-- A directive is read as far as its characters go. -/
theorem direct_spec
    (arguments : Arguments)
    (buf : Nat)
    {progress : Progress}
    (here : format.At progress.fmt (char '%' :: rest)) :
    ∃ after, direct format.reader arguments buf progress = some after ∧
      Advances format progress after (Scan.directive rest).1 (Scan.directive rest).2 := by
  have nonempty : format.chars ≠ [] := by
    intro absent
    have below := here.lt
    rw [absent] at below
    cases below
  unfold direct
  obtain ⟨next, flags, flagged, atSize⟩ := processFlags_spec here.next
  rw [flagged, Option.bind_eq_bind, Option.bind_some]
  dsimp only
  let begun : Directive := ⟨next, progress.args, flags, -1, -1⟩
  have atBegun : format.At begun.fmt (Scan.flags rest) := atSize
  obtain ⟨sized, isSized, sizedArgs, atPrecision⟩ := getWidth_spec arguments atBegun
  obtain ⟨precise, isPrecise, preciseArgs, atQualifier⟩ :=
    getPrecision_spec arguments atPrecision
  obtain ⟨qualified, isQualified, qualifiedArgs, atConversion⟩ :=
    getQualifier_spec atQualifier
  obtain ⟨after, converted, args, out, atNext⟩ :=
    convert_spec arguments buf progress nonempty atConversion
  rw [isSized, Option.bind_eq_bind, Option.bind_some, isPrecise, Option.bind_some,
    isQualified, Option.bind_some]
  refine ⟨after, converted, ?_, out, atNext⟩
  have start : begun.args = progress.args := rfl
  rw [args, qualifiedArgs, preciseArgs, sizedArgs, start, Nat.add_assoc, Nat.add_assoc,
    ← Nat.add_assoc (Scan.stars _)]
  rfl

/-- A step of the loop does what is next in the format. -/
theorem formatStep_spec
    (arguments : Arguments)
    (buf : Nat)
    {progress : Progress} {c : Byte}
    (here : format.At progress.fmt (c :: rest)) :
    ∃ after taken left,
      formatStep format.reader arguments buf c progress = some after ∧
      Advances format progress after taken left ∧
      left.length ≤ rest.length ∧
      Scan.takes (c :: rest) = taken + Scan.takes left := by
  unfold formatStep
  rw [Scan.takes]
  by_cases percent : c = char '%'
  · subst percent
    obtain ⟨after, directed, advances⟩ := direct_spec arguments buf here
    rw [if_pos rfl, if_pos rfl]
    exact ⟨after, _, _, directed, advances, Scan.length_directive_le, rfl⟩
  · rw [if_neg percent, if_neg percent]
    refine ⟨_, 0, rest, rfl, ⟨rfl, ?_, here.next⟩, le_rfl, ?_⟩
    · exact wrote_of_extends rfl Output.extends_put
    rw [Nat.zero_add]

/-- While nothing is stored to a format it reads as at first. -/
theorem readerIn_eq
    {memory : Nat → Byte} {place : Nat}
    (there : Holds memory place (format.chars ++ [0])) :
    format.readerIn place memory = format.reader := by
  have same :
      (fun fmt =>
        if fmt ≤ format.chars.length then some (memory (place + fmt)) else none) =
        format.read := by
    funext fmt
    unfold Format.read
    have length : (format.chars ++ [0]).length = format.chars.length + 1 := by
      rw [List.length_append, List.length_singleton]
    split
    case isTrue inside =>
      have below : fmt < (format.chars ++ [0]).length := by omega
      rw [holds_iff.mp there fmt below, List.getElem?_eq_getElem below]
    case isFalse outside =>
      rw [List.getElem?_eq_none (by omega)]
  unfold Format.readerIn Format.reader
  congr 1

/--
With enough fuel the loop comes to the NUL, and it does the same in a memory where the
format is spared.
-/
theorem formatLoop_spec
    (arguments : Arguments)
    (buf : Nat)
    {fuel : Nat} {progress : Progress}
    (enough : rest.length < fuel)
    (here : format.At progress.fmt rest) :
    ∃ last,
      formatLoop (fun _ => format.reader) arguments buf fuel progress = some last ∧
      last.args = progress.args + Scan.takes rest ∧
      progress.Wrote last ∧
      ∀ place, Holds progress.out.memory place (format.chars ++ [0]) →
        last.Spares format place progress.out.str →
          formatLoop (format.readerIn place) arguments buf fuel progress =
            some last := by
  induction fuel generalizing progress rest with
  | zero => cases enough
  | succ fuel inductionHypothesis =>
    cases rest with
    | nil =>
      have looped (reader : (Nat → Byte) → Reader)
          (same : reader progress.out.memory = format.reader) :
          formatLoop reader arguments buf (fuel + 1) progress = some progress := by
        rw [formatLoop, same, here.read_nil]
        rfl
      rw [Scan.takes]
      exact ⟨progress, looped _ rfl, rfl, wrote_of_extends rfl Output.extends_refl,
        fun place there _ => looped _ (readerIn_eq there)⟩
    | cons c rest =>
      obtain ⟨after, taken, left, stepped, advances, shorter, takes⟩ :=
        formatStep_spec arguments buf here
      rw [List.length_cons] at enough
      let next := { after with fmt := after.fmt + 1 }
      have goesOn (reader : (Nat → Byte) → Reader)
          (same : reader progress.out.memory = format.reader) :
          formatLoop reader arguments buf (fuel + 1) progress =
            formatLoop reader arguments buf fuel next := by
        rw [formatLoop, same, here.read_cons, Option.bind_eq_bind,
          Option.bind_some, if_neg here.ne_zero, stepped, Option.bind_eq_bind,
          Option.bind_some]
      have enoughLeft : left.length < fuel := by omega
      have atNext : format.At next.fmt left := advances.left
      obtain ⟨last, looped, args, wrote, spared⟩ :=
        inductionHypothesis enoughLeft atNext
      have nextArgs : next.args = progress.args + taken := advances.args
      have nextWrote : progress.Wrote next := advances.wrote
      refine ⟨last, (goesOn _ rfl).trans looped, ?_, nextWrote.trans wrote, ?_⟩
      · rw [args, takes, nextArgs, Nat.add_assoc]
      · intro place there spares
        obtain ⟨kept, left⟩ := spares.kept nextWrote wrote there
        exact (goesOn _ (readerIn_eq there)).trans (spared place kept left)

/-- More fuel changes nothing. -/
theorem formatLoop_mono
    {reader : (Nat → Byte) → Reader} {arguments : Arguments} {buf fuel more : Nat}
    {progress last : Progress}
    (looped : formatLoop reader arguments buf fuel progress = some last)
    (atLeast : fuel ≤ more) :
    formatLoop reader arguments buf more progress = some last := by
  induction fuel generalizing progress more with
  | zero => cases looped
  | succ fuel inductionHypothesis =>
    obtain ⟨more, rfl⟩ := Nat.exists_eq_add_of_le' (Nat.le_of_add_left_le atLeast)
    rw [formatLoop] at looped ⊢
    obtain ⟨c, read, rest⟩ := Option.bind_eq_some_iff.mp looped
    rw [read, Option.bind_eq_bind, Option.bind_some]
    split at rest
    case isTrue zero => rw [if_pos zero, rest]
    case isFalse goesOn =>
      obtain ⟨after, stepped, looped⟩ := Option.bind_eq_some_iff.mp rest
      rw [if_neg goesOn, stepped, Option.bind_eq_bind, Option.bind_some]
      exact inductionHypothesis looped (Nat.le_of_succ_le_succ atLeast)

end Directives

/-! ## Whole formats -/

section Whole

variable {format : Format} {arguments : Arguments} {buf place : Nat}
variable {memory : Nat → Byte} {result : Result}

/-- `vsprintf` returns for a format to which nothing is stored. -/
def Returns
    (format : Format)
    (arguments : Arguments)
    (buf : Nat)
    (memory : Nat → Byte)
    (result : Result) : Prop :=
  ∀ fuel, format.chars.length < fuel →
    vsprintf format arguments buf memory fuel = some result

/--
It returns for a format that stands in the memory, and has read nothing beyond the place
where its NUL was.
-/
def ReturnsIn
    (format : Format)
    (place : Nat)
    (arguments : Arguments)
    (buf : Nat)
    (memory : Nat → Byte)
    (result : Result) : Prop :=
  ∀ fuel, format.chars.length < fuel →
    vsprintfIn format place arguments buf memory fuel = some result

/--
The text of a result stands at `buf`, with a NUL behind it, and nothing else has changed
but the words that `%n` stores.
-/
structure Result.Prints
    (result : Result)
    (buf : Nat)
    (memory : Nat → Byte)
    (text : List Byte) : Prop where
  holds : Holds result.memory buf (text ++ [0])
  outside :
    ∀ address, address < buf ∨ buf + text.length < address →
      (∀ stored ∈ result.counts, Misses address stored.1) →
        result.memory address = memory address
  returned : result.returned = BitVec.ofNat 32 text.length

/-- The text misses the format, and what `%n` stores misses both. -/
structure Result.Apart
    (result : Result)
    (format : Format)
    (place buf : Nat) : Prop where
  text : place + format.chars.length < buf ∨ result.str < place
  format :
    ∀ stored ∈ result.counts, ∀ address, place ≤ address →
      address ≤ place + format.chars.length → Misses address stored.1
  counts :
    ∀ stored ∈ result.counts, ∀ address, buf ≤ address → address ≤ result.str →
      Misses address stored.1

/-- The end of `vsprintf`: a NUL behind what has been written. -/
def Progress.finish (buf : Nat) (last : Progress) : Result where
  memory := Function.update last.out.memory last.out.str 0
  str := last.out.str
  returned := BitVec.ofNat 32 (last.out.str - buf)
  args := last.args
  counts := last.counts

theorem prints_of_wrote
    {start last : Progress}
    (wrote : start.Wrote last)
    (none : start.counts = [])
    (apart : (last.finish start.out.str).Apart format place start.out.str) :
    ∃ text,
      (last.finish start.out.str).Prints start.out.str start.out.memory text := by
  obtain ⟨text, stored, counts, writes⟩ := wrote
  rw [none, List.nil_append] at counts
  have listed : stored = (last.finish start.out.str).counts := counts.symm
  have str := writes.str
  refine ⟨text, holds_append.mpr ⟨?_, ?_⟩, fun address outside missed => ?_, ?_⟩
  · have written := writes.holds fun ip member address low high => by
      obtain ⟨pair, inside, rfl⟩ := List.mem_map.mp member
      exact apart.counts pair (listed ▸ inside) address low (Nat.le_of_lt high)
    refine written.congr fun address low high => ?_
    exact Function.update_of_ne (by omega) _ _
  · rw [holds_singleton, ← str]
    exact Function.update_self _ _ _
  · change Function.update last.out.memory last.out.str 0 address = _
    rw [Function.update_of_ne (by omega)]
    refine writes.outside address (by omega) fun ip member => ?_
    obtain ⟨pair, inside, rfl⟩ := List.mem_map.mp member
    exact missed pair (listed ▸ inside)
  · change BitVec.ofNat 32 (last.out.str - start.out.str) = _
    rw [str, Nat.add_sub_cancel_left]

/-- The result of a format, and how many arguments it has taken. -/
theorem vsprintf_spec
    (format : Format)
    (arguments : Arguments)
    (buf : Nat)
    (memory : Nat → Byte) :
    ∃ result, Returns format arguments buf memory result ∧
      result.args = Scan.takes format.chars ∧
      ∀ place, Holds memory place (format.chars ++ [0]) →
        result.Apart format place buf →
          ReturnsIn format place arguments buf memory result ∧
            ∃ text, result.Prints buf memory text := by
  let start : Progress := ⟨0, 0, ⟨memory, buf⟩, []⟩
  have atStart : format.At start.fmt format.chars := ⟨rfl, Nat.zero_le _⟩
  obtain ⟨last, looped, args, wrote, spared⟩ :=
    formatLoop_spec arguments buf (Nat.lt_succ_self _) atStart
  have finished
      {reader : (Nat → Byte) → Reader}
      (looped :
        formatLoop reader arguments buf (format.chars.length + 1) start = some last)
      (fuel : Nat)
      (enough : format.chars.length < fuel) :
      vsprintfOf reader arguments buf memory fuel = some (last.finish buf) := by
    unfold vsprintfOf
    rw [formatLoop_mono looped enough]
    rfl
  refine ⟨last.finish buf, finished looped, args.trans (Nat.zero_add _), ?_⟩
  intro place there apart
  refine ⟨finished (spared place there ⟨apart.text, apart.format⟩), ?_⟩
  exact prints_of_wrote wrote rfl apart

/--
For every format that stands in the memory, and all arguments with which nothing is stored
to it, `vsprintf` returns without reading beyond its NUL, and has written a text from
`buf` on, with a NUL behind it, that is as long as it says.
-/
theorem vsprintf_returns
    (format : Format)
    (arguments : Arguments)
    (buf place : Nat)
    (memory : Nat → Byte)
    (there : Holds memory place (format.chars ++ [0]))
    (apart :
      ∀ result, Returns format arguments buf memory result →
        result.Apart format place buf) :
    ∃ result text,
      ReturnsIn format place arguments buf memory result ∧
      result.Prints buf memory text := by
  obtain ⟨result, returns, -, spared⟩ := vsprintf_spec format arguments buf memory
  obtain ⟨returnsIn, text, prints⟩ := spared place there (apart result returns)
  exact ⟨result, text, returnsIn, prints⟩

/-- Where a format has been stored, with nothing else there. -/
def memoryOf (format : Format) (place : Nat) : Nat → Byte :=
  Ring.fill (format.chars ++ [0]) place fun _ => 0

/-- A number, and then the count of what has been written. -/
def numberAndCount : Format :=
  ⟨['%', 'd', '%', 'n'].map char, by decide⟩

/-- The count is stored at 100. -/
def countAt100 : Arguments :=
  ⟨fun index => if index = 0 then 42 else 100, fun _ => []⟩

theorem vsprintf_returns_count :
    ∃ result text,
      ReturnsIn numberAndCount 200 countAt100 0 (memoryOf numberAndCount 200)
        result ∧
      result.Prints 0 (memoryOf numberAndCount 200) text := by
  refine vsprintf_returns numberAndCount countAt100 0 200 _ holds_fill ?_
  intro result returns
  have counted :
      (vsprintf numberAndCount countAt100 0 (memoryOf numberAndCount 200) 5).map
          (fun result => (result.str, result.counts)) =
        some (2, [(100, 2)]) := by
    decide +kernel
  rw [returns 5 (by decide), Option.map_some, Option.some_inj, Prod.mk.injEq] at counted
  obtain ⟨str, counts⟩ := counted
  refine ⟨.inr (by omega), ?_, ?_⟩
  · intro stored member address low high
    rw [counts, List.mem_singleton] at member
    rw [member]
    exact .inr (show 104 ≤ address by omega)
  · intro stored member address low high
    rw [counts, List.mem_singleton] at member
    rw [member]
    exact .inl (show address < 100 by omega)

/-- The count is stored over the NUL of the format. -/
def countAtNul : Arguments :=
  ⟨fun _ => 203, fun _ => []⟩

/-- `%n` can store over the NUL of a format, and then more is read. -/
theorem nul_overwritten :
    ¬∀ (format : Format) (arguments : Arguments) (buf place : Nat)
        (memory : Nat → Byte),
      Holds memory place (format.chars ++ [0]) →
        ∃ result text,
          ReturnsIn format place arguments buf memory result ∧
          result.Prints buf memory text := by
  intro always
  let counting : Format := ⟨['a', '%', 'n'].map char, by decide⟩
  obtain ⟨result, -, returns, -⟩ :=
    always counting countAtNul 0 200 (memoryOf counting 200) holds_fill
  have overrun :
      (vsprintfIn counting 200 countAtNul 0 (memoryOf counting 200) 9).isNone =
        true := by
    decide +kernel
  rw [returns 9 (by decide)] at overrun
  cases overrun

end Whole

end Formats

end HitOs
