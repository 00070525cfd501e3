import HitOs.FormatScans

namespace HitOs

/-!
# Widths and precisions that are arguments

A directive whose width or precision is a star, against the one with the number written
out.  `vsprintf` does not go on behind a star, so that a directive takes one argument in
either case.
-/

namespace Formats

/-! ## Directives as they are written -/

/-- A number in a format. -/
def decimal (n : Nat) : List Byte :=
  Numeral.write (symbols false) 0 (Numeral.digits 10 n)

/-- A width: a number, or a star with its argument. -/
inductive Width where
  | number (value : Nat) (positive : 0 < value)
  | star (argument : Word) (nonzero : argument ≠ 0)

/-- A precision: a number, or a star with its argument. -/
inductive Precision where
  | number (value : Nat)
  | star (argument : Word) (natural : 0 ≤ argument.toInt)

/-- The characters of a directive with an argument. -/
structure Request where
  flags : List Byte
  width : Option Width
  precision : Option Precision
  qualifier : Option Byte
  conversion : Byte
  areFlags : ∀ c ∈ flags, (flagOf c).isSome = true
  isQualifier : ∀ c ∈ qualifier, isQualifier c = true
  isConversion : Conversion.of conversion ≠ .other

namespace Width

def chars : Width → List Byte
  | number value _ => decimal value
  | star _ _ => [char '*']

def stars : Width → List Word
  | number _ _ => []
  | star argument _ => [argument]

/-- The flag that stands for the sign of the argument. -/
def flags : Width → List Byte
  | number _ _ => []
  | star argument _ => if argument.slt 0 then [char '-'] else []

theorem natAbs_pos {argument : Word} (nonzero : argument ≠ 0) :
    0 < argument.toInt.natAbs := by
  rw [Int.natAbs_pos]
  exact fun zero => nonzero (BitVec.eq_of_toInt_eq zero)

/-- The number instead of the star. -/
def written : Width → Width
  | number value positive => number value positive
  | star argument isSome => number argument.toInt.natAbs (natAbs_pos isSome)

end Width

namespace Precision

/-- With the dot in front. -/
def chars : Precision → List Byte
  | number value => char '.' :: decimal value
  | star _ _ => [char '.', char '*']

def stars : Precision → List Word
  | number _ => []
  | star argument _ => [argument]

/-- The number instead of the star. -/
def written : Precision → Precision
  | number value => number value
  | star argument _ => number argument.toInt.toNat

end Precision

namespace Request

/-- What stands behind the flags and the width. -/
def tail (request : Request) : List Byte :=
  request.qualifier.toList ++ [request.conversion]

def chars (request : Request) : List Byte :=
  char '%' :: (request.flags ++
    ((request.width.elim [] Width.chars) ++
      ((request.precision.elim [] Precision.chars) ++ request.tail)))

/-- The arguments for the stars. -/
def stars (request : Request) : List Word :=
  request.width.elim [] Width.stars ++ request.precision.elim [] Precision.stars

theorem areFlags_append
    {flags others : List Byte}
    (first : ∀ c ∈ flags, (flagOf c).isSome = true)
    (second : ∀ c ∈ others, (flagOf c).isSome = true) :
    ∀ c ∈ flags ++ others, (flagOf c).isSome = true :=
  fun c member => (List.mem_append.mp member).elim (first c) (second c)

theorem areFlags_width (width : Option Width) :
    ∀ c ∈ width.elim [] Width.flags, (flagOf c).isSome = true := by
  intro c member
  cases width with
  | none => cases member
  | some width =>
    cases width with
    | number => cases member
    | star argument present =>
      simp only [Option.elim_some, Width.flags] at member
      split at member
      · rw [List.mem_singleton.mp member]
        rfl
      · cases member

/-- The same directive with the numbers written out. -/
def written (request : Request) : Request :=
  { request with
    flags := request.flags ++ request.width.elim [] Width.flags
    width := request.width.map Width.written
    precision := request.precision.map Precision.written
    areFlags := areFlags_append request.areFlags (areFlags_width request.width) }

end Request

/-! ## Kinds of characters -/

section Characters

variable {c : Byte}

/-- Characters that are neither flags nor digits, and begin no size and no directive. -/
structure Plain (c : Byte) : Prop where
  noFlag : flagOf c = none
  noDigit : isDigit c = false
  noDot : c ≠ char '.'
  noStar : c ≠ char '*'
  noPercent : c ≠ char '%'
  noNul : c ≠ 0

instance (c : Byte) : Decidable (Plain c) :=
  decidable_of_iff
    (flagOf c = none ∧ isDigit c = false ∧ c ≠ char '.' ∧ c ≠ char '*' ∧
      c ≠ char '%' ∧ c ≠ 0)
    ⟨fun ⟨flag, digit, dot, star, percent, nul⟩ => ⟨flag, digit, dot, star, percent, nul⟩,
      fun ⟨flag, digit, dot, star, percent, nul⟩ => ⟨flag, digit, dot, star, percent, nul⟩⟩

theorem plain_of_conversion :
    ∀ c : Byte, Conversion.of c ≠ .other → Plain c ∧ isQualifier c = false := by
  decide +kernel

theorem plain_of_qualifier : ∀ c : Byte, isQualifier c = true → Plain c := by
  decide +kernel

/-- A digit but zero is no flag. -/
theorem noFlag_of_digit : ∀ c : Byte, isDigit c = true → c ≠ char '0' → flagOf c = none := by
  decide +kernel

theorem noPercent_of_digit : ∀ c : Byte, isDigit c = true → c ≠ char '%' := by
  decide +kernel

theorem isDigit_symbol : ∀ digit, digit < 10 → isDigit ((symbols false).getD digit 0) = true := by
  decide

theorem symbol_ne_zero :
    ∀ digit, digit < 10 → digit ≠ 0 → (symbols false).getD digit 0 ≠ char '0' := by
  decide

end Characters

/-! ## What a directive takes -/

section Decimals

variable {n : Nat} {c : Byte} {rest : List Byte}

theorem isDigit_of_mem_decimal (member : c ∈ decimal n) : isDigit c = true := by
  obtain ⟨digit, numeric, rfl⟩ := List.mem_map.mp member
  exact isDigit_symbol digit (Numeral.digit_lt (by decide) numeric)

/-- What begins a positive number is no flag. -/
theorem decimal_eq_cons (positive : 0 < n) :
    ∃ c rest, decimal n = c :: rest ∧ isDigit c = true ∧ flagOf c = none := by
  cases isDigits : Numeral.digits 10 n with
  | nil => exact absurd isDigits Numeral.digits_ne_nil
  | cons digit others =>
    have nonzero : digit ≠ 0 :=
      Numeral.head_digits_ne_zero (Nat.ne_of_gt positive) (congrArg List.head? isDigits)
    have below : digit < 10 :=
      Numeral.digit_lt (by decide) (isDigits ▸ List.mem_cons_self)
    have numeric := isDigit_symbol digit below
    refine ⟨_, Numeral.write (symbols false) 0 others, ?_, numeric,
      noFlag_of_digit _ numeric (symbol_ne_zero digit below nonzero)⟩
    unfold decimal Numeral.write
    rw [isDigits, List.map_cons]

theorem size_decimal : Scan.size (decimal n ++ rest) = Scan.size rest :=
  List.dropWhile_append_of_pos fun _ member => isDigit_of_mem_decimal member

theorem stars_decimal : Scan.stars (decimal n ++ rest) = 0 := by
  cases isDecimal : decimal n with
  | nil =>
    exact absurd (List.map_eq_nil_iff.mp isDecimal) Numeral.digits_ne_nil
  | cons c others =>
    have member : c ∈ decimal n := isDecimal ▸ List.mem_cons_self
    exact stars_of_digit (isDigit_of_mem_decimal member)

end Decimals

namespace Scan

variable {c : Byte} {text rest : List Byte}

/-- Outside of directives a format takes no arguments. -/
theorem takes_of_ne (noPercent : c ≠ char '%') : takes (c :: rest) = takes rest := by
  rw [takes, if_neg noPercent]

theorem takes_append (noPercent : ∀ c ∈ text, c ≠ char '%') :
    takes (text ++ rest) = takes rest := by
  induction text with
  | nil => rfl
  | cons c text inductionHypothesis =>
    obtain ⟨first, others⟩ := List.forall_mem_cons.mp noPercent
    rw [List.cons_append, takes_of_ne first, inductionHypothesis others]

theorem flags_of_none (noFlag : flagOf c = none) : flags (c :: rest) = c :: rest := by
  unfold flags
  rw [List.dropWhile_cons, noFlag]
  rfl

/-- A star is not passed over, and what is behind it is read as text. -/
theorem directive_star
    (starred : flags text = char '*' :: rest) :
    directive text = (1, rest) := by
  unfold directive
  rw [starred]
  rfl

/-- The same for a star behind a dot. -/
theorem directive_dotStar
    (dotted : size (flags text) = char '.' :: char '*' :: rest)
    (noStar : stars (flags text) = 0) :
    directive text = (1, rest) := by
  unfold directive
  dsimp only
  rw [dotted, noStar]
  rfl

end Scan

namespace Request

variable {request : Request} {rest : List Byte}

/-- The qualifier or the conversion. -/
theorem tail_eq_cons (request : Request) (rest : List Byte) :
    ∃ c others, request.tail ++ rest = c :: others ∧ Plain c := by
  unfold tail
  cases isQualifier : request.qualifier with
  | none =>
    exact ⟨_, rest, rfl, (plain_of_conversion _ request.isConversion).1⟩
  | some c =>
    exact ⟨c, _, rfl, plain_of_qualifier c (request.isQualifier c isQualifier)⟩

theorem conversion_tail :
    Scan.conversion (Scan.qualifier (request.tail ++ rest)) = (1, rest) := by
  have behind : Scan.conversion (request.conversion :: rest) = (1, rest) := by
    rw [Scan.conversion, if_neg request.isConversion]
  unfold tail
  cases isQualifier : request.qualifier with
  | none =>
    have noQualifier := (plain_of_conversion _ request.isConversion).2
    rw [Option.toList_none, List.nil_append, List.singleton_append, Scan.qualifier,
      noQualifier]
    exact behind
  | some c =>
    have passes := request.isQualifier c isQualifier
    rw [Option.toList_some, List.singleton_append, List.cons_append, Scan.qualifier,
      if_pos passes]
    exact behind

theorem takes_tail : Scan.takes (request.tail ++ rest) = Scan.takes rest := by
  refine Scan.takes_append fun c member => ?_
  rcases List.mem_append.mp member with inQualifier | isConversion
  · have passes := request.isQualifier c (Option.mem_toList.mp inQualifier)
    exact (plain_of_qualifier c passes).noPercent
  · rw [List.mem_singleton.mp isConversion]
    exact (plain_of_conversion _ request.isConversion).1.noPercent

/-- Behind the width. -/
def behind (request : Request) (rest : List Byte) : List Byte :=
  request.precision.elim [] Precision.chars ++ (request.tail ++ rest)

/-- What is behind the width begins with neither a flag nor a digit nor a star. -/
theorem behind_eq_cons (request : Request) (rest : List Byte) :
    ∃ c others, request.behind rest = c :: others ∧ flagOf c = none ∧
      isDigit c = false ∧ c ≠ char '*' := by
  unfold behind
  cases request.precision with
  | none =>
    obtain ⟨c, others, isTail, plain⟩ := request.tail_eq_cons rest
    exact ⟨c, others, isTail, plain.noFlag, plain.noDigit, plain.noStar⟩
  | some precision =>
    cases precision <;> exact ⟨char '.', _, rfl, rfl, rfl, by decide⟩

theorem takes_behind : Scan.takes (request.behind rest) = Scan.takes rest := by
  unfold behind
  rw [Scan.takes_append, takes_tail]
  intro c member
  cases isPrecision : request.precision with
  | none =>
    rw [isPrecision] at member
    cases member
  | some precision =>
    rw [isPrecision] at member
    cases precision with
    | number value =>
      rcases List.mem_cons.mp member with rfl | inDecimal
      · decide
      · exact noPercent_of_digit c (isDigit_of_mem_decimal inDecimal)
    | star argument natural =>
      simp only [Option.elim_some, Precision.chars, List.mem_cons, List.not_mem_nil,
        or_false] at member
      rcases member with rfl | rfl <;> decide

/-- A precision that is a number is passed over. -/
theorem precision_behind
    (unstarred : request.precision.elim [] Precision.stars = []) :
    Scan.precision (request.behind rest) = (0, request.tail ++ rest) := by
  obtain ⟨c, others, isTail, plain⟩ := request.tail_eq_cons rest
  unfold behind
  cases isPrecision : request.precision with
  | none =>
    rw [Option.elim_none, List.nil_append, isTail, Scan.precision, if_neg plain.noDot]
  | some precision =>
    rw [isPrecision] at unstarred
    cases precision with
    | star => cases unstarred
    | number value =>
      have digits : Scan.size (request.tail ++ rest) = request.tail ++ rest := by
        rw [isTail]
        exact size_of_none (Bool.eq_false_iff.mp plain.noDigit)
      rw [Option.elim_some, Precision.chars, List.cons_append, Scan.precision,
        if_pos rfl, stars_decimal, size_decimal, digits]

/-- A precision and what is behind it take one argument. -/
theorem directive_behind
    {text : List Byte}
    (sized : Scan.size (Scan.flags text) = request.behind rest)
    (noStar : Scan.stars (Scan.flags text) = 0) :
    (Scan.directive text).1 + Scan.takes (Scan.directive text).2 =
      1 + Scan.takes rest := by
  by_cases unstarred : request.precision.elim [] Precision.stars = []
  · have whole : Scan.directive text = (1, rest) := by
      unfold Scan.directive
      dsimp only
      rw [sized, noStar, precision_behind unstarred]
      dsimp only
      rw [conversion_tail]
      rfl
    rw [whole]
  · have dotted : request.behind rest = char '.' :: char '*' :: (request.tail ++ rest) := by
      unfold behind
      cases isPrecision : request.precision with
      | none =>
        rw [isPrecision] at unstarred
        exact absurd rfl unstarred
      | some precision =>
        rw [isPrecision] at unstarred
        cases precision with
        | number value => exact absurd rfl unstarred
        | star argument natural => rfl
    rw [Scan.directive_dotStar (sized.trans dotted) noStar, takes_tail]

/-- Whatever its width and its precision are, a directive takes one argument. -/
theorem takes_chars : Scan.takes (request.chars ++ rest) = 1 + Scan.takes rest := by
  have flagged (others : List Byte) :
      Scan.flags (request.flags ++ others) = Scan.flags others :=
    List.dropWhile_append_of_pos request.areFlags
  obtain ⟨c, others, isBehind, noFlag, noDigit, noStar⟩ :=
    request.behind_eq_cons rest
  have stays : Scan.size (request.behind rest) = request.behind rest := by
    rw [isBehind]
    exact size_of_none (Bool.eq_false_iff.mp noDigit)
  have whole :
      request.chars ++ rest =
        char '%' :: (request.flags ++
          (request.width.elim [] Width.chars ++ request.behind rest)) := by
    simp [chars, behind]
  rw [whole, Scan.takes, if_pos rfl]
  cases request.width with
  | none =>
    have begins : Scan.flags (request.flags ++ request.behind rest) = request.behind rest := by
      rw [flagged, isBehind, Scan.flags_of_none noFlag]
    have sized := (congrArg Scan.size begins).trans stays
    rw [Option.elim_none, List.nil_append]
    refine directive_behind sized ?_
    rw [begins, isBehind, stars_of_none noStar]
  | some width =>
    cases width with
    | number value positive =>
      obtain ⟨first, digits, isDecimal, digit, isNoFlag⟩ := decimal_eq_cons positive
      have begins :
          Scan.flags (request.flags ++ (decimal value ++ request.behind rest)) =
            decimal value ++ request.behind rest := by
        rw [flagged, isDecimal, List.cons_append, Scan.flags_of_none isNoFlag]
      have sized := (congrArg Scan.size begins).trans (size_decimal.trans stays)
      rw [Option.elim_some, Width.chars]
      refine directive_behind sized ?_
      rw [begins, stars_decimal]
    | star argument isSome =>
      have begins :
          Scan.flags (request.flags ++ ([char '*'] ++ request.behind rest)) =
            char '*' :: request.behind rest := by
        rw [flagged]
        exact Scan.flags_of_none rfl
      rw [Option.elim_some, Width.chars, Scan.directive_star begins, takes_behind]

/-- The characters of a directive are no NULs. -/
theorem noNul (request : Request) : 0 ∉ request.chars := by
  intro member
  have decimals {value : Nat} (inDecimal : 0 ∈ decimal value) : False := by
    cases isDigit_of_mem_decimal inDecimal
  simp only [chars, tail, List.mem_cons, List.mem_append, Option.mem_toList,
    List.not_mem_nil, or_false] at member
  rcases member with zero | inFlags | inWidth | inPrecision | isQualifier | zero
  · cases zero
  · cases request.areFlags 0 inFlags
  · cases isWidth : request.width with
    | none =>
      rw [isWidth] at inWidth
      cases inWidth
    | some width =>
      rw [isWidth] at inWidth
      cases width with
      | number value positive => exact decimals inWidth
      | star argument isSome => cases List.mem_singleton.mp inWidth
  · cases isPrecision : request.precision with
    | none =>
      rw [isPrecision] at inPrecision
      cases inPrecision
    | some precision =>
      rw [isPrecision] at inPrecision
      cases precision with
      | number value =>
        rcases List.mem_cons.mp inPrecision with zero | inDecimal
        · cases zero
        · exact decimals inDecimal
      | star argument natural =>
        have noNul : (0 : Byte) ∉ [char '.', char '*'] := by decide
        exact noNul inPrecision
  · cases request.isQualifier 0 isQualifier
  · exact (plain_of_conversion _ request.isConversion).1.noNul zero.symm

end Request

/-! ## Directives in formats -/

/-- A part of a format: a character, `%%`, or a directive. -/
inductive Piece where
  | character (c : Byte) (noPercent : c ≠ char '%') (noNul : c ≠ 0)
  | percent
  | directive (request : Request)

namespace Piece

def chars : Piece → List Byte
  | .character c _ _ => [c]
  | .percent => [char '%', char '%']
  | .directive request => request.chars

theorem noNul (piece : Piece) : 0 ∉ piece.chars := by
  unfold chars
  cases piece with
  | character c noPercent noNul => exact fun zero => noNul (List.mem_singleton.mp zero).symm
  | percent => decide
  | directive request => exact request.noNul

/-- A part of a format takes as many arguments wherever it stands. -/
theorem takes_chars (piece : Piece) :
    ∃ count, ∀ rest, Scan.takes (piece.chars ++ rest) = count + Scan.takes rest := by
  unfold chars
  cases piece with
  | character c noPercent noNul =>
    refine ⟨0, fun rest => ?_⟩
    rw [Nat.zero_add]
    exact Scan.takes_of_ne noPercent
  | percent =>
    refine ⟨0, fun rest => ?_⟩
    rw [List.cons_append, Scan.takes, if_pos rfl]
    rfl
  | directive request => exact ⟨1, fun rest => request.takes_chars⟩

/-- So do several of them. -/
theorem takes_flatMap (before : List Piece) :
    ∃ count, ∀ rest,
      Scan.takes (before.flatMap chars ++ rest) = count + Scan.takes rest := by
  induction before with
  | nil => exact ⟨0, fun rest => (Nat.zero_add _).symm⟩
  | cons piece before inductionHypothesis =>
    obtain ⟨first, takesFirst⟩ := piece.takes_chars
    obtain ⟨others, takesOthers⟩ := inductionHypothesis
    refine ⟨first + others, fun rest => ?_⟩
    rw [List.flatMap_cons, List.append_assoc, takesFirst, takesOthers, Nat.add_assoc]

end Piece

/-- A directive in a format. -/
def Request.within (before : List Piece) (after : Format) (request : Request) : Format where
  chars := before.flatMap Piece.chars ++ (request.chars ++ after.chars)
  noNul := by
    simp only [List.mem_append, List.mem_flatMap, not_or, not_exists, not_and]
    exact ⟨fun piece _ => piece.noNul, request.noNul, after.noNul⟩

/-- More arguments in front of the one at a position. -/
def Arguments.insert
    (arguments : Arguments)
    (position : Nat)
    (words : List Word) : Arguments :=
  { arguments with
    word := fun index =>
      if index < position then arguments.word index
      else words.getD (index - position) (arguments.word (index - words.length)) }

/-- The same output, and the same arguments left behind those for the stars. -/
structure Agrees (starred written : Result) (stars : Nat) : Prop where
  memory : starred.memory = written.memory
  returned : starred.returned = written.returned
  args : starred.args = written.args + stars

/--
Wherever it stands in a format, a directive with a star does not do the same as the one
with the numbers written out: it takes as many arguments, those for the stars included.
-/
theorem star_never_agrees
    (before : List Piece)
    (after : Format)
    (request : Request)
    (starred : request.stars ≠ [])
    (arguments : Arguments)
    (position buf : Nat)
    (memory : Nat → Byte) :
    ∃ star written,
      Returns (request.within before after)
        (arguments.insert position request.stars) buf memory star ∧
      Returns (request.written.within before after) arguments buf memory written ∧
      ¬ Agrees star written request.stars.length := by
  obtain ⟨star, starReturns, starArgs, -⟩ :=
    vsprintf_spec (request.within before after)
      (arguments.insert position request.stars) buf memory
  obtain ⟨written, writtenReturns, writtenArgs, -⟩ :=
    vsprintf_spec (request.written.within before after) arguments buf memory
  refine ⟨star, written, starReturns, writtenReturns, fun agrees => ?_⟩
  obtain ⟨count, takesBefore⟩ := Piece.takes_flatMap before
  have starTakes : star.args = count + (1 + Scan.takes after.chars) := by
    rw [starArgs]
    exact (takesBefore _).trans (congrArg (count + ·) request.takes_chars)
  have writtenTakes : written.args = count + (1 + Scan.takes after.chars) := by
    rw [writtenArgs]
    exact (takesBefore _).trans (congrArg (count + ·) request.written.takes_chars)
  have args := agrees.args
  have nonzero := List.length_pos_of_ne_nil starred
  omega

/-- `%*d` for a width of 5. -/
def fiveWide : Request where
  flags := []
  width := some (.star 5 (by decide))
  precision := none
  qualifier := none
  conversion := char 'd'
  areFlags := by simp
  isQualifier := by simp
  isConversion := by decide

/-- The number 42 with that width, and nothing around it. -/
theorem star_never_agrees_fiveWide :
    ∃ star written,
      Returns (fiveWide.within [] ⟨[], List.not_mem_nil⟩)
        (Arguments.insert ⟨fun _ => 42, fun _ => []⟩ 0 [5]) 0 (fun _ => 0) star ∧
      Returns (fiveWide.written.within [] ⟨[], List.not_mem_nil⟩)
        ⟨fun _ => 42, fun _ => []⟩ 0 (fun _ => 0) written ∧
      ¬ Agrees star written 1 :=
  star_never_agrees [] ⟨[], List.not_mem_nil⟩ fiveWide (List.cons_ne_nil _ _)
    ⟨fun _ => 42, fun _ => []⟩ 0 0 (fun _ => 0)

/-- The star is shown, and the number is not; with `%5d` it is. -/
theorem star_shown :
    (vsprintf ⟨['%', '*', 'd'].map char, by decide⟩
        ⟨fun index => if index = 0 then 5 else 42, fun _ => []⟩ 0 (fun _ => 0) 4).map
        (fun star => (Ring.load star.memory 0 4, star.args)) =
      some (['%', '*', 'd'].map char ++ [0], 1) ∧
    (vsprintf ⟨['%', '5', 'd'].map char, by decide⟩
        ⟨fun _ => 42, fun _ => []⟩ 0 (fun _ => 0) 4).map
        (fun written => (Ring.load written.memory 0 6, written.args)) =
      some ([' ', ' ', ' ', '4', '2'].map char ++ [0], 1) := by
  decide +kernel

end Formats

end HitOs
