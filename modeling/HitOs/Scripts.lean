import HitOs.Execve
import Mathlib.Data.List.DropRight

namespace HitOs

/-!
# The first line of a script

`do_execve` takes the line behind `#!` apart in a buffer of its own: an interpreter, the
last component of its path, and what stands behind the first blank after it.
-/

namespace Scripts

open ByteStrings

abbrev Byte := BitVec 8

/-- The characters that are skipped before the interpreter and end it. -/
def isBlank (c : Byte) : Bool :=
  c = 0x20 || c = 0x09

/-! ## The functions of `string.h` -/

/-- `strncpy`: bytes up to a zero, and zeros up to `count`. -/
def strncpy
    (destination source : Nat → Byte)
    (start count : Nat) : Nat → Byte :=
  let (i, copied) := copyUpTo source start 0 count 0 destination
  fun a => if i < a ∧ a < count then 0 else copied a

/-- `strchr`, for a string that ends within `room` bytes; `NULL` is `none`. -/
def strchr (bytes : Nat → Byte) (c : Byte) : Nat → Nat → Option Nat
  | 0, _ => none
  | room + 1, s =>
    if bytes s = c then
      some s
    else if bytes s = 0 then
      none
    else
      strchr bytes c room (s + 1)

/-- The string at an address, for a reader that stops after `room` bytes. -/
def readString (bytes : Nat → Byte) : Nat → Nat → List Byte
  | 0, _ => []
  | room + 1, a =>
    if bytes a = 0 then
      []
    else
      bytes a :: readString bytes room (a + 1)

/-! ## The line -/

/-- How many bytes `strncpy` takes, one less than `buf` has. -/
def lineRoom : Nat := 1022

/-- `for (cp = buf; (*cp == ' ') || (*cp == '\t'); cp++)` -/
def skipBlanks (buf : Nat → Byte) : Nat → Nat → Nat
  | 0, cp => cp
  | room + 1, cp =>
    if isBlank (buf cp) then
      skipBlanks buf room (cp + 1)
    else
      cp

/-- The loop over the path of the interpreter: `cp` and `i_name` where it ends. -/
def scanName (buf : Nat → Byte) : Nat → Nat → Nat → Nat × Nat
  | 0, cp, iName => (cp, iName)
  | room + 1, cp, iName =>
    if buf cp ≠ 0 ∧ ¬ isBlank (buf cp) then
      scanName buf room (cp + 1) (if buf cp = 0x2f then cp + 1 else iName)
    else
      (cp, iName)

/-- The buffer with the places in it where the strings begin. -/
structure Parsed where
  buf : Nat → Byte
  interp : Nat
  iName : Nat
  iArg : Option Nat

/-- The line when its end has been cut off. -/
def parseText (buf : Nat → Byte) : Option Parsed :=
  let interp := skipBlanks buf (lineRoom + 1) 0
  if buf interp = 0 then
    none
  else
    let (cp, iName) := scanName buf (lineRoom + 1) interp interp
    if buf cp ≠ 0 then
      some
        { buf := Function.update buf cp 0
          interp := interp
          iName := iName
          iArg := some (cp + 1) }
    else
      some
        { buf := buf
          interp := interp
          iName := iName
          iArg := none }

/--
The line behind `#!`, or `none` where no interpreter is found.  The buffer is on the
stack and has had some contents before.
-/
def parse (block stack : Nat → Byte) : Option Parsed :=
  let buf := strncpy stack block 2 lineRoom
  let buf := Function.update buf lineRoom 0
  match strchr buf 0x0a (lineRoom + 1) 0 with
  | none => none
  | some newline => parseText (Function.update buf newline 0)

/-- What is found is what a line says. -/
structure Parsed.Finds
    (parsed : Parsed)
    (path name : List Byte)
    (arg : Option (List Byte)) : Prop where
  interp : IsString parsed.buf parsed.interp path
  iName : IsString parsed.buf parsed.iName name
  nameInside : parsed.iName + name.length ≤ lineRoom
  pathInside : parsed.interp + path.length ≤ lineRoom
  iArg :
    (parsed.iArg = none ∧ arg = none) ∨
      ∃ a string,
        parsed.iArg = some a ∧ arg = some string ∧
          IsString parsed.buf a string ∧ a + string.length ≤ lineRoom

/-- What a first line says: blanks, a path, and an argument behind one more blank. -/
structure Line where
  blanks : List Byte
  path : List Byte
  rest : Option (Byte × List Byte)
  blanksBlank : ∀ c ∈ blanks, isBlank c = true
  pathSome : path ≠ []
  pathPlain : ∀ c ∈ path, c ≠ 0 ∧ c ≠ 0x0a ∧ isBlank c = false
  restBlank : ∀ c ∈ rest.map Prod.fst, isBlank c = true
  restPlain : ∀ arg ∈ rest.map Prod.snd, ∀ c ∈ arg, c ≠ 0 ∧ c ≠ 0x0a

namespace Line

/-- What is behind the path. -/
def behind (line : Line) : List Byte :=
  match line.rest with
  | none => []
  | some (blank, arg) => blank :: arg

/-- The line without `#!` and without its end. -/
def text (line : Line) : List Byte :=
  line.blanks ++ (line.path ++ line.behind)

/-- The optional argument. -/
def arg (line : Line) : Option (List Byte) :=
  line.rest.map Prod.snd

/-- The last component of the path of the interpreter. -/
def name (line : Line) : List Byte :=
  line.path.rtakeWhile (· ≠ 0x2f)

/-- A block that begins with the line. -/
structure Begins (line : Line) (block : Nat → Byte) : Prop where
  magic : Holds block 0 [0x23, 0x21]
  first : Holds block 2 (line.text ++ [0x0a])
  fits : line.text.length < lineRoom

/-- The argument vector that the interpreter is to get. -/
def vector (line : Line) (file : List Byte) (args : List (List Byte)) :
    List (List Byte) :=
  line.name :: (line.arg.toList ++ file :: args.tail)

end Line

/-! ## The loops -/

section Loops

variable {bytes buf : Nat → Byte} {xs ys : List Byte} {c : Byte}
variable {room a cp iName : Nat}

theorem holds_first (holds : Holds bytes a (c :: xs)) : bytes a = c := by
  have there := holds_iff.mp holds 0 (Nat.zero_lt_succ _)
  exact there

theorem holds_rest (holds : Holds bytes a (c :: xs)) :
    Holds bytes (a + 1) xs := by
  have split : Holds bytes a ([c] ++ xs) := holds
  exact (holds_append.mp split).2

theorem strchr_eq
    (holds : Holds bytes a (xs ++ [c]))
    (others : ∀ x ∈ xs, x ≠ c ∧ x ≠ 0)
    (enough : xs.length < room) :
    strchr bytes c room a = some (a + xs.length) := by
  induction xs generalizing a room with
  | nil =>
    obtain ⟨room, rfl⟩ := Nat.exists_eq_succ_of_ne_zero (by omega : room ≠ 0)
    unfold strchr
    rw [if_pos (holds_first holds)]
    rfl
  | cons x xs inductionHypothesis =>
    rw [List.length_cons] at enough ⊢
    obtain ⟨room, rfl⟩ := Nat.exists_eq_succ_of_ne_zero (by omega : room ≠ 0)
    obtain ⟨other, nonzero⟩ := others x List.mem_cons_self
    rw [← holds_first holds] at other nonzero
    unfold strchr
    rw [if_neg other, if_neg nonzero,
      inductionHypothesis (holds_rest holds)
        (fun y member => others y (List.mem_cons_of_mem _ member)) (by omega)]
    congr 1
    omega

theorem skipBlanks_eq
    (holds : Holds buf cp (xs ++ [c]))
    (blank : ∀ x ∈ xs, isBlank x = true)
    (other : isBlank c = false)
    (enough : xs.length < room) :
    skipBlanks buf room cp = cp + xs.length := by
  induction xs generalizing cp room with
  | nil =>
    obtain ⟨room, rfl⟩ := Nat.exists_eq_succ_of_ne_zero (by omega : room ≠ 0)
    have first : buf cp = c := holds_first holds
    unfold skipBlanks
    rw [first, other, if_neg Bool.false_ne_true]
    rfl
  | cons x xs inductionHypothesis =>
    rw [List.length_cons] at enough ⊢
    obtain ⟨room, rfl⟩ := Nat.exists_eq_succ_of_ne_zero (by omega : room ≠ 0)
    have first : buf cp = x := holds_first holds
    unfold skipBlanks
    rw [first, if_pos (blank x List.mem_cons_self),
      inductionHypothesis (holds_rest holds)
        (fun y member => blank y (List.mem_cons_of_mem _ member)) (by omega)]
    omega

/-- What is behind the last slash of a path is where the last component begins. -/
theorem scanName_eq
    {done : List Byte}
    (holds : Holds buf (cp + done.length) (xs ++ [c]))
    (plain : ∀ x ∈ xs, x ≠ 0 ∧ isBlank x = false)
    (ends : c = 0 ∨ isBlank c = true)
    (enough : xs.length < room) :
    scanName buf room (cp + done.length)
        (cp + (done.length - (done.rtakeWhile (· ≠ 0x2f)).length)) =
      (cp + (done ++ xs).length,
        cp + ((done ++ xs).length -
          ((done ++ xs).rtakeWhile (· ≠ 0x2f)).length)) := by
  induction xs generalizing done room with
  | nil =>
    obtain ⟨room, rfl⟩ := Nat.exists_eq_succ_of_ne_zero (by omega : room ≠ 0)
    have first : buf (cp + done.length) = c := holds_first holds
    have stops : ¬ (c ≠ 0 ∧ ¬ isBlank c = true) := by
      rintro ⟨nonzero, notBlank⟩
      exact ends.elim nonzero notBlank
    unfold scanName
    rw [first, if_neg stops, List.append_nil]
  | cons x xs inductionHypothesis =>
    rw [List.length_cons] at enough
    obtain ⟨room, rfl⟩ := Nat.exists_eq_succ_of_ne_zero (by omega : room ≠ 0)
    have first : buf (cp + done.length) = x := holds_first holds
    obtain ⟨nonzero, notBlank⟩ := plain x List.mem_cons_self
    have goes : x ≠ 0 ∧ ¬ isBlank x = true :=
      ⟨nonzero, Bool.eq_false_iff.mp notBlank⟩
    have longer : cp + done.length + 1 = cp + (done ++ [x]).length := by
      rw [List.length_append, List.length_singleton]
      omega
    have shorter : (done.rtakeWhile (· ≠ 0x2f)).length ≤ done.length :=
      (List.rtakeWhile_suffix _ _).length_le
    have begins :
        (if x = 0x2f then cp + done.length + 1
          else cp + (done.length - (done.rtakeWhile (· ≠ 0x2f)).length)) =
        cp + ((done ++ [x]).length -
          ((done ++ [x]).rtakeWhile (· ≠ 0x2f)).length) := by
      by_cases slash : x = 0x2f
      · have stops : ¬ decide (x ≠ 0x2f) = true := by simp [slash]
        rw [if_pos slash, List.rtakeWhile_concat, if_neg stops, longer]
        rfl
      · have goesOn : decide (x ≠ 0x2f) = true := decide_eq_true slash
        rw [if_neg slash, List.rtakeWhile_concat, if_pos goesOn,
          List.length_append, List.length_append]
        simp only [List.length_singleton]
        omega
    have again : done ++ x :: xs = done ++ [x] ++ xs := by simp
    unfold scanName
    rw [first, if_pos goes, begins, longer, again]
    refine inductionHypothesis ?_
      (fun y member => plain y (List.mem_cons_of_mem _ member)) (by omega)
    rw [← longer]
    exact holds_rest holds

theorem readString_eq
    (isString : IsString bytes a xs)
    (enough : xs.length < room) :
    readString bytes room a = xs := by
  obtain ⟨nonzero, holds⟩ := isString
  induction xs generalizing a room with
  | nil =>
    obtain ⟨room, rfl⟩ := Nat.exists_eq_succ_of_ne_zero (by omega : room ≠ 0)
    unfold readString
    rw [if_pos (holds_first holds)]
  | cons x xs inductionHypothesis =>
    rw [List.length_cons] at enough
    obtain ⟨room, rfl⟩ := Nat.exists_eq_succ_of_ne_zero (by omega : room ≠ 0)
    have first : bytes a = x := holds_first holds
    have other : bytes a ≠ 0 := first ▸ nonzero x List.mem_cons_self
    unfold readString
    rw [if_neg other, first,
      inductionHypothesis (by omega)
        (fun y member => nonzero y (List.mem_cons_of_mem _ member))
        (holds_rest holds)]

end Loops

/-! ## A line is parsed -/

section Parsing

variable {line : Line} {block stack : Nat → Byte}

theorem Line.text_plain (line : Line) : ∀ c ∈ line.text, c ≠ 0 ∧ c ≠ 0x0a := by
  have ofBlank (c : Byte) (blank : isBlank c = true) : c ≠ 0 ∧ c ≠ 0x0a := by
    unfold isBlank at blank
    simp only [Bool.or_eq_true, decide_eq_true_eq] at blank
    rcases blank with rfl | rfl <;> decide
  intro c member
  unfold Line.text Line.behind at member
  rcases List.mem_append.mp member with inBlanks | inRest
  · exact ofBlank c (line.blanksBlank c inBlanks)
  · rcases List.mem_append.mp inRest with inPath | inBehind
    · obtain ⟨nonzero, other, _⟩ := line.pathPlain c inPath
      exact ⟨nonzero, other⟩
    · have restBlank := line.restBlank
      have restPlain := line.restPlain
      cases rest : line.rest with
      | none =>
        rw [rest] at inBehind
        exact absurd inBehind List.not_mem_nil
      | some both =>
        rw [rest] at inBehind restBlank restPlain
        rcases List.mem_cons.mp inBehind with rfl | inArg
        · exact ofBlank _ (restBlank _ rfl)
        · exact restPlain _ rfl c inArg

/-- The buffer after `strncpy` begins with the line and its end. -/
theorem buffer_holds
    (begins : line.Begins block)
    (stack : Nat → Byte) :
    Holds (Function.update (strncpy stack block 2 lineRoom) lineRoom 0) 0
      (line.text ++ [0x0a]) := by
  have nonzero : ∀ c ∈ line.text ++ [0x0a], c ≠ (0 : Byte) := by
    intro c member
    rcases List.mem_append.mp member with inText | isEnd
    · exact (line.text_plain c inText).1
    · rw [List.mem_singleton.mp isEnd]
      decide
  have fits := begins.fits
  have length : (line.text ++ [(0x0a : Byte)]).length = line.text.length + 1 :=
    List.length_append
  obtain ⟨reaches, stands⟩ :=
    copyUpTo_chars (i := 0) begins.first nonzero
      (show _ ≤ lineRoom by omega) 0 stack
  rw [Nat.zero_add] at reaches
  refine stands.congr fun a above below => ?_
  rw [length] at below reaches
  rw [Function.update_of_ne (by omega)]
  unfold strncpy
  dsimp only
  rw [if_neg (by omega)]

/-- The last component of a path is a string too. -/
theorem name_isString
    {buf : Nat → Byte} {cp : Nat} {path : List Byte}
    (isPath : IsString buf cp path) :
    IsString buf
      (cp + (path.length - (path.rtakeWhile (· ≠ 0x2f)).length))
      (path.rtakeWhile (· ≠ 0x2f)) := by
  obtain ⟨nonzero, holds⟩ := isPath
  have suffix := List.rtakeWhile_suffix (fun c : Byte => decide (c ≠ 0x2f)) path
  generalize path.rtakeWhile (fun c : Byte => decide (c ≠ 0x2f)) = name at suffix
  obtain ⟨before, rfl⟩ := suffix
  refine ⟨fun c member => nonzero c (List.mem_append_right _ member), ?_⟩
  rw [List.append_assoc, holds_append] at holds
  rw [List.length_append, Nat.add_sub_cancel]
  exact holds.2

/-- The interpreter, its name and the argument are found in the line. -/
theorem parseText_spec
    {buf : Nat → Byte}
    (isText : IsString buf 0 line.text)
    (fits : line.text.length < lineRoom) :
    ∃ parsed,
      parseText buf = some parsed ∧
        parsed.Finds line.path line.name line.arg := by
  obtain ⟨_, holds⟩ := isText
  have shape : line.text ++ [0] =
      line.blanks ++ (line.path ++ (line.behind ++ [0])) := by
    unfold Line.text
    simp only [List.append_assoc]
  rw [shape, holds_append, holds_append, Nat.zero_add] at holds
  obtain ⟨blanksHold, pathHolds, behindHolds⟩ := holds
  have length : line.text.length =
      line.blanks.length + (line.path.length + line.behind.length) := by
    unfold Line.text
    rw [List.length_append, List.length_append]
  have plain : ∀ c ∈ line.path, c ≠ 0 ∧ isBlank c = false := fun c member =>
    ⟨(line.pathPlain c member).1, (line.pathPlain c member).2.2⟩
  obtain ⟨c, path, isPath⟩ := List.exists_cons_of_ne_nil line.pathSome
  have first : buf line.blanks.length = c := by
    rw [isPath] at pathHolds
    exact holds_first pathHolds
  obtain ⟨nonzero, notBlank⟩ := plain c (isPath ▸ List.mem_cons_self)
  have begins : Holds buf 0 (line.blanks ++ [c]) := by
    rw [holds_append, holds_singleton, Nat.zero_add]
    exact ⟨blanksHold, first⟩
  have skipped := skipBlanks_eq begins line.blanksBlank notBlank
    (show _ < lineRoom + 1 by omega)
  rw [Nat.zero_add] at skipped
  have notZero : buf line.blanks.length ≠ 0 := first ▸ nonzero
  -- The character behind the path, which ends the loop over it.
  have next (x : Byte) (rest : List Byte)
      (holdsNext : line.behind ++ [0] = x :: rest)
      (ends : x = 0 ∨ isBlank x = true) :
      buf (line.blanks.length + line.path.length) = x ∧
        scanName buf (lineRoom + 1) line.blanks.length line.blanks.length =
          (line.blanks.length + line.path.length,
            line.blanks.length + (line.path.length - line.name.length)) := by
    rw [holdsNext] at behindHolds
    have here := holds_first behindHolds
    refine ⟨here, ?_⟩
    have all : Holds buf (line.blanks.length + ([] : List Byte).length)
        (line.path ++ [x]) := by
      rw [holds_append, holds_singleton]
      exact ⟨pathHolds, here⟩
    exact scanName_eq all plain ends (by omega)
  have shorter : line.name.length ≤ line.path.length :=
    (List.rtakeWhile_suffix _ _).length_le
  unfold parseText
  dsimp only
  rw [skipped, if_neg notZero]
  cases rest : line.rest with
  | none =>
    have behind : line.behind = [] := by
      unfold Line.behind
      rw [rest]
    rw [behind] at behindHolds
    obtain ⟨here, scans⟩ := next 0 [] (by rw [behind]; rfl) (.inl rfl)
    have pathString : IsString buf line.blanks.length line.path :=
      ⟨fun c member => (plain c member).1, holds_append.mpr ⟨pathHolds, behindHolds⟩⟩
    rw [scans]
    dsimp only
    rw [here, if_neg (fun different => different rfl)]
    refine ⟨_, rfl, pathString, name_isString pathString, ?_, ?_, .inl ⟨rfl, ?_⟩⟩
    · dsimp only
      omega
    · dsimp only
      omega
    · unfold Line.arg
      rw [rest]
      rfl
  | some both =>
    obtain ⟨blank, arg⟩ := both
    have behind : line.behind = blank :: arg := by
      unfold Line.behind
      rw [rest]
    have blankIs : isBlank blank = true :=
      line.restBlank blank (by rw [rest]; rfl)
    have nonzero : blank ≠ 0 := by
      rintro rfl
      cases blankIs
    obtain ⟨here, scans⟩ :=
      next blank (arg ++ [0]) (by rw [behind]; rfl) (.inr blankIs)
    rw [behind] at behindHolds length
    rw [List.length_cons] at length
    have argHolds := holds_rest behindHolds
    have other {a : Nat}
        (elsewhere : a ≠ line.blanks.length + line.path.length) :
        Function.update buf (line.blanks.length + line.path.length) 0 a = buf a :=
      Function.update_of_ne elsewhere _ _
    have pathString :
        IsString
          (Function.update buf (line.blanks.length + line.path.length) 0)
          line.blanks.length line.path := by
      refine ⟨fun c member => (plain c member).1, ?_⟩
      rw [holds_append, holds_singleton, Function.update_self]
      exact ⟨pathHolds.congr fun a _ below => other (by omega), rfl⟩
    have argString :
        IsString
          (Function.update buf (line.blanks.length + line.path.length) 0)
          (line.blanks.length + line.path.length + 1) arg := by
      refine ⟨fun c member => (line.restPlain arg (by rw [rest]; rfl) c member).1,
        argHolds.congr fun a above _ => other (by omega)⟩
    rw [scans]
    dsimp only
    rw [here, if_pos nonzero]
    refine ⟨_, rfl, pathString, name_isString pathString, ?_, ?_,
      .inr ⟨_, arg, rfl, ?_, argString, ?_⟩⟩
    · dsimp only
      omega
    · dsimp only
      omega
    · unfold Line.arg
      rw [rest]
      rfl
    · omega

/-- The line is found in the block. -/
theorem parse_spec
    (begins : line.Begins block)
    (stack : Nat → Byte) :
    ∃ parsed,
      parse block stack = some parsed ∧
        parsed.Finds line.path line.name line.arg := by
  have whole := buffer_holds begins stack
  have fits := begins.fits
  have newline :
      strchr (Function.update (strncpy stack block 2 lineRoom) lineRoom 0) 0x0a
        (lineRoom + 1) 0 = some line.text.length := by
    rw [strchr_eq whole (fun c member => (line.text_plain c member).symm)
      (by omega), Nat.zero_add]
  unfold parse
  dsimp only
  rw [newline]
  refine parseText_spec ⟨fun c member => (line.text_plain c member).1, ?_⟩ fits
  rw [holds_append] at whole
  rw [holds_append, holds_singleton, Nat.zero_add, Function.update_self]
  exact ⟨whole.1.congr fun a _ below =>
    Function.update_of_ne (by omega) _ _, rfl⟩

end Parsing

end Scripts

end HitOs
