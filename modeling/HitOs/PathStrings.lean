import Mathlib.Data.Nat.Init

namespace HitOs

/-!
# The characters of path names

The two loops that take a path name apart: `get_dir` goes from name to name, and
`dir_namei` looks for the last slash.  A path is the list of the characters from
`pathname` on, which the end of the list or a 0 ends.
-/

namespace Paths

/-- `'/'` -/
def slash : UInt8 := 47

/--
The loop of `get_dir` over one name: its length, the character that ends it, and
what is behind that.
-/
def scanName : List UInt8 → Nat × UInt8 × List UInt8
  | [] => (0, 0, [])
  | c :: pathname =>
    if c = 0 ∨ c = slash then
      (0, c, pathname)
    else
      let (namelen, c, pathname) := scanName pathname
      (namelen + 1, c, pathname)

/--
The loop of `dir_namei`, with the number of characters between `basename` and
`pathname`: the name behind the last slash.
-/
def scanBase (basename : List UInt8) (namelen : Nat) :
    List UInt8 → List UInt8 × Nat
  | [] => (basename, namelen)
  | c :: pathname =>
    if c = 0 then
      (basename, namelen)
    else if c = slash then
      scanBase pathname 0 pathname
    else
      scanBase basename (namelen + 1) pathname

/-- The names in a path: what is between its slashes. -/
def pieces (path : List UInt8) : List (List UInt8) :=
  path.splitOn slash

/-- The names before the last slash. -/
def dirNames (path : List UInt8) : List (List UInt8) :=
  (pieces path).dropLast

/-- What is behind the last slash. -/
def baseName (path : List UInt8) : List UInt8 :=
  (pieces path).getLastD []

variable {path name rest : List UInt8}

theorem pieces_ne_nil : pieces path ≠ [] :=
  List.splitOn_ne_nil slash path

/-- A path is one name, or a name before a slash and another path. -/
theorem pieces_cases (path : List UInt8) :
    slash ∉ path ∧ pieces path = [path] ∨
      ∃ name rest, path = name ++ slash :: rest ∧ slash ∉ name ∧
        pieces path = name :: pieces rest := by
  induction path with
  | nil =>
    exact Or.inl ⟨List.not_mem_nil, rfl⟩
  | cons c path inductionHypothesis =>
    have split :
        pieces (c :: path) =
          if c = slash then [] :: pieces path
          else (pieces path).modifyHead (List.cons c) := by
      unfold pieces List.splitOn
      rw [List.splitOnP_cons_eq_if_modifyHead]
      simp only [beq_iff_eq]
    by_cases ends : c = slash
    · rw [split, if_pos ends]
      exact Or.inr ⟨[], path, by rw [ends]; rfl, List.not_mem_nil, rfl⟩
    · rw [split, if_neg ends]
      rcases inductionHypothesis with ⟨isNone, alone⟩ |
        ⟨name, rest, rfl, inName, more⟩
      · rw [alone]
        refine Or.inl ⟨?_, rfl⟩
        rw [List.mem_cons, not_or]
        exact ⟨Ne.symm ends, isNone⟩
      · rw [more]
        refine Or.inr ⟨c :: name, rest, rfl, ?_, rfl⟩
        rw [List.mem_cons, not_or]
        exact ⟨Ne.symm ends, inName⟩

/-- `get_dir` gets to the end of the last name. -/
theorem scanName_of_last
    (noZero : 0 ∉ path)
    (noSlash : slash ∉ path) :
    scanName path = (path.length, 0, []) := by
  induction path with
  | nil =>
    rfl
  | cons c path inductionHypothesis =>
    rw [List.mem_cons, not_or] at noZero noSlash
    have inName : ¬ (c = 0 ∨ c = slash) :=
      not_or.mpr ⟨Ne.symm noZero.1, Ne.symm noSlash.1⟩
    rw [scanName, if_neg inName, inductionHypothesis noZero.2 noSlash.2]
    rfl

/-- `get_dir` gets behind the slash that ends a name. -/
theorem scanName_of_slash
    (noZero : 0 ∉ name)
    (noSlash : slash ∉ name) :
    scanName (name ++ slash :: rest) = (name.length, slash, rest) := by
  induction name with
  | nil =>
    exact if_pos (Or.inr rfl)
  | cons c name inductionHypothesis =>
    rw [List.mem_cons, not_or] at noZero noSlash
    have inName : ¬ (c = 0 ∨ c = slash) :=
      not_or.mpr ⟨Ne.symm noZero.1, Ne.symm noSlash.1⟩
    rw [List.cons_append, scanName, if_neg inName,
      inductionHypothesis noZero.2 noSlash.2]
    rfl

/-- `dir_namei` counts the characters of a name. -/
theorem scanBase_append
    {basename : List UInt8} {namelen : Nat}
    (noZero : 0 ∉ name)
    (noSlash : slash ∉ name) :
    scanBase basename namelen (name ++ rest) =
      scanBase basename (namelen + name.length) rest := by
  induction name generalizing namelen with
  | nil =>
    rfl
  | cons c name inductionHypothesis =>
    rw [List.mem_cons, not_or] at noZero noSlash
    rw [List.cons_append, scanBase, if_neg (Ne.symm noZero.1),
      if_neg (Ne.symm noSlash.1), inductionHypothesis noZero.2 noSlash.2,
      List.length_cons, Nat.add_assoc, Nat.add_comm 1]

theorem baseName_of_last
    (alone : pieces path = [path]) :
    baseName path = path := by
  unfold baseName
  rw [alone]
  rfl

theorem baseName_of_slash
    (more : pieces path = name :: pieces rest) :
    baseName path = baseName rest := by
  unfold baseName
  rw [more]
  cases split : pieces rest with
  | nil =>
    exact absurd split pieces_ne_nil
  | cons =>
    rfl

theorem dirNames_of_last
    (alone : pieces path = [path]) :
    dirNames path = [] := by
  unfold dirNames
  rw [alone]
  rfl

theorem dirNames_of_slash
    (more : pieces path = name :: pieces rest) :
    dirNames path = name :: dirNames rest := by
  unfold dirNames
  rw [more, List.dropLast_cons_of_ne_nil pieces_ne_nil]

/-- `dir_namei` finds what is behind the last slash. -/
theorem scanBase_eq
    (noZero : 0 ∉ path) :
    scanBase path 0 path = (baseName path, (baseName path).length) := by
  induction length : path.length using Nat.strong_induction_on
    generalizing path with
  | _ length inductionHypothesis =>
    rcases pieces_cases path with ⟨noSlash, alone⟩ |
      ⟨name, rest, rfl, noSlash, more⟩
    · have whole :
          scanBase path 0 (path ++ []) = scanBase path (0 + path.length) [] :=
        scanBase_append noZero noSlash
      rw [List.append_nil] at whole
      rw [whole, baseName_of_last alone, Nat.zero_add]
      rfl
    · rw [List.mem_append, List.mem_cons, not_or, not_or] at noZero
      rw [scanBase_append noZero.1 noSlash, scanBase,
        if_neg (by decide), if_pos rfl,
        inductionHypothesis rest.length
          (by rw [← length, List.length_append, List.length_cons]; omega)
          noZero.2.2 rfl,
        baseName_of_slash more]

end Paths

end HitOs
