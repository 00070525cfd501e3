import HitOs.ExecArguments
import HitOs.Scripts

namespace HitOs

/-!
# The arguments of a script

`do_execve` for a file that begins with `#!`: the arguments of the caller, the name of
the file, the argument in the first line and the name of the interpreter are copied one
below the other, with `argc` counted by hand, and the interpreter is started.
-/

namespace Execve

open ByteStrings
open Scripts (Line Parsed lineRoom parse readString)

/-! ## The kernel stack -/

/-- Where the variables of `do_execve` are in the segment of the kernel. -/
structure Frame where
  buf : Nat
  filename : Nat
  iArg : Nat
  iName : Nat
  limit : Nat
  /-- What the kernel has elsewhere. -/
  others : Nat → Byte
  notNull : 0 < buf
  inside : buf + (lineRoom + 1) ≤ limit
  words : limit < 2 ^ 32
  apart :
    [(buf, lineRoom + 1), (filename, 4), (iArg, 4), (iName, 4)].Pairwise
      fun first second =>
        first.1 + first.2 ≤ second.1 ∨ second.1 + second.2 ≤ first.1

/-- The segment of the kernel with the line taken apart. -/
def Frame.space (frame : Frame) (parsed : Parsed) (filename : BitVec 32) :
    Space :=
  let bytes a :=
    if frame.buf ≤ a ∧ a < frame.buf + (lineRoom + 1) then
      parsed.buf (a - frame.buf)
    else
      frame.others a
  let bytes := putLong (frame.buf + parsed.iName) frame.iName bytes
  let iArg :=
    match parsed.iArg with
    | none => 0
    | some a => frame.buf + a
  let bytes := putLong iArg frame.iArg bytes
  { bytes := putLong filename.toNat frame.filename bytes
    limit := frame.limit }

/-! ## The system call -/

/-- The calls of `copy_strings` for a script, and `argc` after them. -/
def Caller.splice
    (caller : Caller)
    (frame : Frame)
    (free : Nat → Bool)
    (parsed : Parsed)
    (filename : BitVec 32)
    (argc envc argv envp : Nat) : Except Stop (Pages × Nat × Int) := do
  let kernel := frame.space parsed filename
  let user := caller.space
  let p := maxArgPages * pageSize - 4
  let (page, p) ←
    copyStringsFrom free kernel user 0 envc envp (fun _ => none) p
  let argc : Int := argc - 1
  let (page, p) ←
    copyStringsFrom free kernel user 0 argc.toNat (argv + 4) page p
  let (page, p) ←
    copyStringsFrom free kernel user 1 1 frame.filename page p
  let argc := argc + 1
  if parsed.iArg.isSome then
    let (page, p) ←
      copyStringsFrom free kernel user 2 1 frame.iArg page p
    let argc := argc + 1
    let (page, p) ←
      copyStringsFrom free kernel user 2 1 frame.iName page p
    return (page, p, argc + 1)
  else
    let (page, p) ←
      copyStringsFrom free kernel user 2 1 frame.iName page p
    return (page, p, argc + 1)

/-- `restart_interp`, where `sh_bang` is set. -/
def Caller.interpret
    (caller : Caller)
    (fresh : Nat → Byte)
    (inode : Inode)
    (argc envc : Nat)
    (page : Pages)
    (p : Nat) : Outcome :=
  if !Zones.isReg inode.mode then .failed .eacces
  else if !caller.mayExec inode then .failed .enoexec
  else
    match inode.block with
    | none => .failed .eacces
    | some block =>
      let ex := Exec.read block
      if ex.isBad inode.size then .failed .enoexec
      else if ex.nTxtoff ≠ 1024 then .failed .enoexec
      else caller.start fresh inode ex argc envc page p

/-- The interpretation of `#!`. -/
def Caller.script
    (caller : Caller)
    (frame : Frame)
    (stack : Nat → Byte)
    (free : Nat → Bool)
    (fresh : Nat → Byte)
    (namei : List Byte → Option Inode)
    (block : Nat → Byte)
    (filename : BitVec 32)
    (argv envp : Nat) : Outcome :=
  match caller.count argv, caller.count envp with
  | some argc, some envc =>
    match parse block stack with
    | none => .failed .enoexec
    | some parsed =>
      match caller.splice frame free parsed filename argc envc argv envp with
      | .error _ => .lost
      | .ok (page, p, argc) =>
        if p = 0 then
          .failed .enomem
        else
          let kernel := frame.space parsed filename
          match
            namei
              (readString kernel.bytes (lineRoom + 1)
                (frame.buf + parsed.interp)) with
          | none => .failed .enoent
          | some inode => caller.interpret fresh inode argc.toNat envc page p
  | _, _ => .lost

/-- `do_execve` for files that may be scripts, with the inode of the file. -/
def Caller.execve
    (caller : Caller)
    (frame : Frame)
    (stack : Nat → Byte)
    (free : Nat → Bool)
    (fresh : Nat → Byte)
    (namei : List Byte → Option Inode)
    (inode : Option Inode)
    (filename : BitVec 32)
    (argv envp : Nat) : Outcome :=
  match caller.doExecve free fresh inode argv envp with
  | .script =>
    match inode.bind Inode.block with
    | none => .lost
    | some block =>
      caller.script frame stack free fresh namei block filename argv envp
  | outcome => outcome

/-- A file that can be executed and is a script with a line. -/
structure Caller.AcceptsScript
    (caller : Caller)
    (inode : Inode)
    (block : Nat → Byte)
    (line : Line) : Prop where
  regular : Zones.isReg inode.mode = true
  executable : caller.mayExec inode = true
  readable : inode.block = some block
  begins : line.Begins block

/-- The name of the file stands in the segment of the caller. -/
structure Caller.HasName
    (caller : Caller)
    (filename : BitVec 32)
    (file : List Byte) : Prop where
  isString : IsString caller.bytes filename.toNat file
  ends : filename.toNat + file.length < caller.limit

/-- The program is the file that the path in the line names. -/
def Program.RunsInterpreter
    (program : Program)
    (caller : Caller)
    (namei : List Byte → Option Inode)
    (line : Line) : Prop :=
  ∃ interpreter header sp bytes,
    namei line.path = some interpreter ∧ interpreter.block = some header ∧
      program = caller.program interpreter (Exec.read header) sp bytes

/-! ## What the kernel passes -/

section Kernel

variable {frame : Frame} {parsed : Parsed} {filename : BitVec 32}
variable {line : Line}

theorem Frame.cells (frame : Frame) :
    (frame.buf + (lineRoom + 1) ≤ frame.filename ∨
        frame.filename + 4 ≤ frame.buf) ∧
      (frame.buf + (lineRoom + 1) ≤ frame.iArg ∨ frame.iArg + 4 ≤ frame.buf) ∧
      (frame.buf + (lineRoom + 1) ≤ frame.iName ∨ frame.iName + 4 ≤ frame.buf) ∧
      (frame.filename + 4 ≤ frame.iArg ∨ frame.iArg + 4 ≤ frame.filename) ∧
      (frame.filename + 4 ≤ frame.iName ∨ frame.iName + 4 ≤ frame.filename) ∧
      (frame.iArg + 4 ≤ frame.iName ∨ frame.iName + 4 ≤ frame.iArg) := by
  simpa [and_assoc] using frame.apart

/-- The variables hold the addresses of the strings. -/
theorem Frame.space_cells
    (frame : Frame)
    (filename : BitVec 32)
    (nameInside : parsed.iName ≤ lineRoom)
    (argInside : ∀ a ∈ parsed.iArg, a ≤ lineRoom) :
    getLong (frame.space parsed filename).bytes frame.filename =
        filename.toNat ∧
      (∀ a ∈ parsed.iArg,
        getLong (frame.space parsed filename).bytes frame.iArg = frame.buf + a) ∧
      getLong (frame.space parsed filename).bytes frame.iName =
        frame.buf + parsed.iName := by
  obtain ⟨_, _, _, fileArg, fileName, argName⟩ := frame.cells
  have words := frame.words
  have inside := frame.inside
  unfold Frame.space
  dsimp only
  refine ⟨getLong_putLong filename.isLt, ?_, ?_⟩
  · intro a isArg
    have below := argInside a isArg
    rw [Option.mem_def] at isArg
    have small : frame.buf + a < 2 ^ 32 := by omega
    rw [getLong_congr fun c _ _ => putLong_of_outside (by omega), isArg]
    exact getLong_putLong small
  · rw [getLong_congr fun c _ _ => putLong_of_outside (by omega),
      getLong_congr fun c _ _ => putLong_of_outside (by omega)]
    exact getLong_putLong (by omega)

/-- What the buffer has stands in the segment of the kernel. -/
theorem Frame.space_string
    {a : Nat} {string : List Byte}
    (isString : IsString parsed.buf a string)
    (inside : a + string.length ≤ lineRoom) :
    IsString (frame.space parsed filename).bytes (frame.buf + a) string := by
  obtain ⟨nonzero, holds⟩ := isString
  refine ⟨nonzero, ?_⟩
  rw [holds_iff] at holds ⊢
  intro i below
  have short : i < string.length + 1 := by
    rwa [List.length_append, List.length_singleton] at below
  obtain ⟨bufFile, bufArg, bufName, _⟩ := frame.cells
  unfold Frame.space
  dsimp only
  rw [putLong_of_outside (by omega), putLong_of_outside (by omega),
    putLong_of_outside (by omega), if_pos (by omega), ← holds i below]
  congr 1
  omega

end Kernel

section Passing

variable {pointers space : Space} {argv : Nat} {strings : List (List Byte)}
variable {string : List Byte}

/-- A variable that points to a string is a vector of one string. -/
theorem offers_one
    {a : Nat}
    (pointer : getLong pointers.bytes argv = a)
    (notNull : a ≠ 0)
    (isString : IsString space.bytes a string)
    (inside : a + string.length < space.limit) :
    Offers pointers space argv [string] := by
  refine ⟨?_, ?_, ?_⟩
  all_goals
    intro i first
    obtain rfl : i = 0 := Nat.lt_one_iff.mp first
    rw [Nat.mul_zero, Nat.add_zero, pointer]
  · exact notNull
  · exact isString
  · exact inside

/-- The vector without its first string. -/
theorem Offers.tail
    (offers : Offers pointers space argv strings) :
    Offers pointers space (argv + 4) strings.tail := by
  cases strings with
  | nil =>
    exact
      ⟨fun i inside => absurd inside (Nat.not_lt_zero i),
        fun i inside => absurd inside (Nat.not_lt_zero i),
        fun i inside => absurd inside (Nat.not_lt_zero i)⟩
  | cons first strings =>
    have next (i : Nat) : argv + 4 + 4 * i = argv + 4 * (i + 1) := by omega
    refine ⟨fun i inside => ?_, fun i inside => ?_, fun i inside => ?_⟩
    · rw [next]
      exact offers.pointer (i + 1) (Nat.succ_lt_succ inside)
    · rw [next]
      exact offers.pointed (i + 1) (Nat.succ_lt_succ inside)
    · rw [next]
      exact offers.ends (i + 1) (Nat.succ_lt_succ inside)

end Passing

/-! ## One below the other -/

/-- Strings have been copied down to `p`, the others before. -/
def Stacked (page : Pages) (p : Nat) (strings : List (List Byte)) : Prop :=
  p + (packed strings).length = argRoom ∧
    Holds (byteAt page) p ((packed strings).map some)

section Stacking

variable {free : Nat → Bool} {kernel user : Space} {fromKmem argv : Nat}
variable {strings others : List (List Byte)} {page page' : Pages}
variable {p p' : Nat}

/-- A copy that does not fail puts its strings below those that are there. -/
theorem Stacked.copied
    (stacked : p ≠ 0 → Stacked page p others)
    (offers :
      Offers (pointersFrom kernel user fromKmem)
        (spaceFrom kernel user fromKmem) argv strings)
    (copies :
      copyStringsFrom free kernel user fromKmem strings.length argv page p =
        .ok (page', p'))
    (notNull : p' ≠ 0) :
    p ≠ 0 ∧ Stacked page' p' (strings ++ others) := by
  have inside : p ≤ maxArgPages * pageSize := by
    by_cases zero : p = 0
    · rw [zero]
      exact Nat.zero_le _
    · have place := (stacked zero).1
      unfold argRoom at place
      omega
  obtain ⟨isSome, place, holds, keeps⟩ :=
    copyStringsFrom_ok offers inside copies notNull
  obtain ⟨all, stands⟩ := stacked isSome
  refine ⟨isSome, ?_, ?_⟩
  · rw [packed_append, List.length_append]
    omega
  · rw [packed_append, List.map_append, holds_append, List.length_map, place]
    refine ⟨holds, ?_⟩
    rw [holds_iff] at stands ⊢
    intro i below
    have there := stands i below
    rw [List.getElem_map] at there ⊢
    exact keeps _ (Nat.le_add_right _ _) _ there

/-- Without a name of the file `copy_strings` panics or has failed before. -/
theorem copyStringsFrom_null
    (null : getLong (pointersFrom kernel user fromKmem).bytes argv = 0)
    (copies :
      copyStringsFrom free kernel user fromKmem 1 argv page p = .ok (page', p')) :
    p' = 0 := by
  unfold copyStringsFrom at copies
  dsimp only at copies
  split at copies
  · cases copies
    rfl
  · have panics (space : Space) (copy : Copy) :
        Copy.strings free (pointersFrom kernel user fromKmem) space argv 1
          copy = .error .panic := by
      unfold Copy.strings
      dsimp only
      rw [Nat.mul_zero, Nat.add_zero, if_pos null]
    unfold pointersFrom at panics
    rw [panics] at copies
    cases copies

/-- What is bound to a result that is there. -/
theorem bind_ok
    {α β : Type} {first : Except Stop α} {continuation : α → Except Stop β} {result : β}
    (bound : first >>= continuation = .ok result) :
    ∃ value, first = .ok value ∧ continuation value = .ok result := by
  cases first with
  | error stop =>
    cases bound
  | ok value =>
    exact ⟨value, rfl, bound⟩

end Stacking

section Scripts

variable {caller : Caller} {frame : Frame} {free : Nat → Bool}
variable {fresh stack block : Nat → Byte} {namei : List Byte → Option Inode}
variable {inode : Inode} {line : Line} {parsed : Parsed}
variable {filename : BitVec 32} {argv envp p : Nat} {argc : Int}
variable {file : List Byte} {args env : List (List Byte)} {page : Pages}

theorem Parsed.Finds.places
    (finds : parsed.Finds line.path line.name line.arg) :
    parsed.iName ≤ lineRoom ∧ ∀ a ∈ parsed.iArg, a ≤ lineRoom := by
  refine ⟨Nat.le_trans (Nat.le_add_right _ _) finds.nameInside, ?_⟩
  intro a isArg
  rcases finds.iArg with ⟨isNone, _⟩ | ⟨b, _, isSome, _, _, inside⟩
  · rw [isNone] at isArg
    cases isArg
  · rw [isSome] at isArg
    cases isArg
    omega

/-- The name of the file comes below the rest of the arguments, if it is passed. -/
theorem stacked_file
    {others : List (List Byte)} {page' : Pages} {p' : Nat}
    (finds : parsed.Finds line.path line.name line.arg)
    (named : caller.HasName filename file)
    (stacked : p ≠ 0 → Stacked page p others)
    (copies :
      copyStringsFrom free (frame.space parsed filename) caller.space 1 1
        frame.filename page p = .ok (page', p'))
    (notNull : p' ≠ 0) :
    Stacked page' p' (file :: others) := by
  obtain ⟨nameInside, argInside⟩ := Parsed.Finds.places finds
  have cell : getLong
      (pointersFrom (frame.space parsed filename) caller.space 1).bytes
      frame.filename = filename.toNat :=
    (frame.space_cells filename nameInside argInside).1
  have pointer : filename.toNat ≠ 0 := fun null =>
    notNull (copyStringsFrom_null (cell.trans null) copies)
  have offers : Offers
      (pointersFrom (frame.space parsed filename) caller.space 1)
      (spaceFrom (frame.space parsed filename) caller.space 1)
      frame.filename [file] :=
    offers_one cell pointer named.isString named.ends
  exact (Stacked.copied stacked offers copies notNull).2

/-- A string in the buffer comes below the others. -/
theorem stacked_buffer
    {others : List (List Byte)} {string : List Byte} {page' : Pages}
    {cell a p' : Nat}
    (pointer :
      getLong (frame.space parsed filename).bytes cell = frame.buf + a)
    (isString : IsString parsed.buf a string)
    (inside : a + string.length ≤ lineRoom)
    (stacked : p ≠ 0 → Stacked page p others)
    (copies :
      copyStringsFrom free (frame.space parsed filename) caller.space 2 1 cell
        page p = .ok (page', p'))
    (notNull : p' ≠ 0) :
    Stacked page' p' (string :: others) := by
  have positive := frame.notNull
  have limit := frame.inside
  have ends : frame.buf + a + string.length <
      (frame.space parsed filename).limit := by
    show _ < frame.limit
    omega
  have offers : Offers
      (pointersFrom (frame.space parsed filename) caller.space 2)
      (spaceFrom (frame.space parsed filename) caller.space 2)
      cell [string] :=
    offers_one pointer (by omega) (frame.space_string isString inside) ends
  exact (Stacked.copied stacked offers copies notNull).2

/-- The five copies leave the vector of the interpreter and the environment. -/
theorem splice_stacked
    (finds : parsed.Finds line.path line.name line.arg)
    (named : caller.HasName filename file)
    (argvHas : caller.HasVector argv args)
    (envpHas : caller.HasVector envp env)
    (splices :
      caller.splice frame free parsed filename args.length env.length argv envp =
        .ok (page, p, argc))
    (notNull : p ≠ 0) :
    Stacked page p (line.vector file args ++ env) ∧
      argc + (if args = [] then 1 else 0) = (line.vector file args).length := by
  unfold Caller.splice at splices
  dsimp only at splices
  obtain ⟨⟨page₁, p₁⟩, copiesEnv, splices⟩ := bind_ok splices
  dsimp only at splices
  obtain ⟨⟨page₂, p₂⟩, copiesArgs, splices⟩ := bind_ok splices
  dsimp only at splices
  obtain ⟨⟨page₃, p₃⟩, copiesFile, splices⟩ := bind_ok splices
  dsimp only at splices
  have start : maxArgPages * pageSize - 4 ≠ 0 →
      Stacked (fun _ => none) (maxArgPages * pageSize - 4) [] :=
    fun _ => ⟨rfl, rfl⟩
  have envOffers : Offers
      (pointersFrom (frame.space parsed filename) caller.space 0)
      (spaceFrom (frame.space parsed filename) caller.space 0) envp env :=
    envpHas.offers
  have stacked₁ : p₁ ≠ 0 → Stacked page₁ p₁ (env ++ []) := fun isSome =>
    (Stacked.copied start envOffers copiesEnv isSome).2
  have rest : ((args.length : Int) - 1).toNat = args.tail.length := by
    rw [List.length_tail]
    omega
  rw [rest] at copiesArgs
  have argOffers : Offers
      (pointersFrom (frame.space parsed filename) caller.space 0)
      (spaceFrom (frame.space parsed filename) caller.space 0) (argv + 4)
      args.tail :=
    argvHas.offers.tail
  have stacked₂ : p₂ ≠ 0 → Stacked page₂ p₂ (args.tail ++ (env ++ [])) :=
    fun isSome => (Stacked.copied stacked₁ argOffers copiesArgs isSome).2
  rw [List.append_nil] at stacked₂
  have stacked₃ : p₃ ≠ 0 → Stacked page₃ p₃ (file :: (args.tail ++ env)) :=
    fun isSome => stacked_file finds named stacked₂ copiesFile isSome
  obtain ⟨nameInside, argInside⟩ := Parsed.Finds.places finds
  obtain ⟨_, argCell, nameCell⟩ :=
    frame.space_cells filename nameInside argInside
  have count : (args.tail.length : Int) =
      args.length - 1 + (if args = [] then 1 else 0) := by
    cases args with
    | nil =>
      rfl
    | cons first args =>
      rw [if_neg (List.cons_ne_nil _ _), List.tail_cons, List.length_cons]
      omega
  unfold Line.vector
  rcases finds.iArg with ⟨isNone, noArg⟩ | ⟨a, string, isSome, isArg, stands, inside⟩
  · rw [isNone] at splices
    simp only [Option.isSome_none, Bool.false_eq_true, if_false] at splices
    obtain ⟨⟨page₄, p₄⟩, copiesName, splices⟩ := bind_ok splices
    cases splices
    rw [noArg]
    refine ⟨stacked_buffer nameCell finds.iName finds.nameInside stacked₃
      copiesName notNull, ?_⟩
    simp only [Option.toList_none, List.nil_append, List.length_cons]
    omega
  · rw [isSome] at splices
    simp only [Option.isSome_some, if_true] at splices
    obtain ⟨⟨page₄, p₄⟩, copiesArg, splices⟩ := bind_ok splices
    obtain ⟨⟨page₅, p₅⟩, copiesName, splices⟩ := bind_ok splices
    cases splices
    have stacked₄ : p₄ ≠ 0 →
        Stacked page₄ p₄ (string :: file :: (args.tail ++ env)) :=
      fun occupied =>
        stacked_buffer (argCell a isSome) stands inside stacked₃ copiesArg occupied
    rw [isArg]
    refine ⟨stacked_buffer nameCell finds.iName finds.nameInside stacked₄
      copiesName notNull, ?_⟩
    simp only [Option.toList_some, List.singleton_append, List.length_cons]
    omega

/-- A script gets to where its line is taken apart. -/
theorem doExecve_script
    (accepts : caller.AcceptsScript inode block line)
    (argvHas : caller.HasVector argv args)
    (envpHas : caller.HasVector envp env) :
    caller.doExecve free fresh (some inode) argv envp = .script := by
  have magic : block 0 = 0x23 ∧ block 1 = 0x21 :=
    ⟨Scripts.holds_first accepts.begins.magic,
      Scripts.holds_first (Scripts.holds_rest accepts.begins.magic)⟩
  unfold Caller.doExecve
  dsimp only
  rw [argvHas.count, envpHas.count]
  dsimp only
  rw [accepts.regular, accepts.executable, accepts.readable]
  dsimp only
  rw [Bool.not_true, if_neg Bool.false_ne_true, if_neg Bool.false_ne_true, if_pos magic]

theorem interpret_started
    {argc envc : Nat} {program : Program}
    (started :
      caller.interpret fresh inode argc envc page p = .started program) :
    ∃ header,
      inode.block = some header ∧
        caller.start fresh inode (Exec.read header) argc envc page p =
          .started program := by
  unfold Caller.interpret at started
  split_ifs at started
  split at started
  · cases started
  case _ header readable =>
    dsimp only at started
    split_ifs at started
    exact ⟨header, readable, started⟩

/-- A script that is started has been taken apart, copied and looked up. -/
theorem execve_started
    {program : Program}
    (accepts : caller.AcceptsScript inode block line)
    (named : caller.HasName filename file)
    (argvHas : caller.HasVector argv args)
    (envpHas : caller.HasVector envp env)
    (started :
      caller.execve frame stack free fresh namei (some inode) filename argv
        envp = .started program) :
    ∃ page p argc interpreter header,
      Stacked page p (line.vector file args ++ env) ∧
        argc + (if args = [] then 1 else 0) = ((line.vector file args).length : Int) ∧
        namei line.path = some interpreter ∧
        interpreter.block = some header ∧
        caller.start fresh interpreter (Exec.read header) argc.toNat env.length
          page p = .started program := by
  unfold Caller.execve at started
  rw [doExecve_script accepts argvHas envpHas] at started
  dsimp only at started
  rw [Option.bind_some, accepts.readable] at started
  dsimp only at started
  obtain ⟨parsed, parses, finds⟩ :=
    Scripts.parse_spec accepts.begins stack
  unfold Caller.script at started
  rw [argvHas.count, envpHas.count] at started
  dsimp only at started
  rw [parses] at started
  dsimp only at started
  split at started
  · cases started
  case _ page p argc splices =>
    split_ifs at started with zero
    obtain ⟨stacked, counted⟩ :=
      splice_stacked finds named argvHas envpHas splices zero
    have interp : readString (frame.space parsed filename).bytes (lineRoom + 1)
        (frame.buf + parsed.interp) = line.path := by
      have inside := finds.pathInside
      exact Scripts.readString_eq
        (frame.space_string finds.interp finds.pathInside) (by omega)
    rw [interp] at started
    split at started
    · cases started
    case _ interpreter found =>
      obtain ⟨header, readable, starts⟩ := interpret_started started
      exact ⟨page, p, argc, interpreter, header, stacked, counted, found,
        readable, starts⟩

/-- No string of the vector of an interpreter has a zero in it. -/
theorem vector_nonzero
    (named : caller.HasName filename file)
    (argvHas : caller.HasVector argv args) :
    ∀ string ∈ line.vector file args, ∀ c ∈ string, c ≠ 0 := by
  intro string member c inString
  unfold Line.vector at member
  rcases List.mem_cons.mp member with rfl | later
  · have inPath : c ∈ line.path :=
      (List.rtakeWhile_suffix _ _).subset inString
    exact (line.pathPlain c inPath).1
  · rcases List.mem_append.mp later with inArg | rest
    · unfold Line.arg at inArg
      exact (line.restPlain string (Option.mem_toList.mp inArg) c inString).1
    · rcases List.mem_cons.mp rest with rfl | inArgs
      · exact named.isString.nonzero c inString
      · exact argvHas.nonzero string (List.mem_of_mem_tail inArgs) c inString

/-- With the right count the interpreter finds its arguments. -/
theorem start_counted
    {program : Program} {ex : Exec}
    (stacked : Stacked page p (args ++ env))
    (nonzero : ∀ string ∈ args ++ env, ∀ c ∈ string, c ≠ 0)
    (spares : ex.Spares args env)
    (started :
      caller.start fresh inode ex args.length env.length page p = .started program) :
    program.HasArguments args env := by
  obtain ⟨all, holds⟩ := stacked
  have fits : total args env ≤ argRoom := by
    unfold total
    omega
  have place : p = argRoom - total args env := by
    unfold total
    omega
  rw [place] at holds started
  obtain ⟨bytes, starts, has⟩ := start_spec holds nonzero fits spares
  rw [starts] at started
  cases started
  exact has

/-- With a count that is one too small it finds this count. -/
theorem start_miscounted
    {program : Program} {ex : Exec}
    (notZero : args ≠ [])
    (stacked : Stacked page p (args ++ env))
    (nonzero : ∀ string ∈ args ++ env, ∀ c ∈ string, c ≠ 0)
    (spares : ex.Spares args env)
    (started :
      caller.start fresh inode ex (args.length - 1) env.length page p =
        .started program) :
    ¬ program.HasArguments args env := by
  obtain ⟨all, holds⟩ := stacked
  have fits : total args env ≤ argRoom := by
    unfold total
    omega
  have place : p = argRoom - total args env := by
    unfold total
    omega
  -- The tables go over the strings as if the last one were of the environment.
  obtain ⟨shown, rest, split, shownLength, restLength⟩ :
      ∃ shown rest, args ++ env = shown ++ rest ∧
        shown.length + 1 = args.length ∧ rest.length = env.length + 1 := by
    refine ⟨args.dropLast, args.getLast notZero :: env, ?_, ?_, List.length_cons⟩
    · rw [List.append_cons, List.dropLast_append_getLast]
    · rw [List.length_dropLast]
      have := List.length_pos_iff.mpr notZero
      omega
  have taken : rest.take env.length ++ rest.drop env.length = rest :=
    List.take_append_drop _ _
  have takenLength : (rest.take env.length).length = env.length := by
    rw [List.length_take]
    omega
  rw [split] at holds nonzero all
  have packs : packed (shown ++ rest) =
      packed (shown ++ rest.take env.length) ++
        packed (rest.drop env.length) := by
    rw [← packed_append, List.append_assoc, taken]
  rw [packs, List.map_append, holds_append] at holds
  rw [packs, List.length_append] at all
  have pointer :
      (p + dataLimit - maxArgPages * pageSize) / 4 * 4 =
        stackPointer args env + 4 +
          4 * (shown.length + (rest.take env.length).length + 5) := by
    rw [place, start_place fits, stackPointer_spec fits]
    omega
  have nonzero' : ∀ string ∈ shown ++ rest.take env.length,
      ∀ c ∈ string, c ≠ 0 := by
    intro string member
    refine nonzero string ?_
    rcases List.mem_append.mp member with inShown | inRest
    · exact List.mem_append_left _ inShown
    · exact List.mem_append_right _ (List.mem_of_mem_take inRest)
  obtain ⟨bytes, starts, laid⟩ :=
    start_laid holds.1 nonzero' (by omega) pointer spares.inside
      fun _ above below => spares.outside (by omega) below
  have fewer : args.length - 1 = shown.length := by omega
  rw [takenLength] at starts
  rw [fewer, starts] at started
  cases started
  intro has
  have wrong := laid.argc.symm.trans has.argc
  omega

/--
A script that is started gets the arguments that are promised, if and only if the caller
has passed any: without arguments there is none to be replaced, and `argc` is one less
than there are strings.
-/
theorem script_spliced_iff
    {program : Program}
    (accepts : caller.AcceptsScript inode block line)
    (named : caller.HasName filename file)
    (argvHas : caller.HasVector argv args)
    (envpHas : caller.HasVector envp env)
    (spares :
      ∀ interpreter header,
        namei line.path = some interpreter → interpreter.block = some header →
          (Exec.read header).Spares (line.vector file args) env)
    (started :
      caller.execve frame stack free fresh namei (some inode) filename argv
        envp = .started program) :
    (program.RunsInterpreter caller namei line ∧
        program.HasArguments (line.vector file args) env) ↔
      args ≠ [] := by
  obtain ⟨page, p, argc, interpreter, header, stacked, counted, found, readable,
    starts⟩ := execve_started accepts named argvHas envpHas started
  have nonzero : ∀ string ∈ line.vector file args ++ env,
      ∀ c ∈ string, c ≠ 0 := by
    intro string member
    rcases List.mem_append.mp member with inVector | inEnv
    · exact vector_nonzero named argvHas string inVector
    · exact envpHas.nonzero string inEnv
  have spared := spares interpreter header found readable
  by_cases isNone : args = []
  · refine iff_of_false ?_ fun isSome => isSome isNone
    rw [if_pos isNone] at counted
    have fewer : argc.toNat = (line.vector file args).length - 1 := by omega
    rw [fewer] at starts
    rintro ⟨_, has⟩
    exact start_miscounted (List.cons_ne_nil _ _) stacked nonzero spared starts
      has
  · refine iff_of_true ⟨?_, ?_⟩ isNone
    · have runs := starts
      unfold Caller.start at runs
      dsimp only at runs
      split at runs
      · cases runs
      · split at runs
        · cases runs
        · cases runs
          exact ⟨interpreter, header, _, _, found, readable, rfl⟩
    · rw [if_neg isNone] at counted
      have same : argc.toNat = (line.vector file args).length := by omega
      rw [same] at starts
      exact start_counted stacked nonzero spared starts

end Scripts

/-! ## A line of one path -/

/-- A frame with its variables below the buffer. -/
def lowFrame : Frame where
  buf := 0x2000
  filename := 0x1000
  iArg := 0x1004
  iName := 0x1008
  limit := 0x1000000
  others := fun _ => 0
  notNull := by decide
  inside := by decide
  words := by decide
  apart := by decide

/-- The path `/s` alone. -/
def lineOfPath : Line where
  blanks := []
  path := [0x2f, 0x73]
  rest := none
  blanksBlank := by decide
  pathSome := by decide
  pathPlain := by decide
  restBlank := by decide
  restPlain := by decide

/-- `#!/s` -/
def scriptBlock (a : Nat) : Byte :=
  [0x23, 0x21, 0x2f, 0x73, 0x0a].getD a 0

/-- The interpreter is an empty program. -/
def nameiOfPath (path : List Byte) : Option Inode :=
  if path = [0x2f, 0x73] then some (.ofBlock (header 0 0 0)) else none

/-- The script, which has the name `a`, is executed with these arguments. -/
def Caller.executesScript (caller : Caller) (argv : Nat) : Outcome :=
  caller.execve lowFrame (fun _ => 0) (fun _ => true) (fun _ => 0) nameiOfPath
    (some (.ofBlock scriptBlock)) 0x2000 argv 0

theorem acceptsScript :
    (Caller.ofLetters 1).AcceptsScript (.ofBlock scriptBlock) scriptBlock
      lineOfPath :=
  ⟨by decide, by decide, rfl, ⟨rfl, rfl, by decide⟩⟩

theorem hasName :
    (Caller.ofLetters 1).HasName 0x2000 [0x61] :=
  ⟨⟨by decide, rfl⟩, by decide⟩

/-- The spared header of an empty program. -/
theorem nameiOfPath_spares
    (args : List (List Byte))
    (interpreter : Inode)
    (header' : Nat → Byte)
    (found : nameiOfPath lineOfPath.path = some interpreter)
    (readable : interpreter.block = some header') :
    (Exec.read header').Spares args [] := by
  have same : nameiOfPath lineOfPath.path = some (.ofBlock (header 0 0 0)) := rfl
  rw [same] at found
  cases found
  cases readable
  exact .inl (by decide)

/-- With an argument all goes well. -/
theorem script_spliced_iff_letter :
    ∃ program,
      (Caller.ofLetters 1).executesScript 0x1000 = .started program ∧
        program.HasArguments [[0x73], [0x61]] [] := by
  have starts :
      (match (Caller.ofLetters 1).executesScript 0x1000 with
      | .started _ => true
      | _ => false) = true := by
    decide +kernel
  split at starts
  case h_2 =>
    cases starts
  case h_1 program started =>
    have argvHas : (Caller.ofLetters 1).HasVector 0x1000 [[0x61]] :=
      Caller.ofLetters_has (by decide)
    have envpHas : (Caller.ofLetters 1).HasVector 0 [] := .inl ⟨rfl, rfl⟩
    have spliced :=
      (script_spliced_iff acceptsScript hasName argvHas envpHas
        (nameiOfPath_spares _) started).mpr (List.cons_ne_nil _ _)
    exact ⟨program, started, spliced.2⟩

/-- Without arguments the name of the script is not counted. -/
theorem script_miscounted :
    (Caller.ofLetters 1).AcceptsScript (.ofBlock scriptBlock) scriptBlock
        lineOfPath ∧
      (Caller.ofLetters 1).HasName 0x2000 [0x61] ∧
      (Caller.ofLetters 1).HasVector 0 [] ∧
      ∃ program,
        (Caller.ofLetters 1).executesScript 0 = .started program ∧
          ¬ program.HasArguments (lineOfPath.vector [0x61] []) [] := by
  have counts :
      (match (Caller.ofLetters 1).executesScript 0 with
      | .started program =>
        decide (getLong program.bytes program.sp = 1)
      | _ => false) = true := by
    decide +kernel
  split at counts
  case h_2 =>
    cases counts
  case h_1 program started =>
    refine ⟨acceptsScript, hasName, .inl ⟨rfl, rfl⟩, program, started, ?_⟩
    intro has
    have two := (of_decide_eq_true counts).symm.trans has.argc
    exact absurd two (by decide)

end Execve

end HitOs
