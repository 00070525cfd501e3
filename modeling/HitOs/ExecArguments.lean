import HitOs.ExecCopies
import HitOs.ExecTables

namespace HitOs

/-!
# The arguments of a new program

What `copy_strings` has written backwards into the pages is what `create_tables` reads
forwards at the end of the new segment.  Afterwards the rest of the last page of the data
is cleared, which must not be a page of the arguments.
-/

namespace Execve

open ByteStrings

/-- The bytes that fit in the argument pages. -/
def argRoom : Nat := maxArgPages * pageSize - 4

/-- The bytes of all strings. -/
def total (args env : List (List Byte)) : Nat :=
  (packed (args ++ env)).length

/-- The stack pointer of a new program, by what its arguments take. -/
def stackPointer (args env : List (List Byte)) : Nat :=
  (dataLimit - 4 - total args env) / 4 * 4 -
    4 * (args.length + env.length + 5)

/-- What is cleared behind the data is none of the arguments. -/
def Exec.Spares (ex : Exec) (args env : List (List Byte)) : Prop :=
  let i := (ex.text + ex.data).toNat
  i % pageSize = 0 ∨
    (i / pageSize + 1) * pageSize ≤ stackPointer args env ∨
    dataLimit - 4 ≤ i ∧ i < dataLimit

/-- A file that can be executed and is no script. -/
structure Caller.Accepts
    (caller : Caller)
    (inode : Inode)
    (block : Nat → Byte) : Prop where
  regular : Zones.isReg inode.mode = true
  executable : caller.mayExec inode = true
  readable : inode.block = some block
  noScript : ¬ (block 0 = 0x23 ∧ block 1 = 0x21)
  good : (Exec.read block).isBad inode.size = false

/-- What a new program finds at its stack pointer. -/
structure Program.HasArguments
    (program : Program)
    (args env : List (List Byte)) : Prop where
  argc : getLong program.bytes program.sp = args.length
  argv :
    IsVector program.bytes (getLong program.bytes (program.sp + 4)) args
  envp :
    IsVector program.bytes (getLong program.bytes (program.sp + 8)) env

section Arguments

variable {caller : Caller} {free : Nat → Bool} {fresh : Nat → Byte}
variable {args env : List (List Byte)} {argv envp : Nat}
variable {page : Pages} {inode : Inode} {block : Nat → Byte}

theorem total_eq :
    total args env = (packed args).length + (packed env).length := by
  unfold total
  rw [packed_append, List.length_append]

/-- There are no more strings than bytes. -/
theorem number_le_total : args.length + env.length ≤ total args env := by
  have few : (args ++ env).length ≤ (packed (args ++ env)).length :=
    length_le_packed
  rw [List.length_append] at few
  exact few

theorem Caller.HasVector.nonzero
    {strings : List (List Byte)}
    (has : caller.HasVector argv strings) :
    ∀ string ∈ strings, ∀ c ∈ string, c ≠ 0 := by
  intro string member
  rcases has with ⟨_, rfl⟩ | ⟨_, isVector, _⟩
  · exact absurd member List.not_mem_nil
  · obtain ⟨i, inside, rfl⟩ := List.getElem_of_mem member
    exact (isVector.pointed i inside).nonzero

/-! ## The pages -/

/-- Both calls of `copy_strings` together pack all strings. -/
theorem arguments_copied
    (gets : ∀ number, free number = true)
    (argvHas : caller.HasVector argv args)
    (envpHas : caller.HasVector envp env)
    (fits : total args env ≤ argRoom) :
    ∃ first page p,
      copyStrings free caller env.length envp (fun _ => none) argRoom =
          .ok (first, p) ∧
        copyStrings free caller args.length argv first p =
          .ok (page, argRoom - total args env) ∧
        Holds (byteAt page) (argRoom - total args env)
          ((packed (args ++ env)).map some) := by
  rw [total_eq] at fits ⊢
  have small : argRoom ≤ maxArgPages * pageSize := Nat.sub_le _ _
  obtain ⟨first, copiesEnv, envHolds, _⟩ :=
    copyStrings_spec gets envpHas small (by omega)
  obtain ⟨page, copiesArgs, argsHold, keeps⟩ :=
    copyStrings_spec gets argvHas
      (show argRoom - (packed env).length ≤ maxArgPages * pageSize by omega)
      (by omega)
  have place : argRoom - (packed env).length - (packed args).length =
      argRoom - ((packed args).length + (packed env).length) := by
    omega
  rw [place] at copiesArgs argsHold
  refine ⟨first, page, _, copiesEnv, copiesArgs, ?_⟩
  have behind : argRoom - ((packed args).length + (packed env).length) +
      (packed args).length = argRoom - (packed env).length := by
    omega
  rw [packed_append, List.map_append, holds_append, List.length_map, behind]
  refine ⟨argsHold, ?_⟩
  rw [holds_iff] at envHolds ⊢
  intro i inside
  have there := envHolds i inside
  rw [List.getElem_map] at there ⊢
  exact keeps _ (Nat.le_add_right _ _) _ there

/-- What the pages hold stands at the end of the new segment. -/
theorem changeLdt_holds
    {p : Nat} {xs : List Byte}
    (holds : Holds (byteAt page) p (xs.map some)) :
    Holds (changeLdt page fresh)
      (dataLimit - maxArgPages * pageSize + p) xs := by
  rw [holds_iff] at holds ⊢
  intro i inside
  have there := holds i (by rw [List.length_map]; exact inside)
  rw [List.getElem_map] at there
  unfold changeLdt
  dsimp only
  rw [if_neg (by omega), Nat.add_assoc, Nat.add_sub_cancel_left, there]
  rfl

/-! ## The end of the data -/

/-- Only the rest of the page of `i` is cleared. -/
theorem clearTail_spec
    {rounds i : Nat} {bytes : Nat → Byte}
    (enough : (pageSize - i % pageSize) % pageSize < rounds)
    (inside : i % pageSize = 0 ∨ i < dataLimit) :
    ∃ bytes',
      clearTail rounds i bytes = some bytes' ∧
        ∀ a,
          i % pageSize = 0 ∨ a < i ∨ (i / pageSize + 1) * pageSize ≤ a →
            bytes' a = bytes a := by
  induction rounds generalizing i bytes with
  | zero =>
    exact absurd enough (Nat.not_lt_zero _)
  | succ rounds inductionHypothesis =>
    unfold clearTail
    by_cases aligned : i % pageSize = 0
    case pos =>
      rw [if_pos aligned]
      exact ⟨bytes, rfl, fun _ _ => rfl⟩
    case neg =>
      have below := inside.resolve_left aligned
      rw [if_neg aligned, if_neg (Nat.not_le.mpr below)]
      have next : (i + 1) % pageSize = 0 ∨ i + 1 < dataLimit := by
        unfold pageSize dataLimit at *
        omega
      have fewer : (pageSize - (i + 1) % pageSize) % pageSize < rounds := by
        unfold pageSize at *
        omega
      obtain ⟨bytes', clears, others⟩ := inductionHypothesis fewer next
      refine ⟨bytes', clears, fun a outside => ?_⟩
      rw [others a]
      · refine Function.update_of_ne ?_ _ _
        rintro rfl
        unfold pageSize at *
        omega
      · unfold pageSize at *
        omega

/-! ## The new program -/

/-- What `create_tables` makes is what a program looks for. -/
theorem Laid.hasArguments
    {program : Program} {p : Nat}
    (laid : Laid program.bytes program.sp p args env)
    (nonzero : ∀ string ∈ args ++ env, ∀ c ∈ string, c ≠ 0)
    (notNull : 0 < p) :
    program.HasArguments args env := by
  have holds := laid.strings
  rw [packed_append, holds_append] at holds
  refine ⟨laid.argc, ?_, ?_⟩
  · rw [laid.argv]
    exact laid.argsPoint.isVector holds.1
      (fun string member => nonzero string (List.mem_append_left _ member))
      notNull
  · rw [laid.envp]
    exact laid.envPoint.isVector holds.2
      (fun string member => nonzero string (List.mem_append_right _ member))
      (Nat.lt_of_lt_of_le notNull (Nat.le_add_right _ _))

/-- Where the strings begin in the new segment. -/
theorem start_place (fits : total args env ≤ argRoom) :
    argRoom - total args env + dataLimit - maxArgPages * pageSize =
      dataLimit - 4 - total args env := by
  unfold argRoom maxArgPages pageSize at *
  unfold dataLimit
  omega

/-- The tables fit below the strings. -/
theorem stackPointer_spec (fits : total args env ≤ argRoom) :
    (dataLimit - 4 - total args env) / 4 * 4 =
      stackPointer args env + 4 * (args.length + env.length + 5) := by
  have few : args.length + env.length ≤ total args env :=
    number_le_total
  unfold stackPointer
  unfold argRoom maxArgPages pageSize at fits
  unfold dataLimit
  omega

/-- What is cleared ends within the segment. -/
theorem Exec.Spares.inside
    {ex : Exec}
    (spares : ex.Spares args env) :
    (ex.text + ex.data).toNat % pageSize = 0 ∨
      (ex.text + ex.data).toNat < dataLimit := by
  have low : stackPointer args env ≤ dataLimit := by
    unfold stackPointer
    omega
  rcases spares with aligned | below | ⟨_, last⟩
  · exact .inl aligned
  · refine .inr ?_
    unfold pageSize at below
    omega
  · exact .inr last

/-- What is cleared is not between the stack pointer and the end of the strings. -/
theorem Exec.Spares.outside
    {ex : Exec} {a : Nat}
    (spares : ex.Spares args env)
    (above : stackPointer args env ≤ a)
    (below : a < dataLimit - 4) :
    (ex.text + ex.data).toNat % pageSize = 0 ∨
      a < (ex.text + ex.data).toNat ∨
      ((ex.text + ex.data).toNat / pageSize + 1) * pageSize ≤ a := by
  rcases spares with aligned | under | ⟨behind, _⟩
  · exact .inl aligned
  · exact .inr (.inr (Nat.le_trans under above))
  · exact .inr (.inl (Nat.lt_of_lt_of_le below behind))

/--
Behind the point of no return the tables are laid out for strings from any place in the
pages on, unless the clearing gets to what is between the stack pointer and their end.
-/
theorem start_laid
    {ex : Exec} {p sp : Nat}
    (holds :
      Holds (byteAt page) p ((packed (args ++ env)).map some))
    (nonzero : ∀ string ∈ args ++ env, ∀ c ∈ string, c ≠ 0)
    (fits : p + (packed (args ++ env)).length ≤ argRoom)
    (place :
      (p + dataLimit - maxArgPages * pageSize) / 4 * 4 =
        sp + 4 * (args.length + env.length + 5))
    (inside :
      (ex.text + ex.data).toNat % pageSize = 0 ∨ (ex.text + ex.data).toNat < dataLimit)
    (spares :
      ∀ a, sp ≤ a → a < dataLimit - 4 →
        (ex.text + ex.data).toNat % pageSize = 0 ∨
          a < (ex.text + ex.data).toNat ∨
          ((ex.text + ex.data).toNat / pageSize + 1) * pageSize ≤ a) :
    ∃ bytes,
      caller.start fresh inode ex args.length env.length page p =
          .started (caller.program inode ex sp bytes) ∧
        Laid bytes sp (p + dataLimit - maxArgPages * pageSize) args env := by
  have base : dataLimit - maxArgPages * pageSize + p =
      p + dataLimit - maxArgPages * pageSize := by
    rw [Nat.add_comm p, Nat.sub_add_comm]
    decide
  have stands : Holds (changeLdt page fresh)
      (p + dataLimit - maxArgPages * pageSize) (packed (args ++ env)) :=
    base ▸ changeLdt_holds holds
  have room : maxArgPages * pageSize = argRoom + 4 := by decide
  have upTo : p + dataLimit - maxArgPages * pageSize +
      (packed (args ++ env)).length ≤ dataLimit - 4 := by
    have small : argRoom + 4 ≤ dataLimit := by decide
    rw [room]
    omega
  obtain ⟨bytes, creates, laid⟩ :=
    createTables_spec stands nonzero place
      (Nat.le_trans upTo (Nat.sub_le _ _))
  have enough : (pageSize - (ex.text + ex.data).toNat % pageSize) %
      pageSize < pageSize + 1 :=
    Nat.lt_succ_of_lt (Nat.mod_lt _ (by decide))
  have clearing :
      ∃ bytes',
        clearTail (pageSize + 1) (ex.text + ex.data).toNat bytes =
            some bytes' ∧
          ∀ a,
            (ex.text + ex.data).toNat % pageSize = 0 ∨
                a < (ex.text + ex.data).toNat ∨
                ((ex.text + ex.data).toNat / pageSize + 1) * pageSize ≤ a →
              bytes' a = bytes a :=
    clearTail_spec enough inside
  obtain ⟨bytes', clears, others⟩ := clearing
  have kept : Laid bytes' sp (p + dataLimit - maxArgPages * pageSize)
      args env :=
    laid.congr fun a above below =>
      others a (spares a above (Nat.lt_of_lt_of_le below upTo))
  refine ⟨bytes', ?_, kept⟩
  unfold Caller.start
  dsimp only
  rw [creates]
  dsimp only
  rw [clears]

/-- Behind the point of no return the arguments come to their places. -/
theorem start_spec
    {ex : Exec}
    (holds :
      Holds (byteAt page) (argRoom - total args env)
        ((packed (args ++ env)).map some))
    (nonzero : ∀ string ∈ args ++ env, ∀ c ∈ string, c ≠ 0)
    (fits : total args env ≤ argRoom)
    (spares : ex.Spares args env) :
    ∃ bytes,
      caller.start fresh inode ex args.length env.length page
          (argRoom - total args env) =
        .started
          (caller.program inode ex (stackPointer args env) bytes) ∧
        (caller.program inode ex (stackPointer args env)
          bytes).HasArguments args env := by
  have place := start_place fits
  have small : total args env < dataLimit - 4 :=
    Nat.lt_of_le_of_lt fits (by decide)
  have upTo : argRoom - total args env + (packed (args ++ env)).length ≤
      argRoom :=
    Nat.le_of_eq (Nat.sub_add_cancel fits)
  have pointer :
      (argRoom - total args env + dataLimit - maxArgPages * pageSize) / 4 * 4 =
        stackPointer args env + 4 * (args.length + env.length + 5) := by
    rw [place]
    exact stackPointer_spec fits
  obtain ⟨bytes, starts, laid⟩ :=
    start_laid holds nonzero upTo pointer spares.inside
      fun _ above below => spares.outside above below
  rw [place] at laid
  exact ⟨bytes, starts, Laid.hasArguments laid nonzero (Nat.sub_pos_of_lt small)⟩

/-- A header that is accepted is one of a page that begins behind a block. -/
theorem nTxtoff_eq
    {ex : Exec} {size : BitVec 32}
    (good : ex.isBad size = false) :
    ex.nTxtoff = 1024 := by
  have magic : ex.magic = 0o413 := by
    unfold Exec.isBad at good
    simp only [Bool.or_eq_false_iff] at good
    simpa using good.1.1.1.1
  unfold Exec.nTxtoff
  rw [if_pos magic]
  rfl

/-- What `do_execve` comes to, if the file is accepted and all pages are gotten. -/
theorem doExecve_spec
    (accepts : caller.Accepts inode block)
    (gets : ∀ number, free number = true)
    (argvHas : caller.HasVector argv args)
    (envpHas : caller.HasVector envp env)
    (fits : total args env ≤ argRoom) :
    ∃ page,
      Holds (byteAt page) (argRoom - total args env)
          ((packed (args ++ env)).map some) ∧
        caller.doExecve free fresh (some inode) argv envp =
          if argRoom - total args env = 0 then
            .failed .enomem
          else
            caller.start fresh inode (Exec.read block) args.length env.length
              page (argRoom - total args env) := by
  obtain ⟨first, page, p, copiesEnv, copiesArgs, holds⟩ :=
    arguments_copied gets argvHas envpHas fits
  unfold argRoom at copiesEnv
  refine ⟨page, holds, ?_⟩
  unfold Caller.doExecve
  dsimp only
  rw [argvHas.count, envpHas.count]
  dsimp only
  rw [accepts.regular, accepts.executable, accepts.readable]
  dsimp only
  rw [Bool.not_true, if_neg Bool.false_ne_true, if_neg Bool.false_ne_true,
    if_neg accepts.noScript, accepts.good, if_neg Bool.false_ne_true,
    nTxtoff_eq accepts.good, if_neg (fun differs => differs rfl), copiesEnv]
  dsimp only
  rw [copiesArgs]

/-- No program starts unless its strings leave a byte of the argument pages. -/
theorem total_lt_of_started
    {program : Program}
    (argvHas : caller.HasVector argv args)
    (envpHas : caller.HasVector envp env)
    (starts :
      caller.doExecve free fresh (some inode) argv envp = .started program) :
    total args env < argRoom := by
  unfold Caller.doExecve at starts
  dsimp only at starts
  rw [argvHas.count, envpHas.count] at starts
  dsimp only at starts
  split_ifs at starts
  split at starts
  · cases starts
  · split_ifs at starts
    split at starts
    · cases starts
    case _ first p copiesEnv =>
      split at starts
      · cases starts
      case _ page p' copiesArgs =>
        split_ifs at starts with none
        have start : maxArgPages * pageSize - 4 ≤ maxArgPages * pageSize :=
          Nat.sub_le _ _
        have inside : p ≤ maxArgPages * pageSize := by
          by_cases zero : p = 0
          · rw [zero]
            exact Nat.zero_le _
          · obtain ⟨_, place⟩ := copyStrings_place envpHas start copiesEnv zero
            omega
        obtain ⟨notNull, place⟩ :=
          copyStrings_place argvHas inside copiesArgs none
        obtain ⟨_, place'⟩ :=
          copyStrings_place envpHas start copiesEnv notNull
        rw [total_eq]
        show _ < maxArgPages * pageSize - 4
        omega

/--
A program starts with its arguments where it looks for them if and only if the strings
leave a byte of the argument pages, provided that the clearing behind the data spares
them.
-/
theorem arguments_faithful_iff
    (accepts : caller.Accepts inode block)
    (gets : ∀ number, free number = true)
    (argvHas : caller.HasVector argv args)
    (envpHas : caller.HasVector envp env)
    (spares : (Exec.read block).Spares args env) :
    (∃ program,
      caller.doExecve free fresh (some inode) argv envp = .started program ∧
        program.HasArguments args env) ↔
      total args env < argRoom := by
  constructor
  · rintro ⟨program, starts, _⟩
    exact total_lt_of_started argvHas envpHas starts
  · intro less
    have fits : total args env ≤ argRoom := Nat.le_of_lt less
    obtain ⟨page, holds, executes⟩ :=
      doExecve_spec accepts gets argvHas envpHas fits
    have nonzero : ∀ string ∈ args ++ env, ∀ c ∈ string, c ≠ 0 := by
      intro string member
      rcases List.mem_append.mp member with inArgs | inEnv
      · exact argvHas.nonzero string inArgs
      · exact envpHas.nonzero string inEnv
    obtain ⟨bytes, starts, has⟩ := start_spec holds nonzero fits spares
    rw [executes, if_neg (by omega)]
    exact ⟨_, starts, has⟩

end Arguments

/-! ## One argument -/

/-- A caller with one argument, of that many letters. -/
def Caller.ofLetters (number : Nat) : Caller :=
  { euid := 0
    egid := 0
    limit := dataLimit
    bytes := fun a =>
      if a = 0x1001 then 0x20
      else if 0x2000 ≤ a ∧ a < 0x2000 + number then 0x61
      else 0 }

/-- The header of a program without text, with these sizes. -/
def header (data bss syms : Nat) (a : Nat) : Byte :=
  if a < 4 then (longBytes 0o413).getD a 0
  else if 8 ≤ a ∧ a < 12 then (longBytes data).getD (a - 8) 0
  else if 12 ≤ a ∧ a < 16 then (longBytes bss).getD (a - 12) 0
  else if 16 ≤ a ∧ a < 20 then (longBytes syms).getD (a - 16) 0
  else 0

def Inode.ofBlock (block : Nat → Byte) : Inode :=
  { mode := 0o100111
    uid := 0
    gid := 0
    size := 1024
    block := some block }

theorem Caller.ofLetters_has
    {number : Nat}
    (fits : 0x2000 + number < dataLimit) :
    (Caller.ofLetters number).HasVector 0x1000
      [List.replicate number 0x61] := by
  have pointer : getLong (Caller.ofLetters number).bytes 0x1000 = 0x2000 := by
    simp [getLong, Caller.ofLetters]
  have last : getLong (Caller.ofLetters number).bytes 0x1004 = 0 := by
    simp [getLong, Caller.ofLetters]
  have isString : IsString (Caller.ofLetters number).bytes 0x2000
      (List.replicate number 0x61) := by
    refine ⟨?_, ?_⟩
    · intro c member
      rw [List.eq_of_mem_replicate member]
      decide
    · rw [holds_append, List.length_replicate]
      refine ⟨holds_iff.mpr fun i inside => ?_, holds_iff.mpr fun i first => ?_⟩
      · rw [List.length_replicate] at inside
        rw [List.getElem_replicate]
        unfold Caller.ofLetters
        dsimp only
        rw [if_neg (by omega), if_pos (by omega)]
      · obtain rfl : i = 0 := Nat.lt_one_iff.mp first
        unfold Caller.ofLetters
        dsimp only
        rw [if_neg (by omega), if_neg (by omega)]
        rfl
  refine .inr ⟨by decide, .cons ?_ ?_ (.nil last), ?_, ?_⟩
  · rw [pointer]
    decide
  · rw [pointer]
    exact isString
  · show 0x1008 ≤ dataLimit
    decide
  · intro i inside
    obtain rfl : i = 0 := Nat.lt_one_iff.mp inside
    show getLong (Caller.ofLetters number).bytes 0x1000 +
      (List.replicate number (0x61 : Byte)).length < dataLimit
    rw [pointer, List.length_replicate]
    exact fits

theorem accepts_header (number : Nat) :
    (Caller.ofLetters number).Accepts (.ofBlock (header 0 0 0))
      (header 0 0 0) := by
  have same : (Caller.ofLetters number).mayExec (.ofBlock (header 0 0 0)) =
      (Caller.ofLetters 0).mayExec (.ofBlock (header 0 0 0)) :=
    rfl
  refine ⟨by decide, ?_, rfl, by decide, by decide⟩
  rw [same]
  decide

/-- A program starts with an argument of one letter. -/
theorem arguments_faithful_iff_letter :
    ∃ program,
      (Caller.ofLetters 1).doExecve (fun _ => true) (fun _ => 0)
          (some (.ofBlock (header 0 0 0))) 0x1000 0 = .started program ∧
        program.HasArguments [[0x61]] [] :=
  (arguments_faithful_iff (accepts_header 1) (fun _ => rfl)
    (Caller.ofLetters_has (by decide)) (.inl ⟨rfl, rfl⟩)
    (.inl (by decide))).mpr (by decide)

/-- Strings that take all the room but the last four bytes are refused. -/
theorem arguments_refused :
    (Caller.ofLetters 131067).Accepts (.ofBlock (header 0 0 0))
        (header 0 0 0) ∧
      (Caller.ofLetters 131067).HasVector 0x1000
        [List.replicate 131067 0x61] ∧
      (Caller.ofLetters 131067).HasVector 0 [] ∧
      total [List.replicate 131067 0x61] [] = argRoom ∧
      (Caller.ofLetters 131067).doExecve (fun _ => true) (fun _ => 0)
        (some (.ofBlock (header 0 0 0))) 0x1000 0 = .failed .enomem := by
  have argvHas : (Caller.ofLetters 131067).HasVector 0x1000
      [List.replicate 131067 0x61] :=
    Caller.ofLetters_has (by decide)
  have envpHas : (Caller.ofLetters 131067).HasVector 0 [] :=
    .inl ⟨rfl, rfl⟩
  have all : total [List.replicate 131067 0x61] [] = argRoom := by
    unfold total
    rw [List.append_nil, packed_singleton, List.length_append, List.length_replicate]
    rfl
  obtain ⟨page, _, executes⟩ :=
    doExecve_spec (accepts_header 131067) (fun _ => rfl) argvHas envpHas
      (Nat.le_of_eq all)
  refine ⟨accepts_header 131067, argvHas, envpHas, all, ?_⟩
  rw [executes, all, Nat.sub_self, if_pos rfl]

/-- Sizes whose sum wraps let the argument be cleared. -/
example :
    (match
      (Caller.ofLetters 1).doExecve (fun _ => true) (fun _ => 0)
        (some (.ofBlock (header 0x3fffff8 0xfc000008 0xfc000008))) 0x1000 0 with
    | .started program =>
      decide (program.bytes
        (getLong program.bytes (getLong program.bytes (program.sp + 4))) = 0)
    | _ =>
      false) = true := by
  decide +kernel

end Execve

end HitOs
