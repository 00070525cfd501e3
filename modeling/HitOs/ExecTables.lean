import HitOs.Execve

namespace HitOs

/-!
# The tables of a new program

`create_tables` reads the packed strings forwards and stores where each one begins.
The tables stand below the strings, and so no string changes under its hands.
-/

namespace Execve

open ByteStrings

/-- What `create_tables` makes, with `p` where the strings begin. -/
structure Laid
    (bytes : Nat → Byte)
    (sp p : Nat)
    (args env : List (List Byte)) : Prop where
  below : sp + 4 * (args.length + env.length + 5) ≤ p
  argc : getLong bytes sp = args.length
  argv : getLong bytes (sp + 4) = sp + 12
  envp : getLong bytes (sp + 8) = sp + 12 + 4 * (args.length + 1)
  argsPoint : Points bytes (sp + 12) p args
  envPoint :
    Points bytes (sp + 12 + 4 * (args.length + 1))
      (p + (packed args).length) env
  strings : Holds bytes p (packed (args ++ env))

section Tables

variable {bytes bytes' : Nat → Byte} {p sp : Nat}
variable {args env strings : List (List Byte)}

/-- Only what is between the stack pointer and the end of the strings matters. -/
theorem Laid.congr
    (laid : Laid bytes sp p args env)
    (same :
      ∀ a, sp ≤ a → a < p + (packed (args ++ env)).length → bytes' a = bytes a) :
    Laid bytes' sp p args env := by
  obtain ⟨below, argc, argv, envp, argsPoint, envPoint, holds⟩ := laid
  refine ⟨below, ?_, ?_, ?_, argsPoint.congr ?_, envPoint.congr ?_, holds.congr ?_⟩
  · exact (getLong_congr fun a _ _ => same a (by omega) (by omega)).trans argc
  · exact (getLong_congr fun a _ _ => same a (by omega) (by omega)).trans argv
  · exact (getLong_congr fun a _ _ => same a (by omega) (by omega)).trans envp
  · exact fun a _ _ => same a (by omega) (by omega)
  · exact fun a _ _ => same a (by omega) (by omega)
  · exact fun a _ _ => same a (by omega) (by omega)

/-- A table is filled, and nothing else changes. -/
theorem fillTable_spec
    {table : Nat}
    (holds : Holds bytes p (packed strings))
    (nonzero : ∀ string ∈ strings, ∀ c ∈ string, c ≠ 0)
    (below : table + 4 * (strings.length + 1) ≤ p)
    (inside : p + (packed strings).length ≤ dataLimit) :
    ∃ bytes',
      fillTable strings.length table p bytes =
          some (p + (packed strings).length, bytes') ∧
        Points bytes' table p strings ∧
        ∀ a, a < table ∨ table + 4 * (strings.length + 1) ≤ a →
          bytes' a = bytes a := by
  induction strings generalizing table p bytes with
  | nil =>
    exact ⟨_, rfl, getLong_putLong (by decide),
      fun a outside => putLong_of_outside outside⟩
  | cons string strings inductionHypothesis =>
    rw [packed_cons, List.length_append, List.length_append,
      List.length_singleton] at inside ⊢
    rw [List.length_cons] at below ⊢
    have stays : Holds (putLong p table bytes) p
        (packed (string :: strings)) :=
      holds.congr fun a above _ => putLong_of_outside (by omega)
    rw [packed_cons, holds_append, List.length_append, List.length_singleton] at stays
    have isString : IsString (putLong p table bytes) p string :=
      ⟨nonzero string List.mem_cons_self, stays.1⟩
    obtain ⟨bytes', fills, points, others⟩ :=
      inductionHypothesis stays.2
        (fun other member =>
          nonzero other (List.mem_cons_of_mem _ member))
        (show table + 4 + 4 * (strings.length + 1) ≤ _ by omega) (by omega)
    refine ⟨bytes', ?_, ⟨?_, points⟩, ?_⟩
    · unfold fillTable
      dsimp only
      rw [stringLength_eq isString (by omega)]
      dsimp only
      rw [fills, Nat.add_assoc p]
    · have small : p < 2 ^ 32 := by
        unfold dataLimit at inside
        omega
      have stored : getLong (putLong p table bytes) table = p :=
        getLong_putLong small
      exact (getLong_congr fun a _ _ => others a (by omega)).trans stored
    · intro a outside
      rw [others a (by omega)]
      exact putLong_of_outside (by omega)

/-- The three `long`s that a new program finds at its stack pointer. -/
def heads (sp argc argv envp : Nat) (bytes : Nat → Byte) : Nat → Byte :=
  putLong argc sp (putLong argv (sp + 4) (putLong envp (sp + 8) bytes))

theorem heads_of_above
    {argc argv envp a : Nat}
    (above : sp + 12 ≤ a) :
    heads sp argc argv envp bytes a = bytes a := by
  unfold heads
  rw [putLong_of_outside (by omega), putLong_of_outside (by omega),
    putLong_of_outside (by omega)]

theorem heads_spec
    {argc argv envp : Nat}
    (argcFits : argc < 2 ^ 32)
    (argvFits : argv < 2 ^ 32)
    (envpFits : envp < 2 ^ 32) :
    getLong (heads sp argc argv envp bytes) sp = argc ∧
      getLong (heads sp argc argv envp bytes) (sp + 4) = argv ∧
      getLong (heads sp argc argv envp bytes) (sp + 8) = envp := by
  refine ⟨getLong_putLong argcFits, ?_, ?_⟩
  · exact (getLong_congr fun a _ _ => putLong_of_outside (by omega)).trans
      (getLong_putLong argvFits)
  · have stored : getLong (putLong envp (sp + 8) bytes) (sp + 8) = envp :=
      getLong_putLong envpFits
    exact (getLong_congr fun a _ _ =>
      (putLong_of_outside (by omega)).trans
        (putLong_of_outside (by omega))).trans stored

/-- Both tables are made below the strings. -/
theorem createTables_spec
    (holds : Holds bytes p (packed (args ++ env)))
    (nonzero : ∀ string ∈ args ++ env, ∀ c ∈ string, c ≠ 0)
    (place : p / 4 * 4 = sp + 4 * (args.length + env.length + 5))
    (inside : p + (packed (args ++ env)).length ≤ dataLimit) :
    ∃ bytes',
      createTables p args.length env.length bytes = some (sp, bytes') ∧
        Laid bytes' sp p args env := by
  have envp : p / 4 * 4 - 4 * (env.length + 1) =
      sp + 12 + 4 * (args.length + 1) := by
    omega
  have below : sp + 4 * (args.length + env.length + 5) ≤ p := by
    omega
  rw [packed_append, List.length_append] at inside
  have small (value : Nat) (low : value ≤ p) : value < 2 ^ 32 := by
    unfold dataLimit at inside
    omega
  obtain ⟨start, same⟩ :
      ∃ start, heads sp args.length (sp + 12)
        (sp + 12 + 4 * (args.length + 1)) bytes = start :=
    ⟨_, rfl⟩
  have headed : getLong start sp = args.length ∧
      getLong start (sp + 4) = sp + 12 ∧
      getLong start (sp + 8) = sp + 12 + 4 * (args.length + 1) :=
    same ▸ heads_spec (small _ (by omega)) (small _ (by omega))
      (small _ (by omega))
  have stays : Holds start p (packed (args ++ env)) :=
    holds.congr fun a _ _ => same ▸ heads_of_above (by omega)
  rw [packed_append, holds_append] at stays
  obtain ⟨middle, fillsArgs, argsPoint, argsOthers⟩ :=
    fillTable_spec stays.1
      (fun string member => nonzero string (List.mem_append_left _ member))
      (show sp + 12 + 4 * (args.length + 1) ≤ p by omega) (by omega)
  have envStays : Holds middle (p + (packed args).length) (packed env) :=
    stays.2.congr fun a _ _ => argsOthers a (by omega)
  obtain ⟨last, fillsEnv, envPoint, envOthers⟩ :=
    fillTable_spec envStays
      (fun string member => nonzero string (List.mem_append_right _ member))
      (show sp + 12 + 4 * (args.length + 1) + 4 * (env.length + 1) ≤ _ by
        omega)
      (by omega)
  -- What neither table covers is as it was at the start.
  have others (a : Nat)
      (outside : a < sp + 12 ∨ p ≤ a) : last a = start a := by
    rw [envOthers a (by omega), argsOthers a (by omega)]
  refine ⟨last, ?_, below, ?_, ?_, ?_, ?_, envPoint, ?_⟩
  · unfold createTables
    dsimp only
    unfold heads at same
    rw [envp, Nat.add_sub_cancel, Nat.add_sub_cancel, same, fillsArgs]
    dsimp only
    rw [fillsEnv]
  · exact (getLong_congr fun a _ _ => others a (by omega)).trans headed.1
  · exact (getLong_congr fun a _ _ => others a (by omega)).trans headed.2.1
  · exact (getLong_congr fun a _ _ => others a (by omega)).trans headed.2.2
  · exact argsPoint.congr fun a _ _ => envOthers a (by omega)
  · rw [packed_append, holds_append]
    exact ⟨stays.1.congr fun a _ _ => others a (by omega),
      stays.2.congr fun a _ _ => others a (by omega)⟩

end Tables

end Execve

end HitOs
