import HitOs.ConsoleFrames

namespace HitOs

/-!
# Saving and restoring the cursor

After ESC, `con_write` tests the byte for all sequences but two: for ESC 7 and ESC 8 it
tests the column.  Wherever the column happens to be what the byte should be, a saved
cursor comes back, whatever has been written in between.
-/

namespace Consoles

open Console

/-- A byte that is written, and the erase character of the terminal then. -/
structure Typed where
  erase : BitVec 8
  byte : BitVec 8

/-- Bytes written one after the other, by whatever calls. -/
def Console.writeAll (console : Console) (typed : List Typed) : Console :=
  typed.foldl (fun console typed => console.writeByte typed.erase typed.byte) console

/-- The bytes of a call. -/
def Chunk.typed (chunk : Chunk) : List Typed :=
  chunk.bytes.map fun byte => ⟨chunk.erase, byte⟩

/-- All calls of `con_write` together write their bytes. -/
theorem foldl_conWrite
    (chunks : List Chunk)
    (console : Console) :
    chunks.foldl conWrite console =
      console.writeAll (chunks.flatMap Chunk.typed) := by
  induction chunks generalizing console with
  | nil =>
    rfl
  | cons chunk rest inductionHypothesis =>
    have first : conWrite console chunk = console.writeAll chunk.typed := by
      unfold conWrite Console.writeAll Chunk.typed
      rw [List.foldl_map]
    rw [List.foldl_cons, inductionHypothesis, first, List.flatMap_cons]
    exact (List.foldl_append ..).symm

theorem Framed.writeAll
    {display : Display} {console : Console}
    (framed : Framed display console)
    (typed : List Typed) :
    Framed display (console.writeAll typed) := by
  induction typed generalizing console with
  | nil =>
    exact framed
  | cons first rest inductionHypothesis =>
    exact inductionHypothesis (framed.writeByte first.erase first.byte)

/-- The two pairs of sequences. -/
inductive Family where
  | esc
  | csi
  deriving Repr, DecidableEq

/-- ESC 7 and CSI s. -/
def Family.save : Family → List (BitVec 8)
  | .esc => [0x1b, 0x37]
  | .csi => [0x1b, 0x5b, 0x73]

/-- ESC 8 and CSI u. -/
def Family.restore : Family → List (BitVec 8)
  | .esc => [0x1b, 0x38]
  | .csi => [0x1b, 0x5b, 0x75]

/-- A byte is the last one of a sequence that saves or restores the cursor. -/
def EndsSequence (console : Console) (c : BitVec 8) : Prop :=
  console.state = 1 ∧ (Char.ofNat c.toNat = '7' ∨ Char.ofNat c.toNat = '8') ∨
    2 ≤ console.state ∧ (Char.ofNat c.toNat = 's' ∨ Char.ofNat c.toNat = 'u')

/--
The column says what the byte says, for a byte after ESC for which no other sequence is
found; and ESC Z does not occur, whose answer is echoed by a `con_write` in the middle of
this one.
-/
def Dispatches (console : Console) (c : BitVec 8) : Prop :=
  console.state = 1 →
    Char.ofNat c.toNat ≠ 'Z' ∧
      (Char.ofNat c.toNat ∉ ['[', 'E', 'M', 'D'] →
        (console.x = '7'.toNat ↔ Char.ofNat c.toNat = '7') ∧
          (console.x = '8'.toNat ↔ Char.ofNat c.toNat = '8'))

/-- What holds whenever one of the bytes is written. -/
def Everywhere (condition : Console → BitVec 8 → Prop) :
    Console → List Typed → Prop
  | _, [] => True
  | console, typed :: rest =>
    condition console typed.byte ∧
      Everywhere condition (console.writeByte typed.erase typed.byte) rest

variable {condition : Console → BitVec 8 → Prop} {console : Console}

/-- First all bytes of the one part, then those of the other. -/
theorem everywhere_append
    {first second : List Typed} :
    Everywhere condition console (first ++ second) ↔
      Everywhere condition console first ∧
        Everywhere condition (console.writeAll first) second := by
  induction first generalizing console with
  | nil =>
    exact ⟨fun rest => ⟨trivial, rest⟩, fun both => both.2⟩
  | cons typed first inductionHypothesis =>
    exact (and_congr_right fun _ => inductionHypothesis).trans and_assoc.symm

/-! ## The saved cursor -/

/-- `saved_x` and `saved_y`. -/
def Console.saved (console : Console) : Nat × Nat :=
  (console.savedX, console.savedY)

@[simp] theorem saved_setState (state : Nat) :
    (console.setState state).saved = console.saved :=
  rfl

@[simp] theorem saved_setPar (i value : Nat) :
    (console.setPar i value).saved = console.saved :=
  rfl

@[simp] theorem saved_lowerPar (i : Nat) :
    (console.lowerPar i).saved = console.saved := by
  unfold Console.lowerPar
  split <;> rfl

@[simp] theorem saved_raisePar :
    console.raisePar.saved = console.saved := by
  unfold Console.raisePar
  split <;> rfl

@[simp] theorem saved_completePar :
    console.completePar.saved = console.saved := by
  unfold Console.completePar
  split <;> rfl

@[simp] theorem saved_setMargins :
    console.setMargins.saved = console.saved := by
  unfold Console.setMargins
  split <;> rfl

@[simp] theorem saved_gotoxy (x y : Nat) :
    (console.gotoxy x y).saved = console.saved := by
  unfold Console.gotoxy
  split <;> rfl

@[simp] theorem saved_scrup :
    console.scrup.saved = console.saved := by
  unfold Console.saved
  rw [scrup_toRegisters]

@[simp] theorem saved_lf :
    console.lf.saved = console.saved := by
  unfold Console.lf
  split
  · rfl
  · exact saved_scrup

@[simp] theorem saved_ri :
    console.ri.saved = console.saved := by
  unfold Console.ri
  split <;> rfl

@[simp] theorem saved_del :
    console.del.saved = console.saved := by
  unfold Console.del
  split <;> rfl

@[simp] theorem saved_back :
    console.back.saved = console.saved := by
  unfold Console.back
  split <;> rfl

@[simp] theorem saved_foldLine :
    console.foldLine.saved = console.saved :=
  saved_lf

@[simp] theorem saved_tab :
    console.tab.saved = console.saved := by
  unfold Console.tab
  dsimp only
  split
  · exact saved_foldLine
  · rfl

@[simp] theorem saved_print (c : BitVec 8) :
    (console.print c).saved = console.saved := by
  unfold Console.print
  dsimp only
  split
  · exact saved_foldLine
  · rfl

@[simp] theorem saved_csiJ (par : Nat) :
    (console.csiJ par).saved = console.saved := by
  unfold Console.csiJ
  split <;> rfl

@[simp] theorem saved_csiK (par : Nat) :
    (console.csiK par).saved = console.saved := by
  unfold Console.csiK
  split
  · split <;> rfl
  · rfl
  · rfl
  · rfl

/-- What one turn leaves, the loops over `nr` leave. -/
theorem saved_times
    {routine : Console → Console}
    (kept : ∀ console, (routine console).saved = console.saved)
    (limit nr : Nat) :
    (console.times limit nr routine).saved = console.saved := by
  unfold Console.times
  generalize (if nr > limit then limit else if nr = 0 then 1 else nr) = count
  induction count generalizing console with
  | zero =>
    rfl
  | succ count inductionHypothesis =>
    rw [Function.iterate_succ_apply]
    exact inductionHypothesis.trans (kept console)

theorem saved_insertLine :
    console.insertLine.saved = console.saved :=
  rfl

theorem saved_insertChar :
    console.insertChar.saved = console.saved :=
  rfl

theorem saved_deleteLine :
    console.deleteLine.saved = console.saved := by
  have scrolled :
      ({ console with top := console.y, bottom := console.videoNumLines } :
        Console).scrup.saved = console.saved :=
    saved_scrup
  exact scrolled

theorem saved_deleteChar :
    console.deleteChar.saved = console.saved := by
  unfold Console.deleteChar
  split <;> rfl

theorem saved_plain (erase c : BitVec 8) :
    (console.plain erase c).saved = console.saved := by
  unfold Console.plain
  split_ifs <;> first | simp | rfl

/-- Of all final bytes only `s` and `u` save or restore. -/
theorem saved_final
    {c : BitVec 8}
    (other : ¬(Char.ofNat c.toNat = 's' ∨ Char.ofNat c.toNat = 'u')) :
    (console.final c).saved = console.saved := by
  obtain ⟨notSave, notRestore⟩ := not_or.mp other
  unfold Console.final
  dsimp only
  split
  case h_16 =>
    exact saved_times (fun _ => saved_insertLine) _ _
  case h_17 =>
    exact saved_times (fun _ => saved_deleteLine) _ _
  case h_18 =>
    exact saved_times (fun _ => saved_deleteChar) _ _
  case h_19 =>
    exact saved_times (fun _ => saved_insertChar) _ _
  case h_22 isSave =>
    exact absurd isSave notSave
  case h_23 isRestore =>
    exact absurd isRestore notRestore
  all_goals first | simp | rfl

theorem saved_parameter
    {c : BitVec 8}
    (other : ¬(Char.ofNat c.toNat = 's' ∨ Char.ofNat c.toNat = 'u')) :
    (console.parameter c).saved = console.saved := by
  unfold Console.parameter
  split_ifs
  · rfl
  · rfl
  · exact saved_final other

theorem saved_introducer
    {c : BitVec 8}
    (other : ¬(Char.ofNat c.toNat = 's' ∨ Char.ofNat c.toNat = 'u')) :
    (console.introducer c).saved = console.saved := by
  unfold Console.introducer
  dsimp only
  split
  · rfl
  · exact saved_parameter other

/-- With the column as the byte says, no other byte after ESC saves. -/
theorem saved_escape
    {c : BitVec 8}
    (dispatches :
      Char.ofNat c.toNat ∉ ['[', 'E', 'M', 'D'] →
        (console.x = '7'.toNat ↔ Char.ofNat c.toNat = '7') ∧
          (console.x = '8'.toNat ↔ Char.ofNat c.toNat = '8'))
    (other : ¬(Char.ofNat c.toNat = '7' ∨ Char.ofNat c.toNat = '8')) :
    (console.escape c).saved = console.saved := by
  unfold Console.escape
  dsimp only
  split
  case h_6 bracket e m d _ =>
    have absent : Char.ofNat c.toNat ∉ ['[', 'E', 'M', 'D'] := by
      simp only [List.mem_cons, List.not_mem_nil, or_false, not_or]
      exact ⟨bracket, e, m, d⟩
    obtain ⟨first, second⟩ := dispatches absent
    obtain ⟨notSeven, notEight⟩ := not_or.mp other
    have column : ¬(console.setState 0).x = '7'.toNat :=
      fun column => notSeven (first.mp column)
    have column' : ¬(console.setState 0).x = '8'.toNat :=
      fun column => notEight (second.mp column)
    rw [if_neg column, if_neg column']
    rfl
  all_goals simp

/-- The step lemma: only the sequences for it save the cursor. -/
theorem saved_writeByte
    {erase c : BitVec 8}
    (dispatches : Dispatches console c)
    (other : ¬EndsSequence console c) :
    (console.writeByte erase c).saved = console.saved := by
  have atFinal (state : 2 ≤ console.state) :
      ¬(Char.ofNat c.toNat = 's' ∨ Char.ofNat c.toNat = 'u') :=
    fun named => other (Or.inr ⟨state, named⟩)
  unfold Console.writeByte
  split
  case h_1 =>
    exact saved_plain erase c
  case h_2 escaped =>
    exact saved_escape (dispatches escaped).2
      fun named => other (Or.inl ⟨escaped, named⟩)
  case h_3 introduced =>
    exact saved_introducer (atFinal (by omega))
  case h_4 given =>
    exact saved_parameter (atFinal (by omega))
  case h_5 ended =>
    exact saved_final (atFinal (by omega))
  case h_6 =>
    rfl

/-- The run lemma. -/
theorem saved_writeAll
    {typed : List Typed}
    (dispatches : Everywhere Dispatches console typed)
    (others : Everywhere (fun console c => ¬EndsSequence console c) console typed) :
    (console.writeAll typed).saved = console.saved := by
  induction typed generalizing console with
  | nil =>
    rfl
  | cons first rest inductionHypothesis =>
    have step :
        (console.writeByte first.erase first.byte).saved = console.saved :=
      saved_writeByte dispatches.1 others.1
    exact (inductionHypothesis dispatches.2 others.2).trans step

/-! ## The sequences -/

/-- ESC is found in the ground state only. -/
theorem writeByte_escape
    {erase : BitVec 8}
    (ground : console.state = 0) :
    console.writeByte erase 0x1b = console.setState 1 := by
  unfold Console.writeByte
  rw [ground]
  rfl

/-- ESC and a byte. -/
theorem writeAll_esc
    {typed : List Typed} {c : BitVec 8}
    (ground : console.state = 0)
    (bytes : typed.map Typed.byte = [0x1b, c]) :
    console.writeAll typed = (console.setState 1).escape c ∧
      (Everywhere Dispatches console typed → Dispatches (console.setState 1) c) := by
  obtain ⟨first, rest, rfl, starts, more⟩ := List.map_eq_cons_iff.mp bytes
  obtain ⟨second, rest, rfl, ends, done⟩ := List.map_eq_cons_iff.mp more
  obtain rfl : rest = [] := List.map_eq_nil_iff.mp done
  have escaped : console.writeByte first.erase first.byte = console.setState 1 := by
    rw [starts]
    exact writeByte_escape ground
  refine ⟨?_, ?_⟩
  · change (console.writeByte first.erase first.byte).writeByte _ _ = _
    rw [escaped, ends]
    rfl
  · intro dispatches
    have last := dispatches.2.1
    rw [escaped, ends] at last
    exact last

/-- ESC, a bracket and a byte. -/
theorem writeAll_csi
    {typed : List Typed} {c : BitVec 8}
    (ground : console.state = 0)
    (bytes : typed.map Typed.byte = [0x1b, 0x5b, c]) :
    console.writeAll typed = (console.setState 2).introducer c := by
  obtain ⟨first, rest, rfl, starts, more⟩ := List.map_eq_cons_iff.mp bytes
  obtain ⟨second, rest, rfl, bracket, more'⟩ := List.map_eq_cons_iff.mp more
  obtain ⟨third, rest, rfl, ends, done⟩ := List.map_eq_cons_iff.mp more'
  obtain rfl : rest = [] := List.map_eq_nil_iff.mp done
  have escaped : console.writeByte first.erase first.byte = console.setState 1 := by
    rw [starts]
    exact writeByte_escape ground
  change
    ((console.writeByte first.erase first.byte).writeByte _ second.byte).writeByte _
        third.byte =
      _
  rw [escaped, bracket, ends]
  rfl

/-- The sequences that save the cursor, where they are found. -/
theorem saved_save
    {typed : List Typed} {family : Family}
    (ground : console.state = 0)
    (saves : typed.map Typed.byte = family.save)
    (dispatches : Everywhere Dispatches console typed) :
    (console.writeAll typed).saved = (console.x, console.y) := by
  cases family with
  | esc =>
    obtain ⟨written, right⟩ := writeAll_esc ground saves
    have column : console.x = '7'.toNat :=
      ((right dispatches rfl).2 (by decide)).1.mpr rfl
    have saved :
        (console.setState 1).escape 0x37 = (console.setState 0).saveCur := by
      change (if console.x = '7'.toNat then _ else _) = _
      exact if_pos column
    rw [written, saved]
    rfl
  | csi =>
    rw [writeAll_csi ground saves]
    rfl

/-- The sequences that restore the cursor, where they are found. -/
theorem writeAll_restore
    {typed : List Typed} {family : Family}
    (ground : console.state = 0)
    (restores : typed.map Typed.byte = family.restore)
    (dispatches : Everywhere Dispatches console typed) :
    ∃ before : Console, before.toDisplay = console.toDisplay ∧
      before.saved = console.saved ∧
      console.writeAll typed = before.restoreCur := by
  cases family with
  | esc =>
    obtain ⟨written, right⟩ := writeAll_esc ground restores
    have found := (right dispatches rfl).2 (by decide)
    have column : console.x = '8'.toNat := found.2.mpr rfl
    have other : console.x ≠ '7'.toNat := by
      rw [column]
      decide
    refine ⟨console.setState 0, rfl, rfl, ?_⟩
    rw [written]
    change
      (if console.x = '7'.toNat then _
        else if console.x = '8'.toNat then _ else _) =
        _
    rw [if_neg other, if_pos column]
    rfl
  | csi =>
    rw [writeAll_csi ground restores]
    exact
      ⟨{ console with
          par := fun _ => 0
          npar := 0
          state := 0
          ques := false },
        rfl, rfl, rfl⟩

/-! ## Both together -/

/-- The cursor is where it has been, and `pos` follows from it. -/
structure Restored (start last : Console) : Prop where
  column :
    last.x = start.x
  row :
    last.y = start.y
  pos :
    last.pos = last.origin + last.y * last.videoSizeRow + 2 * last.x

/-- The saved place is on the screen, where `gotoxy` goes. -/
theorem restored_gotoxy
    {start before : Console} {display : Display}
    (framed : Framed display start)
    (same : before.toDisplay = display)
    (saved : before.saved = (start.x, start.y)) :
    Restored start before.restoreCur := by
  obtain ⟨savedX, savedY⟩ := Prod.ext_iff.mp saved
  have columns : before.videoNumColumns = start.videoNumColumns :=
    congrArg Display.videoNumColumns (same.trans framed.sameDisplay.symm)
  have lineCount : before.videoNumLines = start.videoNumLines :=
    congrArg Display.videoNumLines (same.trans framed.sameDisplay.symm)
  have inside :
      ¬(before.savedX > before.videoNumColumns ∨
        before.savedY ≥ before.videoNumLines) := by
    change before.savedX = start.x at savedX
    change before.savedY = start.y at savedY
    have column := framed.column
    have row := framed.row
    omega
  unfold Console.restoreCur Console.gotoxy
  rw [if_neg inside]
  exact ⟨savedX, savedY, rfl⟩

/--
A cursor that is saved is restored, in every run of `con_write` in which the column says
what the byte says wherever it is tested in its place, and no ESC Z occurs.
-/
theorem cursor_restored
    {display : Display}
    {start : Console}
    (framed : Framed display start)
    (ground : start.state = 0)
    (family : Family)
    (chunks : List Chunk)
    (saving middle restoring : List Typed)
    (written : chunks.flatMap Chunk.typed = saving ++ middle ++ restoring)
    (saves : saving.map Typed.byte = family.save)
    (restores : restoring.map Typed.byte = family.restore)
    (unnested :
      Everywhere (fun console c => ¬EndsSequence console c)
        (start.writeAll saving) middle)
    (complete : (start.writeAll (saving ++ middle)).state = 0)
    (dispatches : Everywhere Dispatches start (saving ++ middle ++ restoring)) :
    Restored start (chunks.foldl conWrite start) := by
  have apart (first second : List Typed) :
      start.writeAll (first ++ second) = (start.writeAll first).writeAll second :=
    List.foldl_append ..
  obtain ⟨both, last⟩ := everywhere_append.mp dispatches
  obtain ⟨first, between⟩ := everywhere_append.mp both
  have kept : (start.writeAll (saving ++ middle)).saved = (start.x, start.y) := by
    rw [apart]
    exact (saved_writeAll between unnested).trans (saved_save ground saves first)
  have framed' : Framed display (start.writeAll (saving ++ middle)) :=
    framed.writeAll _
  obtain ⟨before, same, saved, result⟩ := writeAll_restore complete restores last
  rw [foldl_conWrite, written, apart, result]
  exact restored_gotoxy framed (same.trans framed'.sameDisplay) (saved.trans kept)

/-- A screen of 80 columns with the cursor in row 3. -/
def inColumn (x : Nat) : Console :=
  Setup.conInit ⟨x, 3, 3, 80, 0⟩ fun _ => 0x0720

/-- From column 55 with a character between: the column is right both times. -/
theorem cursor_restored_letter :
    Restored (inColumn 55)
      ([⟨0x7f, [0x1b, 0x37, 0x41, 0x1b, 0x38]⟩].foldl conWrite (inColumn 55)) := by
  have dispatches :
      Everywhere Dispatches (inColumn 55)
        [⟨0x7f, 0x1b⟩, ⟨0x7f, 0x37⟩, ⟨0x7f, 0x41⟩, ⟨0x7f, 0x1b⟩, ⟨0x7f, 0x38⟩] :=
    ⟨fun state => absurd state (by decide),
      fun _ => ⟨by decide, fun _ => by decide⟩,
      fun state => absurd state (by decide),
      fun state => absurd state (by decide),
      fun _ => ⟨by decide, fun _ => by decide⟩, trivial⟩
  have unnested :
      Everywhere (fun console c => ¬EndsSequence console c)
        ((inColumn 55).writeAll [⟨0x7f, 0x1b⟩, ⟨0x7f, 0x37⟩]) [⟨0x7f, 0x41⟩] := by
    refine ⟨?_, trivial⟩
    rintro (⟨state, _⟩ | ⟨state, _⟩)
    · exact absurd state (by decide)
    · exact absurd state (by decide)
  have framed : Framed (Setup.display ⟨55, 3, 3, 80, 0⟩) (inColumn 55) :=
    conInit_framed ⟨by decide, by decide, by decide, by decide⟩ _
  exact
    cursor_restored framed rfl .esc
      [⟨0x7f, [0x1b, 0x37, 0x41, 0x1b, 0x38]⟩]
      [⟨0x7f, 0x1b⟩, ⟨0x7f, 0x37⟩] [⟨0x7f, 0x41⟩] [⟨0x7f, 0x1b⟩, ⟨0x7f, 0x38⟩]
      rfl rfl rfl unnested rfl dispatches

/-- From column 10 a carriage return between the sequences is not undone. -/
theorem not_always_restored :
    ¬∀ (display : Display) (start : Console) (family : Family)
        (chunks : List Chunk) (saving middle restoring : List Typed),
      Framed display start → start.state = 0 →
        chunks.flatMap Chunk.typed = saving ++ middle ++ restoring →
        saving.map Typed.byte = family.save →
        restoring.map Typed.byte = family.restore →
        Everywhere (fun console c => ¬EndsSequence console c)
          (start.writeAll saving) middle →
        (start.writeAll (saving ++ middle)).state = 0 →
          Restored start (chunks.foldl conWrite start) := by
  intro always
  have unnested :
      Everywhere (fun console c => ¬EndsSequence console c)
        ((inColumn 10).writeAll [⟨0x7f, 0x1b⟩, ⟨0x7f, 0x37⟩]) [⟨0x7f, 0x0d⟩] := by
    refine ⟨?_, trivial⟩
    rintro (⟨state, _⟩ | ⟨state, _⟩)
    · exact absurd state (by decide)
    · exact absurd state (by decide)
  have framed : Framed (Setup.display ⟨10, 3, 3, 80, 0⟩) (inColumn 10) :=
    conInit_framed ⟨by decide, by decide, by decide, by decide⟩ _
  have restored :=
    always _ (inColumn 10) .esc [⟨0x7f, [0x1b, 0x37, 0x0d, 0x1b, 0x38]⟩]
      [⟨0x7f, 0x1b⟩, ⟨0x7f, 0x37⟩] [⟨0x7f, 0x0d⟩] [⟨0x7f, 0x1b⟩, ⟨0x7f, 0x38⟩]
      framed rfl rfl rfl rfl unnested rfl
  exact absurd restored.column (by decide)

end Consoles

end HitOs
