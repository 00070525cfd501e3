import HitOs.Consoles

namespace HitOs

/-!
# The console keeps to its screen

The cursor stays on the screen or right behind a row of it, `pos` and `scr_end` follow
from the cursor and `origin`, and nothing is stored outside video memory.  Each routine
of the console keeps this.
-/

namespace Consoles

open Console

/-- What holds of a console on a display, whatever it has written. -/
structure Framed (display : Display) (console : Console) : Prop where
  sameDisplay : console.toDisplay = display
  sizeRow : console.videoSizeRow = 2 * console.videoNumColumns
  wide : 8 ≤ console.videoNumColumns
  pairs : (console.videoNumLines - 1) * console.videoNumColumns % 2 = 0
  column : console.x ≤ console.videoNumColumns
  row : console.y < console.videoNumLines
  region : console.top < console.bottom
  regionEnd : console.bottom ≤ console.videoNumLines
  parameters : console.npar < npar
  pos : console.pos = console.origin + console.y * console.videoSizeRow + 2 * console.x
  scrEnd : console.scrEnd =
    console.origin + console.videoNumLines * console.videoSizeRow
  memStart : console.videoMemStart ≤ console.origin
  memEnd : console.scrEnd ≤ console.videoMemEnd
  aligned : (console.origin - console.videoMemStart) % 2 = 0
  confined :
    console.video.Confined console.videoMemStart console.videoMemEnd

namespace Framed

variable {display : Display} {console : Console}

variable (framed : Framed display console)

include framed

/-! ## Rows -/

/-- A part of the screen, counted in rows. -/
theorem rows_le
    {rows : Nat}
    (inside : rows ≤ console.videoNumLines) :
    console.origin + rows * console.videoSizeRow ≤ console.scrEnd := by
  rw [framed.scrEnd]
  exact Nat.add_le_add_left (Nat.mul_le_mul_right _ inside) _

/-- A row of the screen ends on the screen. -/
theorem rowEnd_le
    {row : Nat}
    (inside : row < console.videoNumLines) :
    console.origin + row * console.videoSizeRow + console.videoSizeRow ≤
      console.scrEnd := by
  have bound := framed.rows_le (Nat.succ_le_of_lt inside)
  rw [Nat.succ_mul] at bound
  omega

/-- A screen is not empty. -/
theorem scrEnd_ge :
    console.origin + console.videoSizeRow ≤ console.scrEnd := by
  have bound := framed.rowEnd_le framed.row
  omega

/-! ## Simple steps -/

theorem setState
    (state : Nat) :
    Framed display (console.setState state) :=
  { framed with }

theorem setPar
    (i value : Nat) :
    Framed display (console.setPar i value) :=
  { framed with }

theorem lowerPar
    (i : Nat) :
    Framed display (console.lowerPar i) := by
  unfold Console.lowerPar
  split
  · exact framed.setPar i _
  · exact framed

theorem raisePar :
    Framed display console.raisePar := by
  unfold Console.raisePar
  split
  · exact framed.setPar 0 1
  · exact framed

theorem completePar :
    Framed display console.completePar := by
  unfold Console.completePar
  split
  · exact framed.setPar 1 _
  · exact framed

theorem saveCur :
    Framed display console.saveCur :=
  { framed with }

theorem csim :
    Framed display console.csim :=
  { framed with }

/-- A region of at least one row of the screen. -/
theorem setRegion
    {top bottom : Nat}
    (region : top < bottom)
    (regionEnd : bottom ≤ console.videoNumLines) :
    Framed display { console with top := top, bottom := bottom } :=
  { framed with region := region, regionEnd := regionEnd }

theorem setMargins :
    Framed display console.setMargins := by
  unfold Console.setMargins
  split
  case isTrue region =>
    exact framed.setRegion region.1 region.2
  case isFalse =>
    exact framed

/-- A place that the test of `gotoxy` lets through; the column may lie behind its row. -/
theorem place
    {x y : Nat}
    (inside : ¬(x > console.videoNumColumns ∨ y ≥ console.videoNumLines)) :
    Framed display
      { console with
        x := x
        y := y
        pos := console.origin + y * console.videoSizeRow + 2 * x } :=
  { framed with
    column := Nat.le_of_not_gt (not_or.mp inside).1
    row := Nat.lt_of_not_ge (not_or.mp inside).2
    pos := rfl }

theorem gotoxy
    (newX newY : Nat) :
    Framed display (console.gotoxy newX newY) := by
  unfold Console.gotoxy
  split
  case isTrue =>
    exact framed
  case isFalse inside =>
    exact framed.place inside

theorem restoreCur :
    Framed display console.restoreCur :=
  framed.gotoxy _ _

/-- The cursor moves within its row, and `pos` with it. -/
theorem setColumn
    (x pos : Nat)
    (column : x ≤ console.videoNumColumns)
    (follows : pos = console.origin + console.y * console.videoSizeRow + 2 * x) :
    Framed display { console with x := x, pos := pos } :=
  { framed with column := column, pos := follows }

theorem cr :
    Framed display console.cr := by
  have pos := framed.pos
  exact framed.setColumn _ _ (Nat.zero_le _) (by omega)

theorem back :
    Framed display console.back := by
  have pos := framed.pos
  have column := framed.column
  unfold Console.back
  split
  · exact framed.setColumn _ _ (by omega) (by omega)
  · exact framed

/-! ## Stores -/

/-- Only where words are stored matters. -/
theorem setVideo
    {video : Words (BitVec 16)}
    (confined :
      video.Confined console.videoMemStart console.videoMemEnd) :
    Framed display { console with video := video } :=
  { framed with confined := confined }

/-- Blanks between the origin and the end of the screen. -/
theorem blank
    {count start : Nat}
    (above : console.origin ≤ start)
    (below : start + 2 * count ≤ console.scrEnd) :
    Framed display (console.blank count start) := by
  have memStart := framed.memStart
  have memEnd := framed.memEnd
  exact framed.setVideo
    (framed.confined.fill (by omega) (by omega) _)

theorem del :
    Framed display console.del := by
  unfold Console.del
  split
  · have pos := framed.pos
    have column := framed.column
    have memStart := framed.memStart
    have memEnd := framed.memEnd
    have rowEnd := framed.rowEnd_le framed.row
    have sizeRow := framed.sizeRow
    have moved := framed.setColumn
      (console.x - 1) (console.pos - 2) (by omega) (by omega)
    exact moved.setVideo (framed.confined.store (by omega) (by omega) _)
  · exact framed

/-- All three ends of the erased part are on the screen. -/
theorem csiJ
    (par : Nat) :
    Framed display (console.csiJ par) := by
  have pos := framed.pos
  have column := framed.column
  have rowEnd := framed.rowEnd_le framed.row
  have sizeRow := framed.sizeRow
  unfold Console.csiJ
  split
  · exact framed.blank (by omega) (by omega)
  · exact framed.blank (by omega) (by omega)
  · have size : console.scrEnd = console.origin +
        2 * (console.videoNumColumns * console.videoNumLines) := by
      rw [framed.scrEnd, sizeRow, Nat.mul_comm console.videoNumLines, Nat.mul_assoc]
    exact framed.blank (by omega) (by omega)
  · exact framed

theorem csiK
    (par : Nat) :
    Framed display (console.csiK par) := by
  have pos := framed.pos
  have column := framed.column
  have rowEnd := framed.rowEnd_le framed.row
  have sizeRow := framed.sizeRow
  unfold Console.csiK
  split
  · split
    · exact framed
    · exact framed.blank (by omega) (by omega)
  · refine framed.blank (by omega) ?_
    split <;> omega
  · exact framed.blank (by omega) (by omega)
  · exact framed

/-! ## Scrolling -/

/-- What a scroll of the region copies and blanks, in bytes. -/
theorem region_size :
    4 * ((console.bottom - console.top - 1) * console.videoNumColumns / 2) +
        console.videoSizeRow + console.videoSizeRow * console.top ≤
      console.videoSizeRow * console.bottom := by
  obtain ⟨rows, bottom⟩ := Nat.exists_eq_add_of_lt framed.region
  have sizeRow := framed.sizeRow
  have halves := Nat.div_mul_le_self
    ((console.bottom - console.top - 1) * console.videoNumColumns) 2
  rw [bottom, show console.top + rows + 1 - console.top - 1 = rows by omega]
    at halves ⊢
  rw [sizeRow, Nat.mul_add, Nat.mul_add, Nat.mul_assoc 2 _ rows,
    Nat.mul_comm console.videoNumColumns rows]
  omega

/-- `scrup` by copies stays in the scroll region. -/
theorem copyUp :
    Framed display console.copyUp := by
  have size := framed.region_size
  have bottom := framed.rows_le framed.regionEnd
  have memStart := framed.memStart
  have memEnd := framed.memEnd
  have sizeRow := framed.sizeRow
  rw [Nat.mul_comm console.bottom] at bottom
  refine framed.setVideo (Words.Confined.fill ?_ ?_ ?_ _)
  · exact framed.confined.move (by omega) (by omega)
  · omega
  · omega

/-- The origin moves by a row, or back to where video memory starts. -/
theorem moveOrigin :
    Framed display console.moveOrigin := by
  have pos := framed.pos
  have scrEnd := framed.scrEnd
  have memStart := framed.memStart
  have memEnd := framed.memEnd
  have sizeRow := framed.sizeRow
  have row := framed.row
  have aligned := framed.aligned
  unfold Console.moveOrigin
  dsimp only
  split
  case isTrue =>
    have halves := Nat.div_mul_le_self
      ((console.videoNumLines - 1) * console.videoNumColumns) 2
    have screen : (console.videoNumLines - 1) * console.videoNumColumns +
        console.videoNumColumns =
          console.videoNumLines * console.videoNumColumns := by
      rw [← Nat.succ_mul]
      exact congrArg (· * _) (by omega)
    have bytes : console.videoNumLines * console.videoSizeRow =
        2 * (console.videoNumLines * console.videoNumColumns) := by
      rw [sizeRow, Nat.mul_left_comm]
    exact { framed with
      pos := by
        dsimp only
        omega
      scrEnd := by
        dsimp only
        omega
      memStart := Nat.le_refl _
      memEnd := by
        dsimp only
        omega
      aligned := by
        dsimp only
        omega
      confined :=
        (framed.confined.move (Nat.le_refl _) (by omega)).fill
          (by omega) (by omega) _ }
  case isFalse inside =>
    have room := framed.scrEnd_ge
    exact { framed with
      pos := by
        dsimp only
        omega
      scrEnd := by
        dsimp only
        omega
      memStart := by
        dsimp only
        omega
      memEnd := Nat.le_of_not_gt inside
      aligned := by
        dsimp only
        omega
      confined := framed.confined.fill (by omega) (by omega) _ }

theorem scrup :
    Framed display console.scrup := by
  unfold Console.scrup
  split
  · split
    · exact framed.moveOrigin
    · exact framed.copyUp
  · exact framed.copyUp

theorem scrdown :
    Framed display console.scrdown := by
  have size := framed.region_size
  have bottom := framed.rows_le framed.regionEnd
  have memStart := framed.memStart
  have memEnd := framed.memEnd
  have sizeRow := framed.sizeRow
  have wide := framed.wide
  rw [Nat.mul_comm console.bottom] at bottom
  refine framed.setVideo (Words.Confined.fillDown ?_ ?_ ?_ _)
  · exact framed.confined.moveDown (by omega) (by omega)
  · omega
  · omega

/-- The cursor moves to a row of the screen, and `pos` with it. -/
theorem setRow
    {y pos : Nat}
    (row : y < console.videoNumLines)
    (follows : pos = console.origin + y * console.videoSizeRow + 2 * console.x) :
    Framed display { console with y := y, pos := pos } :=
  { framed with row := row, pos := follows }

theorem lf :
    Framed display console.lf := by
  unfold Console.lf
  split
  case isTrue inside =>
    have pos := framed.pos
    refine framed.setRow (Nat.lt_of_lt_of_le inside framed.regionEnd) ?_
    rw [Nat.succ_mul]
    omega
  case isFalse =>
    exact framed.scrup

theorem ri :
    Framed display console.ri := by
  unfold Console.ri
  split
  case isTrue below =>
    have pos := framed.pos
    obtain ⟨y, isSucc⟩ := Nat.exists_eq_succ_of_ne_zero
      (Nat.ne_of_gt (Nat.lt_of_le_of_lt (Nat.zero_le _) below))
    rw [isSucc, Nat.succ_mul] at pos
    refine framed.setRow (Nat.lt_of_le_of_lt (Nat.sub_le _ _) framed.row) ?_
    rw [isSucc, Nat.succ_sub_one]
    omega
  case isFalse =>
    exact framed.scrdown

/-! ## Lines and characters -/

theorem wholeRegion :
    Framed display
      { console with top := console.y, bottom := console.videoNumLines } :=
  framed.setRegion framed.row (Nat.le_refl _)

/-- A scroll region is good on every console of the display. -/
theorem resetRegion
    {before : Console}
    (beforehand : Framed display before) :
    Framed display
      { console with top := before.top, bottom := before.bottom } :=
  framed.setRegion beforehand.region (by
    have lines : console.toDisplay = before.toDisplay :=
      framed.sameDisplay.trans beforehand.sameDisplay.symm
    rw [lines]
    exact beforehand.regionEnd)

theorem insertLine :
    Framed display console.insertLine :=
  framed.wholeRegion.scrdown.resetRegion framed

theorem deleteLine :
    Framed display console.deleteLine :=
  framed.wholeRegion.scrup.resetRegion framed

omit framed in
/-- `insert_char` stores at the cursor and to the right of it. -/
theorem insertLoop_confined
    {low high count p : Nat}
    {old : BitVec 16}
    {words : Words (BitVec 16)}
    (confined : words.Confined low high)
    (above : low ≤ p)
    (below : p + 2 * count ≤ high) :
    (insertLoop count p old words).Confined low high := by
  induction count generalizing p old words with
  | zero =>
    exact confined
  | succ count inductionHypothesis =>
    exact inductionHypothesis
      (confined.store above (by omega) old) (by omega) (by omega)

theorem insertChar :
    Framed display console.insertChar := by
  have pos := framed.pos
  have column := framed.column
  have rowEnd := framed.rowEnd_le framed.row
  have sizeRow := framed.sizeRow
  have memStart := framed.memStart
  have memEnd := framed.memEnd
  exact framed.setVideo
    (insertLoop_confined framed.confined (by omega) (by omega))

omit framed in
/-- `delete_char` stores at the cursor, to the right of it, and one blank. -/
theorem deleteLoop_confined
    {low high count p : Nat}
    {erase : BitVec 16}
    {words : Words (BitVec 16)}
    (confined : words.Confined low high)
    (above : low ≤ p)
    (below : p + 2 * count + 2 ≤ high) :
    (deleteLoop erase count p words).Confined low high := by
  induction count generalizing p words with
  | zero =>
    exact confined.store above (by omega) erase
  | succ count inductionHypothesis =>
    exact inductionHypothesis
      (confined.store above (by omega) _) (by omega) (by omega)

theorem deleteChar :
    Framed display console.deleteChar := by
  have pos := framed.pos
  have rowEnd := framed.rowEnd_le framed.row
  have sizeRow := framed.sizeRow
  have memStart := framed.memStart
  have memEnd := framed.memEnd
  unfold Console.deleteChar
  split
  · exact framed
  · exact framed.setVideo
      (deleteLoop_confined framed.confined (by omega) (by omega))

/-- What one turn keeps, the loops over `nr` keep. -/
theorem times
    {routine : Console → Console}
    (keeps :
      ∀ console, Framed display console → Framed display (routine console))
    (limit nr : Nat) :
    Framed display (console.times limit nr routine) :=
  Function.Iterate.rec (Framed display) framed keeps _

/-- A cursor behind its row goes on in the next one. -/
theorem foldLine
    {x pos : Nat}
    (behind : console.videoNumColumns ≤ x)
    (near : x ≤ 2 * console.videoNumColumns)
    (follows : pos = console.origin + console.y * console.videoSizeRow + 2 * x) :
    Framed display
      (Console.foldLine { console with x := x, pos := pos }) := by
  have sizeRow := framed.sizeRow
  exact (framed.setColumn
    (x - console.videoNumColumns) (pos - console.videoSizeRow)
    (by omega) (by omega)).lf

/-- A character is stored only within the row. -/
theorem store
    (inside : console.x < console.videoNumColumns)
    (word : BitVec 16) :
    Framed display
      { console with
        video := console.video.store console.pos word
        pos := console.pos + 2
        x := console.x + 1 } := by
  have pos := framed.pos
  have rowEnd := framed.rowEnd_le framed.row
  have sizeRow := framed.sizeRow
  have memStart := framed.memStart
  have memEnd := framed.memEnd
  have moved := framed.setColumn
    (console.x + 1) (console.pos + 2) inside (by omega)
  exact moved.setVideo (framed.confined.store (by omega) (by omega) _)

theorem print
    (c : BitVec 8) :
    Framed display (console.print c) := by
  have column := framed.column
  have wide := framed.wide
  unfold Console.print
  dsimp only
  split
  case isTrue behind =>
    refine (framed.foldLine behind (by omega) framed.pos).store ?_ _
    rw [Console.foldLine, lf_x, lf_toDisplay]
    dsimp only
    omega
  case isFalse inside =>
    exact framed.store (Nat.lt_of_not_ge inside) _

/-- A tabulator goes at most eight columns on, which is not more than a row. -/
theorem tab :
    Framed display console.tab := by
  have column := framed.column
  have wide := framed.wide
  have pos := framed.pos
  unfold Console.tab
  dsimp only
  split
  case isTrue behind =>
    exact framed.foldLine (by omega) (by omega) (by omega)
  case isFalse inside =>
    exact framed.setColumn _ _ (by omega) (by omega)

/-! ## Bytes -/

theorem plain
    (erase c : BitVec 8) :
    Framed display (console.plain erase c) := by
  unfold Console.plain
  split_ifs
  · exact framed.print c
  · exact framed.setState 1
  · exact framed.lf
  · exact framed.cr
  · exact framed.del
  · exact framed.back
  · exact framed.tab
  · exact framed

theorem escape
    (c : BitVec 8) :
    Framed display (console.escape c) := by
  have reset := framed.setState 0
  unfold Console.escape
  dsimp only
  split
  · exact reset.setState 2
  · exact reset.gotoxy 0 _
  · exact reset.ri
  · exact reset.lf
  · exact reset
  · split_ifs
    · exact reset.saveCur
    · exact reset.restoreCur
    · exact reset

theorem final
    (c : BitVec 8) :
    Framed display (console.final c) := by
  have reset := framed.setState 0
  have raised := reset.raisePar
  have lowered := reset.lowerPar 0
  unfold Console.final
  dsimp only
  split
  · exact lowered.gotoxy _ _
  · exact lowered.gotoxy _ _
  · exact raised.gotoxy _ _
  · exact raised.gotoxy _ _
  · exact raised.gotoxy _ _
  · exact raised.gotoxy _ _
  · exact raised.gotoxy _ _
  · exact raised.gotoxy _ _
  · exact raised.gotoxy _ _
  · exact raised.gotoxy _ _
  · exact lowered.gotoxy _ _
  · exact (lowered.lowerPar 1).gotoxy _ _
  · exact (lowered.lowerPar 1).gotoxy _ _
  · exact reset.csiJ _
  · exact reset.csiK _
  · exact reset.times (fun _ => insertLine) _ _
  · exact reset.times (fun _ => deleteLine) _ _
  · exact reset.times (fun _ => deleteChar) _ _
  · exact reset.times (fun _ => insertChar) _ _
  · exact reset.csim
  · exact lowered.completePar.setMargins
  · exact reset.saveCur
  · exact reset.restoreCur
  · exact reset

/-- `npar` is counted no further than `par` has places. -/
theorem parameter
    (c : BitVec 8) :
    Framed display (console.parameter c) := by
  unfold Console.parameter
  split_ifs
  case pos more =>
    have room : console.npar + 1 < npar := by
      have := more.2
      omega
    exact { framed with parameters := room }
  case pos =>
    exact framed.setPar _ _
  case neg =>
    exact (framed.setState 4).final c

theorem introducer
    (c : BitVec 8) :
    Framed display (console.introducer c) := by
  have started : Framed display
      { console with
        par := fun _ => 0
        npar := 0
        state := 3
        ques := c.toInt == 63 } :=
    { framed with
      parameters := by
        show 0 < 16
        decide }
  unfold Console.introducer
  dsimp only
  split
  · exact started
  · exact started.parameter c

/-- The step lemma: every byte in every state of `con_write`. -/
theorem writeByte
    (erase c : BitVec 8) :
    Framed display (console.writeByte erase c) := by
  unfold Console.writeByte
  split
  · exact framed.plain erase c
  · exact framed.escape c
  · exact framed.introducer c
  · exact framed.parameter c
  · exact framed.final c
  · exact framed

theorem conWrite
    (chunk : Chunk) :
    Framed display (conWrite console chunk) := by
  unfold Consoles.conWrite
  induction chunk.bytes generalizing console with
  | nil =>
    exact framed
  | cons c bytes inductionHypothesis =>
    exact inductionHypothesis (framed.writeByte chunk.erase c)

/-- The run lemma: any calls of `con_write`. -/
theorem chunks
    (chunks : List Chunk) :
    Framed display (chunks.foldl Consoles.conWrite console) := by
  induction chunks generalizing console with
  | nil =>
    exact framed
  | cons chunk rest inductionHypothesis =>
    exact inductionHypothesis (framed.conWrite chunk)

end Framed

/-! ## From the start -/

/-- A display of at least eight columns that fits into its video memory. -/
structure Setup.Fits (setup : Setup) : Prop where
  wide : 8 ≤ setup.origVideoCols
  column : setup.origX ≤ setup.display.videoNumColumns
  row : setup.origY < setup.display.videoNumLines
  room : setup.display.videoMemStart +
    setup.display.videoNumLines * setup.display.videoSizeRow ≤ setup.display.videoMemEnd

/-- `con_init` leaves the console on its screen. -/
theorem conInit_framed
    {setup : Setup}
    (fits : setup.Fits)
    (memory : Nat → BitVec 16) :
    Framed setup.display (setup.conInit memory) := by
  have inside : ¬(setup.origX > setup.display.videoNumColumns ∨
      setup.origY ≥ setup.display.videoNumLines) :=
    not_or.mpr ⟨Nat.not_lt.mpr fits.column, Nat.not_le.mpr fits.row⟩
  unfold Setup.conInit Console.gotoxy
  rw [if_neg inside]
  exact {
    sameDisplay := rfl
    sizeRow := Nat.mul_comm _ _
    wide := fits.wide
    pairs := by
      show 24 * setup.origVideoCols % 2 = 0
      omega
    column := fits.column
    row := fits.row
    region := by
      show 0 < 25
      decide
    regionEnd := Nat.le_refl _
    parameters := by
      show 0 < 16
      decide
    pos := rfl
    scrEnd := rfl
    memStart := Nat.le_refl _
    memEnd := fits.room
    aligned := by
      dsimp only
      rw [Nat.sub_self]
    confined := by
      intro address member
      exact absurd member List.not_mem_nil }

/--
From `con_init` on, whatever is written and however it is cut into calls of `con_write`,
the console keeps to its screen, and all its stores to its video memory.
-/
theorem console_keeps_screen
    {setup : Setup}
    (fits : setup.Fits)
    (memory : Nat → BitVec 16)
    (chunks : List Chunk) :
    Framed setup.display (chunks.foldl conWrite (setup.conInit memory)) :=
  (conInit_framed fits memory).chunks chunks

/-- A color display of 80 columns that gets a tabulator and a line feed. -/
theorem console_keeps_screen_color :
    Setup.Fits ⟨79, 24, 3, 80, 0⟩ ∧
      Framed (Setup.display ⟨79, 24, 3, 80, 0⟩)
        ([⟨0x7f, [0x09]⟩, ⟨0x7f, [0x0a]⟩].foldl conWrite
          (Setup.conInit ⟨79, 24, 3, 80, 0⟩ fun _ => 0x0720)) := by
  have fits : Setup.Fits ⟨79, 24, 3, 80, 0⟩ :=
    ⟨by decide, by decide, by decide, by decide⟩
  exact ⟨fits, console_keeps_screen fits _ _⟩

end Consoles

end HitOs
