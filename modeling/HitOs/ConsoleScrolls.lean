import HitOs.ConsoleFrames

namespace HitOs

/-!
# Hardware scrolling

Two consoles that show the same screen go on to show the same screen when they are given
the same bytes, also if one display scrolls by a move of its origin and the other by
copies.  Every routine stores at the same places of both screens; that the move of the
origin shows what a copy shows is the one comparison within a console.
-/

namespace Consoles

open Console

/-- What a screen shows, and the variables that say how it goes on. -/
structure SameScreen (console console' : Console) : Prop where
  columns : console.videoNumColumns = console'.videoNumColumns
  lines : console.videoNumLines = console'.videoNumLines
  eraseChar : console.videoEraseChar = console'.videoEraseChar
  registers : console.toRegisters = console'.toRegisters
  cells :
    Words.Same (console.videoNumLines * console.videoNumColumns)
      console.origin console'.origin console.video console'.video

/-- Two consoles in order that show the same screen. -/
structure Twins
    (display display' : Display)
    (console console' : Console) : Prop extends
    SameScreen console console' where
  framed : Framed display console
  framed' : Framed display' console'

namespace Framed

variable {display : Display} {console : Console}

variable (framed : Framed display console)

include framed

/-- The word of the screen at the cursor. -/
theorem pos_cell :
    console.pos = console.origin +
      2 * (console.y * console.videoNumColumns + console.x) := by
  rw [framed.pos, framed.sizeRow, Nat.mul_left_comm]
  omega

/-- The screen has this many words behind the cursor's row. -/
theorem row_cells :
    console.y * console.videoNumColumns + console.videoNumColumns ≤
      console.videoNumLines * console.videoNumColumns := by
  rw [← Nat.succ_mul]
  exact Nat.mul_le_mul_right _ framed.row

/-- The end of the screen, in its words. -/
theorem scrEnd_cells :
    console.scrEnd = console.origin +
      2 * (console.videoNumLines * console.videoNumColumns) := by
  rw [framed.scrEnd, framed.sizeRow, Nat.mul_left_comm]

end Framed

namespace Twins

variable {display display' : Display} {console console' : Console}

/-- A test that both consoles decide alike. -/
theorem choose
    {test test' : Prop}
    [Decidable test]
    [Decidable test']
    {yes no yes' no' : Console}
    (same : test ↔ test')
    (positive : test → Twins display display' yes yes')
    (negative : ¬test → Twins display display' no no') :
    Twins display display'
      (if test then yes else no) (if test' then yes' else no') := by
  by_cases holds : test
  · rw [if_pos holds, if_pos (same.mp holds)]
    exact positive holds
  · rw [if_neg holds, if_neg (mt same.mpr holds)]
    exact negative holds

variable (twins : Twins display display' console console')

include twins

theorem x : console.x = console'.x :=
  congrArg Registers.x twins.registers

theorem y : console.y = console'.y :=
  congrArg Registers.y twins.registers

theorem top : console.top = console'.top :=
  congrArg Registers.top twins.registers

theorem bottom : console.bottom = console'.bottom :=
  congrArg Registers.bottom twins.registers

theorem state : console.state = console'.state :=
  congrArg Registers.state twins.registers

theorem npar : console.npar = console'.npar :=
  congrArg Registers.npar twins.registers

theorem par : console.par = console'.par :=
  congrArg Registers.par twins.registers

/-- Consoles of the same displays that have changed alike. -/
theorem next
    {later later' : Console}
    (framed : Framed display later)
    (framed' : Framed display' later')
    (registers : later.toRegisters = later'.toRegisters)
    (cells :
      Words.Same (console.videoNumLines * console.videoNumColumns)
        later.origin later'.origin later.video later'.video) :
    Twins display display' later later' := by
  have same : later.toDisplay = console.toDisplay :=
    framed.sameDisplay.trans twins.framed.sameDisplay.symm
  have same' : later'.toDisplay = console'.toDisplay :=
    framed'.sameDisplay.trans twins.framed'.sameDisplay.symm
  refine
    { framed := framed
      framed' := framed'
      registers := registers
      columns := ?_
      lines := ?_
      eraseChar := ?_
      cells := ?_ }
  · rw [same, same']
    exact twins.columns
  · rw [same, same']
    exact twins.lines
  · rw [same, same']
    exact twins.eraseChar
  · rw [same]
    exact cells

/-! ## Steps that store nothing -/

/-- An assignment to `state` is made on both. -/
theorem setState
    (state : Nat) :
    Twins display display'
      (console.setState state) (console'.setState state) :=
  twins.next (twins.framed.setState state) (twins.framed'.setState state)
    (congrArg (fun registers => { registers with state := state })
      twins.registers)
    twins.cells

theorem setPar
    (i : Nat)
    {value value' : Nat}
    (values : value = value') :
    Twins display display'
      (console.setPar i value) (console'.setPar i value') := by
  subst values
  exact twins.next (twins.framed.setPar i value) (twins.framed'.setPar i value)
    (congrArg
      (fun registers =>
        { registers with par := Function.update registers.par i value })
      twins.registers)
    twins.cells

theorem lowerPar
    (i : Nat) :
    Twins display display' (console.lowerPar i) (console'.lowerPar i) :=
  choose (by rw [twins.par])
    (fun _ => twins.setPar i (by rw [twins.par])) (fun _ => twins)

theorem raisePar :
    Twins display display' console.raisePar console'.raisePar :=
  choose (by rw [twins.par]) (fun _ => twins.setPar 0 rfl) (fun _ => twins)

theorem completePar :
    Twins display display' console.completePar console'.completePar :=
  choose (by rw [twins.par])
    (fun _ => twins.setPar 1 twins.lines) (fun _ => twins)

/-- The same region on both. -/
theorem setRegion
    {top bottom top' bottom' : Nat}
    (tops : top = top')
    (bottoms : bottom = bottom')
    (region : top < bottom)
    (regionEnd : bottom ≤ console.videoNumLines) :
    Twins display display'
      { console with top := top, bottom := bottom }
      { console' with top := top', bottom := bottom' } := by
  subst tops bottoms
  exact twins.next (twins.framed.setRegion region regionEnd)
    (twins.framed'.setRegion region (twins.lines ▸ regionEnd))
    (congrArg
      (fun registers => { registers with top := top, bottom := bottom })
      twins.registers)
    twins.cells

theorem setMargins :
    Twins display display' console.setMargins console'.setMargins :=
  choose (by rw [twins.par, twins.lines])
    (fun region =>
      twins.setRegion (by rw [twins.par]) (by rw [twins.par])
        region.1 region.2)
    (fun _ => twins)

theorem saveCur :
    Twins display display' console.saveCur console'.saveCur :=
  twins.next twins.framed.saveCur twins.framed'.saveCur
    (congrArg
      (fun registers =>
        { registers with savedX := registers.x, savedY := registers.y })
      twins.registers)
    twins.cells

theorem csim :
    Twins display display' console.csim console'.csim :=
  twins.next twins.framed.csim twins.framed'.csim
    (congrArg
      (fun registers =>
        { registers with
          attr := (List.range (registers.npar + 1)).foldl
            (fun attr i => rendition (registers.par i) attr) registers.attr })
      twins.registers)
    twins.cells

/-- The test of `gotoxy` comes out alike, for the sizes are the same. -/
theorem gotoxy
    {newX newY newX' newY' : Nat}
    (columns : newX = newX')
    (rows : newY = newY') :
    Twins display display'
      (console.gotoxy newX newY) (console'.gotoxy newX' newY') := by
  subst columns rows
  have same : newX > console.videoNumColumns ∨ newY ≥ console.videoNumLines ↔
      newX > console'.videoNumColumns ∨ newY ≥ console'.videoNumLines := by
    rw [twins.columns, twins.lines]
  refine choose same (fun _ => twins) fun inside => ?_
  exact twins.next (twins.framed.place inside)
    (twins.framed'.place (mt same.mpr inside))
    (congrArg (fun registers => { registers with x := newX, y := newY })
      twins.registers)
    twins.cells

theorem restoreCur :
    Twins display display' console.restoreCur console'.restoreCur :=
  twins.gotoxy (congrArg Registers.savedX twins.registers)
    (congrArg Registers.savedY twins.registers)

theorem cr :
    Twins display display' console.cr console'.cr :=
  twins.next twins.framed.cr twins.framed'.cr
    (congrArg (fun registers => { registers with x := 0 }) twins.registers)
    twins.cells

theorem back :
    Twins display display' console.back console'.back := by
  refine choose (by rw [twins.x]) (fun away => ?_) (fun _ => twins)
  have framed := twins.framed.back
  have framed' := twins.framed'.back
  unfold Console.back at framed framed'
  rw [if_pos away] at framed
  rw [if_pos (twins.x ▸ away)] at framed'
  exact twins.next framed framed'
    (congrArg (fun registers => { registers with x := registers.x - 1 })
      twins.registers)
    twins.cells

/-! ## Stores on the screen -/

/-- The cursor of the other console is at the same word of its screen. -/
theorem pos_cell' :
    console'.pos = console'.origin +
      2 * (console.y * console.videoNumColumns + console.x) := by
  rw [twins.y, twins.columns, twins.x]
  exact twins.framed'.pos_cell

theorem scrEnd_cells' :
    console'.scrEnd = console'.origin +
      2 * (console.videoNumLines * console.videoNumColumns) := by
  rw [twins.lines, twins.columns]
  exact twins.framed'.scrEnd_cells

/-- Blanks from the same cell of the screen on. -/
theorem blank
    {count count' start start' : Nat}
    (framed : Framed display (console.blank count start))
    (framed' : Framed display' (console'.blank count' start'))
    (cell : Nat)
    (counts : count = count')
    (starts : start = console.origin + 2 * cell)
    (starts' : start' = console'.origin + 2 * cell) :
    Twins display display'
      (console.blank count start) (console'.blank count' start') := by
  refine twins.next framed framed' twins.registers ?_
  unfold Console.blank
  rw [starts, starts', counts, twins.eraseChar]
  exact twins.cells.fill cell count' _

/-- Blanks from the same word on, and as many. -/
theorem csiJ
    (par : Nat) :
    Twins display display' (console.csiJ par) (console'.csiJ par) := by
  have pos := twins.framed.pos_cell
  have pos' := twins.pos_cell'
  have scrEnd := twins.framed.scrEnd_cells
  have scrEnd' := twins.scrEnd_cells'
  have framed := twins.framed.csiJ par
  have framed' := twins.framed'.csiJ par
  rcases par with _ | _ | _ | par
  · exact twins.blank framed framed' _ (by omega) pos pos'
  · exact twins.blank framed framed' 0 (by omega) rfl rfl
  · exact twins.blank framed framed' 0
      (by rw [twins.lines, twins.columns]) rfl rfl
  · exact twins

theorem csiK
    (par : Nat) :
    Twins display display' (console.csiK par) (console'.csiK par) := by
  have pos := twins.framed.pos_cell
  have pos' := twins.pos_cell'
  have x := twins.x
  have columns := twins.columns
  have framed := twins.framed.csiK par
  have framed' := twins.framed'.csiK par
  rcases par with _ | _ | _ | par
  · refine choose (by rw [x, columns]) (fun _ => twins) fun inside => ?_
    have inside' : ¬console'.x ≥ console'.videoNumColumns := by
      rwa [← x, ← columns]
    unfold Console.csiK at framed framed'
    rw [if_neg inside] at framed
    rw [if_neg inside'] at framed'
    exact twins.blank framed framed' _ (by rw [x, columns]) pos pos'
  · exact twins.blank framed framed'
      (console.y * console.videoNumColumns) (by rw [x, columns])
      (by omega) (by omega)
  · exact twins.blank framed framed'
      (console.y * console.videoNumColumns) columns (by omega) (by omega)
  · exact twins

theorem del :
    Twins display display' console.del console'.del := by
  refine choose (by rw [twins.x]) (fun away => ?_) (fun _ => twins)
  have pos := twins.framed.pos_cell
  have pos' := twins.pos_cell'
  have framed := twins.framed.del
  have framed' := twins.framed'.del
  unfold Console.del at framed framed'
  rw [if_pos away] at framed
  rw [if_pos (twins.x ▸ away)] at framed'
  refine twins.next framed framed'
    (congrArg (fun registers => { registers with x := registers.x - 1 })
      twins.registers) ?_
  have cell : console.pos - 2 = console.origin +
      2 * (console.y * console.videoNumColumns + (console.x - 1)) := by
    omega
  have cell' : console'.pos - 2 = console'.origin +
      2 * (console.y * console.videoNumColumns + (console.x - 1)) := by
    omega
  dsimp only
  rw [cell, cell', twins.eraseChar]
  exact twins.cells.store _ _

/-! ## Scrolling -/

end Twins

/-- The moves of `copyUp` in words of the screen. -/
theorem Framed.copyUp_video
    {display : Display}
    {console : Console}
    (framed : Framed display console) :
    console.copyUp.video =
      ((console.video.move
        ((console.bottom - console.top - 1) * console.videoNumColumns / 2)
        (console.origin + 2 * (console.videoNumColumns * (console.top + 1)))
        (console.origin + 2 * (console.videoNumColumns * console.top))).fill
          console.videoEraseChar console.videoNumColumns
          (console.origin + 2 * (console.videoNumColumns * console.top +
            2 * ((console.bottom - console.top - 1) *
              console.videoNumColumns / 2)))) := by
  unfold Console.copyUp
  dsimp only
  rw [framed.sizeRow, Nat.mul_assoc, Nat.mul_assoc]
  exact congrArg (Words.fill _ _ · _) (by omega)

namespace Twins

variable {display display' : Display} {console console' : Console}

/-- The region ends on the screen. -/
theorem region_cells
    (framed : Framed display console) :
    console.videoNumColumns * (console.top + 1) +
        2 * ((console.bottom - console.top - 1) *
          console.videoNumColumns / 2) ≤
      console.bottom * console.videoNumColumns := by
  have size := framed.region_size
  rw [framed.sizeRow, Nat.mul_assoc, Nat.mul_assoc,
    Nat.mul_comm console.videoNumColumns console.bottom] at size
  rw [Nat.mul_succ]
  omega

/-- Both copy the same words of the region. -/
theorem copyUp
    (twins : Twins display display' console console') :
    Twins display display' console.copyUp console'.copyUp := by
  refine twins.next twins.framed.copyUp twins.framed'.copyUp
    twins.registers ?_
  have inside := region_cells twins.framed
  have bottom := Nat.mul_le_mul_right console.videoNumColumns
    twins.framed.regionEnd
  rw [twins.framed.copyUp_video, twins.framed'.copyUp_video, ← twins.top,
    ← twins.bottom, ← twins.columns, ← twins.eraseChar]
  exact (twins.cells.move _ _ _ (by omega)).fill _ _ _

end Twins

namespace Framed

variable {display : Display} {console : Console}

variable (framed : Framed display console)

include framed

theorem twins :
    Twins display display console console :=
  { columns := rfl
    lines := rfl
    eraseChar := rfl
    registers := rfl
    cells := fun _ _ => rfl
    framed := framed
    framed' := framed }

/-- The rows of the whole screen but one. -/
theorem rest_cells :
    2 * ((console.videoNumLines - 1) * console.videoNumColumns / 2) +
        console.videoNumColumns =
      console.videoNumLines * console.videoNumColumns := by
  have pairs := framed.pairs
  have row := framed.row
  have screen : (console.videoNumLines - 1) * console.videoNumColumns +
      console.videoNumColumns =
        console.videoNumLines * console.videoNumColumns := by
    rw [← Nat.succ_mul]
    exact congrArg (· * _) (by omega)
  omega

/-- What a scroll of the whole screen shows. -/
theorem copyUp_whole
    (top : console.top = 0)
    (bottom : console.bottom = console.videoNumLines)
    (i : Nat)
    (below : i < console.videoNumLines * console.videoNumColumns) :
    console.copyUp.video.word (console.origin + 2 * i) =
      if i + console.videoNumColumns <
          console.videoNumLines * console.videoNumColumns then
        console.video.word
          (console.origin + 2 * (i + console.videoNumColumns))
      else
        console.videoEraseChar := by
  have rest := framed.rest_cells
  rw [framed.copyUp_video, top, bottom, Nat.sub_zero, Nat.mul_zero,
    Nat.zero_add, Nat.zero_add, Nat.mul_one, Words.fill_word]
  have moved := Words.move_word console.origin 0 console.videoNumColumns
    ((console.videoNumLines - 1) * console.videoNumColumns / 2)
    console.video i
  rw [Nat.zero_add] at moved
  rw [moved]
  by_cases last : i + console.videoNumColumns <
      console.videoNumLines * console.videoNumColumns
  · rw [if_pos last, if_neg (by omega), if_pos (by omega)]
  · rw [if_neg last, if_pos (by omega)]

/-- The move of the origin shows the same, also when it has to go back. -/
theorem moveOrigin_whole
    (i : Nat)
    (below : i < console.videoNumLines * console.videoNumColumns) :
    console.moveOrigin.video.word (console.moveOrigin.origin + 2 * i) =
      if i + console.videoNumColumns <
          console.videoNumLines * console.videoNumColumns then
        console.video.word
          (console.origin + 2 * (i + console.videoNumColumns))
      else
        console.videoEraseChar := by
  have rest := framed.rest_cells
  have sizeRow := framed.sizeRow
  have scrEnd := framed.scrEnd_cells
  unfold Console.moveOrigin
  dsimp only
  split
  case isTrue =>
    have aligned := framed.aligned
    have memStart := framed.memStart
    obtain ⟨words, distance⟩ : ∃ words, console.origin =
        console.videoMemStart + 2 * words :=
      ⟨(console.origin - console.videoMemStart) / 2, by omega⟩
    have moved := Words.move_word console.videoMemStart 0
      (words + console.videoNumColumns)
      ((console.videoNumLines - 1) * console.videoNumColumns / 2)
      console.video i
    have filled := Words.fill_word console.videoMemStart
      (2 * ((console.videoNumLines - 1) * console.videoNumColumns / 2))
      console.videoNumColumns console.videoEraseChar
      (console.video.move
        ((console.videoNumLines - 1) * console.videoNumColumns / 2)
        (console.origin + console.videoSizeRow) console.videoMemStart) i
    rw [show console.videoMemStart +
        2 * (0 + (words + console.videoNumColumns)) =
          console.origin + console.videoSizeRow by omega,
      Nat.mul_zero, Nat.add_zero] at moved
    rw [moved, ← Nat.mul_assoc] at filled
    rw [filled]
    by_cases last : i + console.videoNumColumns <
        console.videoNumLines * console.videoNumColumns
    · rw [if_pos last, if_neg (by omega), if_pos (by omega)]
      exact congrArg console.video.word (by omega)
    · rw [if_neg last, if_pos (by omega)]
  case isFalse =>
    have filled := Words.fill_word
      (console.origin + console.videoSizeRow)
      (2 * ((console.videoNumLines - 1) * console.videoNumColumns / 2))
      console.videoNumColumns console.videoEraseChar console.video i
    rw [show console.origin + console.videoSizeRow +
        2 * (2 * ((console.videoNumLines - 1) *
          console.videoNumColumns / 2)) =
            console.scrEnd + console.videoSizeRow - console.videoSizeRow by
      omega] at filled
    rw [filled]
    by_cases last : i + console.videoNumColumns <
        console.videoNumLines * console.videoNumColumns
    · rw [if_pos last, if_neg (by omega)]
      exact congrArg console.video.word (by omega)
    · rw [if_neg last, if_pos (by omega)]

/-- Every display shows what a copy shows. -/
theorem scrup_copies :
    Twins display display console.scrup console.copyUp := by
  unfold Console.scrup
  split
  · split
    case isTrue whole =>
      have registers : console.moveOrigin.toRegisters =
          console.toRegisters := by
        unfold Console.moveOrigin
        dsimp only
        split <;> rfl
      refine framed.twins.next framed.moveOrigin framed.copyUp registers ?_
      intro i below
      rw [framed.moveOrigin_whole i below]
      exact (framed.copyUp_whole whole.1 whole.2 i below).symm
    case isFalse =>
      exact framed.copyUp.twins
  · exact framed.copyUp.twins

end Framed

namespace Twins

variable {display display' display'' : Display}
variable {console console' console'' : Console}

variable (twins : Twins display display' console console')

include twins

theorem symm :
    Twins display' display console' console :=
  { columns := twins.columns.symm
    lines := twins.lines.symm
    eraseChar := twins.eraseChar.symm
    registers := twins.registers.symm
    cells := by
      rw [← twins.lines, ← twins.columns]
      exact twins.cells.symm
    framed := twins.framed'
    framed' := twins.framed }

theorem trans
    (twins' : Twins display' display'' console' console'') :
    Twins display display'' console console'' :=
  { columns := twins.columns.trans twins'.columns
    lines := twins.lines.trans twins'.lines
    eraseChar := twins.eraseChar.trans twins'.eraseChar
    registers := twins.registers.trans twins'.registers
    cells := by
      have cells := twins'.cells
      rw [← twins.lines, ← twins.columns] at cells
      exact twins.cells.trans cells
    framed := twins.framed
    framed' := twins'.framed' }

/-- Whether the origin moves on one, both or none of them, the same is shown. -/
theorem scrup :
    Twins display display' console.scrup console'.scrup :=
  (twins.framed.scrup_copies.trans twins.copyUp).trans
    twins.framed'.scrup_copies.symm

end Twins

/-- The moves of `scrdown` in words of the screen. -/
theorem Framed.scrdown_video
    {display : Display}
    {console : Console}
    (framed : Framed display console) :
    console.scrdown.video =
      ((console.video.moveDown
        ((console.bottom - console.top - 1) * console.videoNumColumns / 2)
        (console.origin + 2 * (console.videoNumColumns * (console.bottom - 1)) - 4)
        (console.origin +
          2 * (console.videoNumColumns * console.bottom) - 4)).fillDown
            console.videoEraseChar console.videoNumColumns
            (console.origin +
              2 * (console.videoNumColumns * console.bottom -
                2 * ((console.bottom - console.top - 1) *
                  console.videoNumColumns / 2)) - 2)) := by
  have size := framed.region_size
  have sizeRow := framed.sizeRow
  have wide := framed.wide
  unfold Console.scrdown
  dsimp only
  rw [sizeRow, Nat.mul_assoc, Nat.mul_assoc] at size ⊢
  exact congrArg (Words.fillDown _ _ · _) (by omega)

namespace Twins

variable {display display' : Display} {console console' : Console}

variable (twins : Twins display display' console console')

include twins

theorem scrdown :
    Twins display display' console.scrdown console'.scrdown := by
  refine twins.next twins.framed.scrdown twins.framed'.scrdown
    twins.registers ?_
  have inside := region_cells twins.framed
  have bottom := Nat.mul_le_mul_right console.videoNumColumns
    twins.framed.regionEnd
  have region := twins.framed.region
  have rows : console.videoNumColumns * (console.bottom - 1) +
      console.videoNumColumns = console.videoNumColumns * console.bottom := by
    rw [← Nat.mul_succ]
    exact congrArg (_ * ·) (by omega)
  rw [Nat.mul_succ, Nat.mul_comm console.bottom] at inside
  rw [Nat.mul_comm console.bottom] at bottom
  rw [twins.framed.scrdown_video, twins.framed'.scrdown_video, ← twins.top,
    ← twins.bottom, ← twins.columns, ← twins.eraseChar]
  refine (twins.cells.moveDown _ _ _ ?_ ?_ ?_).fillDown _ _ ?_ _
  · omega
  · omega
  · omega
  · omega

theorem lf :
    Twins display display' console.lf console'.lf := by
  refine choose (by rw [twins.y, twins.bottom]) (fun inside => ?_)
    (fun _ => twins.scrup)
  have framed := twins.framed.lf
  have framed' := twins.framed'.lf
  unfold Console.lf at framed framed'
  rw [if_pos inside] at framed
  rw [if_pos (twins.y ▸ twins.bottom ▸ inside)] at framed'
  exact twins.next framed framed'
    (congrArg (fun registers => { registers with y := registers.y + 1 })
      twins.registers)
    twins.cells

theorem ri :
    Twins display display' console.ri console'.ri := by
  refine choose (by rw [twins.y, twins.top]) (fun below => ?_)
    (fun _ => twins.scrdown)
  have framed := twins.framed.ri
  have framed' := twins.framed'.ri
  unfold Console.ri at framed framed'
  rw [if_pos below] at framed
  rw [if_pos (twins.y ▸ twins.top ▸ below)] at framed'
  exact twins.next framed framed'
    (congrArg (fun registers => { registers with y := registers.y - 1 })
      twins.registers)
    twins.cells

/-! ## Lines and characters -/

theorem wholeRegion :
    Twins display display'
      { console with top := console.y, bottom := console.videoNumLines }
      { console' with
        top := console'.y
        bottom := console'.videoNumLines } :=
  twins.setRegion twins.y twins.lines twins.framed.row (Nat.le_refl _)

theorem resetRegion
    {before before' : Console}
    (beforehand : Twins display display' before before') :
    Twins display display'
      { console with top := before.top, bottom := before.bottom }
      { console' with top := before'.top, bottom := before'.bottom } := by
  have lines : console.toDisplay = before.toDisplay :=
    twins.framed.sameDisplay.trans beforehand.framed.sameDisplay.symm
  refine twins.setRegion beforehand.top beforehand.bottom
    beforehand.framed.region ?_
  rw [lines]
  exact beforehand.framed.regionEnd

theorem insertLine :
    Twins display display' console.insertLine console'.insertLine :=
  twins.wholeRegion.scrdown.resetRegion twins

theorem deleteLine :
    Twins display display' console.deleteLine console'.deleteLine :=
  twins.wholeRegion.scrup.resetRegion twins

omit twins in
/-- `insert_char` reads and stores the same words of both screens. -/
theorem insertLoop_same
    {length base base' : Nat}
    {words words' : Words (BitVec 16)}
    (same : Words.Same length base base' words words')
    (start count : Nat)
    (old : BitVec 16)
    (inside : start + count ≤ length) :
    Words.Same length base base'
      (insertLoop count (base + 2 * start) old words)
      (insertLoop count (base' + 2 * start) old words') := by
  induction count generalizing start old words words' with
  | zero =>
    exact same
  | succ count inductionHypothesis =>
    unfold insertLoop
    rw [same start (by omega)]
    exact inductionHypothesis (same.store start old) (start + 1) _
      (by omega)

theorem insertChar :
    Twins display display' console.insertChar console'.insertChar := by
  refine twins.next twins.framed.insertChar twins.framed'.insertChar
    twins.registers ?_
  have row := twins.framed.row_cells
  have column := twins.framed.column
  unfold Console.insertChar
  dsimp only
  rw [twins.framed.pos_cell, twins.pos_cell', ← twins.x, ← twins.columns,
    ← twins.eraseChar]
  exact insertLoop_same twins.cells _ _ _ (by omega)

omit twins in
/-- `delete_char` reads and stores the same words of both screens. -/
theorem deleteLoop_same
    {length base base' : Nat}
    {words words' : Words (BitVec 16)}
    (same : Words.Same length base base' words words')
    (start count : Nat)
    (erase : BitVec 16)
    (inside : start + count + 1 ≤ length) :
    Words.Same length base base'
      (deleteLoop erase count (base + 2 * start) words)
      (deleteLoop erase count (base' + 2 * start) words') := by
  induction count generalizing start words words' with
  | zero =>
    exact same.store start erase
  | succ count inductionHypothesis =>
    have following : words.word (base + 2 * start + 2) =
        words'.word (base' + 2 * start + 2) :=
      same (start + 1) (by omega)
    unfold deleteLoop
    rw [following]
    exact inductionHypothesis (same.store start _) (start + 1) (by omega)

theorem deleteChar :
    Twins display display' console.deleteChar console'.deleteChar := by
  refine choose (by rw [twins.x, twins.columns]) (fun _ => twins)
    (fun inside => ?_)
  have framed := twins.framed.deleteChar
  have framed' := twins.framed'.deleteChar
  unfold Console.deleteChar at framed framed'
  rw [if_neg inside] at framed
  rw [if_neg (twins.x ▸ twins.columns ▸ inside)] at framed'
  refine twins.next framed framed' twins.registers ?_
  have row := twins.framed.row_cells
  dsimp only
  rw [twins.framed.pos_cell, twins.pos_cell', ← twins.x, ← twins.columns,
    ← twins.eraseChar]
  exact deleteLoop_same twins.cells _ _ _ (by omega)

theorem times
    {routine : Console → Console}
    (keeps :
      ∀ console console', Twins display display' console console' →
        Twins display display' (routine console) (routine console'))
    {limit limit' nr nr' : Nat}
    (limits : limit = limit')
    (numbers : nr = nr') :
    Twins display display'
      (console.times limit nr routine) (console'.times limit' nr' routine) := by
  subst limits numbers
  unfold Console.times
  generalize (if nr > limit then limit else if nr = 0 then 1 else nr) = count
  induction count generalizing console console' with
  | zero =>
    exact twins
  | succ count inductionHypothesis =>
    exact inductionHypothesis (keeps console console' twins)

theorem setColumn
    {x x' pos pos' : Nat}
    (columns : x = x')
    (framed : Framed display { console with x := x, pos := pos })
    (framed' : Framed display' { console' with x := x', pos := pos' }) :
    Twins display display'
      { console with x := x, pos := pos }
      { console' with x := x', pos := pos' } := by
  subst columns
  exact twins.next framed framed'
    (congrArg (fun registers => { registers with x := x }) twins.registers)
    twins.cells

/-- The same character at the cursor. -/
theorem store
    (inside : console.x < console.videoNumColumns)
    {word word' : BitVec 16}
    (words : word = word') :
    Twins display display'
      { console with
        video := console.video.store console.pos word
        pos := console.pos + 2
        x := console.x + 1 }
      { console' with
        video := console'.video.store console'.pos word'
        pos := console'.pos + 2
        x := console'.x + 1 } := by
  subst words
  refine twins.next (twins.framed.store inside word)
    (twins.framed'.store (by rwa [← twins.x, ← twins.columns]) word)
    (congrArg (fun registers => { registers with x := registers.x + 1 })
      twins.registers) ?_
  dsimp only
  rw [twins.framed.pos_cell, twins.pos_cell']
  exact twins.cells.store _ word

/-- The cursor goes on in the next row of both. -/
theorem foldLine
    {x x' pos pos' : Nat}
    (columns : x = x')
    (behind : console.videoNumColumns ≤ x)
    (near : x ≤ 2 * console.videoNumColumns)
    (follows : pos = console.origin + console.y * console.videoSizeRow + 2 * x)
    (follows' : pos' = console'.origin + console'.y * console'.videoSizeRow + 2 * x') :
    Twins display display'
      (Console.foldLine { console with x := x, pos := pos })
      (Console.foldLine { console' with x := x', pos := pos' }) := by
  have sizeRow := twins.framed.sizeRow
  have sizeRow' := twins.framed'.sizeRow
  have same := twins.columns
  exact (twins.setColumn (by omega)
    (twins.framed.setColumn (x - console.videoNumColumns)
      (pos - console.videoSizeRow) (by omega) (by omega))
    (twins.framed'.setColumn (x' - console'.videoNumColumns)
      (pos' - console'.videoSizeRow) (by omega) (by omega))).lf

theorem print
    (c : BitVec 8) :
    Twins display display' (console.print c) (console'.print c) := by
  have column := twins.framed.column
  have wide := twins.framed.wide
  have attr : console.attr = console'.attr :=
    congrArg Registers.attr twins.registers
  unfold Console.print
  dsimp only
  by_cases behind : console.x ≥ console.videoNumColumns
  · have behind' : console'.x ≥ console'.videoNumColumns := by
      rwa [← twins.x, ← twins.columns]
    have folded := twins.foldLine twins.x behind (by omega)
      twins.framed.pos twins.framed'.pos
    rw [if_pos behind, if_pos behind']
    refine folded.store ?_ ?_
    · rw [Console.foldLine, lf_x, lf_toDisplay]
      dsimp only
      omega
    · exact congrArg (· ++ c) (congrArg Registers.attr folded.registers)
  · have inside' : ¬console'.x ≥ console'.videoNumColumns := by
      rwa [← twins.x, ← twins.columns]
    rw [if_neg behind, if_neg inside']
    exact twins.store (Nat.lt_of_not_ge behind) (congrArg (· ++ c) attr)

theorem tab :
    Twins display display' console.tab console'.tab := by
  have column := twins.framed.column
  have wide := twins.framed.wide
  have pos := twins.framed.pos
  have pos' := twins.framed'.pos
  have x := twins.x
  have columns := twins.columns
  refine choose (by dsimp only; rw [x, columns]) ?_ ?_
  · intro behind
    dsimp only at behind
    exact twins.foldLine (by rw [x]) (by omega) (by omega) (by omega)
      (by omega)
  · intro inside
    dsimp only at inside
    exact twins.setColumn (by rw [x])
      (twins.framed.setColumn _ _ (by omega) (by omega))
      (twins.framed'.setColumn _ _ (by omega) (by omega))

/-! ## Bytes -/

theorem plain
    (erase c : BitVec 8) :
    Twins display display'
      (console.plain erase c) (console'.plain erase c) := by
  unfold Console.plain
  split_ifs
  · exact twins.print c
  · exact twins.setState 1
  · exact twins.lf
  · exact twins.cr
  · exact twins.del
  · exact twins.back
  · exact twins.tab
  · exact twins

theorem escape
    (c : BitVec 8) :
    Twins display display' (console.escape c) (console'.escape c) := by
  have reset := twins.setState 0
  unfold Console.escape
  dsimp only
  split
  · exact reset.setState 2
  · exact reset.gotoxy rfl (congrArg (· + 1) reset.y)
  · exact reset.ri
  · exact reset.lf
  · exact reset
  · refine choose (by rw [reset.x]) (fun _ => reset.saveCur) fun _ => ?_
    exact choose (by rw [reset.x]) (fun _ => reset.restoreCur)
      (fun _ => reset)

theorem final
    (c : BitVec 8) :
    Twins display display' (console.final c) (console'.final c) := by
  have reset := twins.setState 0
  have raised := reset.raisePar
  have lowered := reset.lowerPar 0
  have both := lowered.lowerPar 1
  unfold Console.final
  dsimp only
  split
  · exact lowered.gotoxy (by rw [lowered.par]) lowered.y
  · exact lowered.gotoxy (by rw [lowered.par]) lowered.y
  · exact raised.gotoxy raised.x (by rw [raised.y, raised.par])
  · exact raised.gotoxy raised.x (by rw [raised.y, raised.par])
  · exact raised.gotoxy raised.x (by rw [raised.y, raised.par])
  · exact raised.gotoxy (by rw [raised.x, raised.par]) raised.y
  · exact raised.gotoxy (by rw [raised.x, raised.par]) raised.y
  · exact raised.gotoxy (by rw [raised.x, raised.par]) raised.y
  · exact raised.gotoxy rfl (by rw [raised.y, raised.par])
  · exact raised.gotoxy rfl (by rw [raised.y, raised.par])
  · exact lowered.gotoxy lowered.x (by rw [lowered.par])
  · exact both.gotoxy (by rw [both.par]) (by rw [both.par])
  · exact both.gotoxy (by rw [both.par]) (by rw [both.par])
  · rw [reset.par]
    exact reset.csiJ _
  · rw [reset.par]
    exact reset.csiK _
  · exact reset.times (fun _ _ => insertLine) reset.lines (by rw [reset.par])
  · exact reset.times (fun _ _ => deleteLine) reset.lines (by rw [reset.par])
  · exact reset.times (fun _ _ => deleteChar) reset.columns
      (by rw [reset.par])
  · exact reset.times (fun _ _ => insertChar) reset.columns
      (by rw [reset.par])
  · exact reset.csim
  · exact lowered.completePar.setMargins
  · exact reset.saveCur
  · exact reset.restoreCur
  · exact reset

theorem parameter
    (c : BitVec 8) :
    Twins display display' (console.parameter c) (console'.parameter c) := by
  refine choose (by rw [twins.npar]) (fun more => ?_) fun _ => ?_
  · have room : console.npar + 1 < Consoles.npar := by
      have := more.2
      omega
    have room' : console'.npar + 1 < Consoles.npar := by
      rwa [← twins.npar]
    exact twins.next { twins.framed with parameters := room }
      { twins.framed' with parameters := room' }
      (congrArg
        (fun registers => { registers with npar := registers.npar + 1 })
        twins.registers)
      twins.cells
  · refine choose Iff.rfl (fun _ => ?_) (fun _ => (twins.setState 4).final c)
    rw [twins.npar, twins.par]
    exact twins.setPar _ rfl

theorem introducer
    (c : BitVec 8) :
    Twins display display' (console.introducer c) (console'.introducer c) := by
  have started : Twins display display'
      { console with
        par := fun _ => 0
        npar := 0
        state := 3
        ques := c.toInt == 63 }
      { console' with
        par := fun _ => 0
        npar := 0
        state := 3
        ques := c.toInt == 63 } :=
    twins.next
      { twins.framed with
        parameters := by
          show 0 < 16
          decide }
      { twins.framed' with
        parameters := by
          show 0 < 16
          decide }
      (congrArg
        (fun registers =>
          { registers with
            par := fun _ => 0
            npar := 0
            state := 3
            ques := c.toInt == 63 })
        twins.registers)
      twins.cells
  exact choose Iff.rfl (fun _ => started) (fun _ => started.parameter c)

/-- The step lemma: both go the same way in `con_write`. -/
theorem writeByte
    (erase c : BitVec 8) :
    Twins display display'
      (console.writeByte erase c) (console'.writeByte erase c) := by
  unfold Console.writeByte
  rw [twins.state]
  split
  · exact twins.plain erase c
  · exact twins.escape c
  · exact twins.introducer c
  · exact twins.parameter c
  · exact twins.final c
  · exact twins

theorem conWrite
    (chunk : Chunk) :
    Twins display display'
      (conWrite console chunk) (conWrite console' chunk) := by
  unfold Consoles.conWrite
  induction chunk.bytes generalizing console console' with
  | nil =>
    exact twins
  | cons c bytes inductionHypothesis =>
    exact inductionHypothesis (twins.writeByte chunk.erase c)

/-- The run lemma: the same calls of `con_write` for both. -/
theorem chunks
    (chunks : List Chunk) :
    Twins display display'
      (chunks.foldl Consoles.conWrite console)
      (chunks.foldl Consoles.conWrite console') := by
  induction chunks generalizing console console' with
  | nil =>
    exact twins
  | cons chunk rest inductionHypothesis =>
    exact inductionHypothesis (twins.conWrite chunk)

end Twins

/-! ## The screens -/

/--
Consoles that are in order, as all are from `con_init` on, and that show the same screen
show the same screen after all that is written to both of them, whatever the types of
their displays.
-/
theorem displays_show_the_same
    {display display' : Display}
    {console console' : Console}
    (framed : Framed display console)
    (framed' : Framed display' console')
    (same : SameScreen console console')
    (chunks : List Chunk) :
    SameScreen
      (chunks.foldl conWrite console) (chunks.foldl conWrite console') := by
  have twins : Twins display display' console console' :=
    { toSameScreen := same
      framed := framed
      framed' := framed' }
  exact (twins.chunks chunks).toSameScreen

/-- An EGA and a CGA display with blank screens. -/
theorem displays_show_the_same_blank :
    let setup : Setup := ⟨0, 24, 3, 80, 0⟩
    let setup' : Setup := ⟨0, 24, 3, 80, 0x10⟩
    let video : Words (BitVec 16) := ⟨fun _ => 0x0720, []⟩
    let console := { setup.conInit fun _ => 0x0720 with video := video }
    let console' := { setup'.conInit fun _ => 0x0720 with video := video }
    console.videoType = .egac ∧ console'.videoType = .cga ∧
      Framed setup.display console ∧ Framed setup'.display console' ∧
      SameScreen console console' ∧
      SameScreen
        ([⟨0x7f, [0x41, 0x0a]⟩].foldl conWrite console)
        ([⟨0x7f, [0x41, 0x0a]⟩].foldl conWrite console') := by
  intro setup setup' video console console'
  have framed : Framed setup.display console :=
    (conInit_framed ⟨by decide, by decide, by decide, by decide⟩ _).setVideo
      (fun _ member => absurd member List.not_mem_nil)
  have framed' : Framed setup'.display console' :=
    (conInit_framed ⟨by decide, by decide, by decide, by decide⟩ _).setVideo
      (fun _ member => absurd member List.not_mem_nil)
  have same : SameScreen console console' :=
    { columns := rfl
      lines := rfl
      eraseChar := rfl
      registers := rfl
      cells := fun _ _ => rfl }
  exact ⟨rfl, rfl, framed, framed', same,
    displays_show_the_same framed framed' same [⟨0x7f, [0x41, 0x0a]⟩]⟩

end Consoles

end HitOs
