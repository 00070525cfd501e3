import HitOs.StringMoves
import Mathlib.Algebra.Group.Nat.Defs
import Mathlib.Logic.Function.Iterate
import Mathlib.Tactic.SplitIfs

namespace HitOs

/-!
# The console

`con_init` and `con_write` of `console.c` with the routines they call.  The video memory
is a memory of words; all words of it that the console uses are at even addresses.  The
registers of the display controller, which only follow `origin` and `pos`, are left out.
-/

namespace Consoles

/-- `NPAR` -/
def npar : Nat := 16

/-- A sum or difference of `unsigned long`. -/
def wrap (n : Nat) : Nat := n % 2 ^ 32

/-- `m - n` of `unsigned long`. -/
def wrapSub (m n : Nat) : Nat := wrap (m + 2 ^ 32 - n)

/-- `video_type` -/
inductive VideoType where
  | mda
  | cga
  | egam
  | egac
deriving DecidableEq

/-- What `con_init` finds out about the display. -/
structure Display where
  videoType : VideoType
  videoNumColumns : Nat
  videoSizeRow : Nat
  videoNumLines : Nat
  videoMemStart : Nat
  videoMemEnd : Nat
  videoEraseChar : BitVec 16

/-- The variables of `console.c` that say nothing about video memory. -/
structure Registers where
  x : Nat
  y : Nat
  top : Nat
  bottom : Nat
  state : Nat
  npar : Nat
  par : Nat → Nat
  ques : Bool
  attr : BitVec 8
  savedX : Nat
  savedY : Nat

structure Console extends Display, Registers where
  origin : Nat
  scrEnd : Nat
  pos : Nat
  video : Words (BitVec 16)

namespace Console

/-- `gotoxy`, for which `x == video_num_columns` is fine. -/
def gotoxy (newX newY : Nat) (console : Console) : Console :=
  if newX > console.videoNumColumns ∨ newY ≥ console.videoNumLines then
    console
  else
    { console with
      x := newX
      y := newY
      pos := console.origin + newY * console.videoSizeRow + 2 * newX }

/-- `rep stosw` with `video_erase_char`. -/
def blank (count start : Nat) (console : Console) : Console :=
  { console with
    video := console.video.fill console.videoEraseChar count start }

def isEga (console : Console) : Bool :=
  console.videoType == .egac || console.videoType == .egam

/-- Scroll the region up by a copy of its rows. -/
def copyUp (console : Console) : Console :=
  let count :=
    (console.bottom - console.top - 1) * console.videoNumColumns / 2
  let di := console.origin + console.videoSizeRow * console.top
  let si := console.origin + console.videoSizeRow * (console.top + 1)
  { console with
    video := (console.video.move count si di).fill console.videoEraseChar
      console.videoNumColumns (di + 4 * count) }

/-- Scroll the whole screen up in video memory, back to its start behind its end. -/
def moveOrigin (console : Console) : Console :=
  let origin := console.origin + console.videoSizeRow
  let pos := console.pos + console.videoSizeRow
  let scrEnd := console.scrEnd + console.videoSizeRow
  if scrEnd > console.videoMemEnd then
    let count := (console.videoNumLines - 1) * console.videoNumColumns / 2
    { console with
      video := (console.video.move count origin console.videoMemStart).fill
        console.videoEraseChar console.videoNumColumns
        (console.videoMemStart + 4 * count)
      scrEnd := scrEnd - (origin - console.videoMemStart)
      pos := pos - (origin - console.videoMemStart)
      origin := console.videoMemStart }
  else
    { console with
      video := console.video.fill console.videoEraseChar
        console.videoNumColumns (scrEnd - console.videoSizeRow)
      scrEnd := scrEnd
      pos := pos
      origin := origin }

/-- `scrup` -/
def scrup (console : Console) : Console :=
  if console.isEga then
    if console.top = 0 ∧ console.bottom = console.videoNumLines then
      console.moveOrigin
    else
      console.copyUp
  else
    console.copyUp

/-- Scrolling moves no cursor, also in video memory. -/
@[simp] theorem scrup_toRegisters (console : Console) :
    console.scrup.toRegisters = console.toRegisters := by
  unfold scrup moveOrigin copyUp
  dsimp only
  split_ifs <;> rfl

@[simp] theorem scrup_toDisplay (console : Console) :
    console.scrup.toDisplay = console.toDisplay := by
  unfold scrup moveOrigin copyUp
  dsimp only
  split_ifs <;> rfl

/-- `scrdown`, which does the same on every display. -/
def scrdown (console : Console) : Console :=
  let count :=
    (console.bottom - console.top - 1) * console.videoNumColumns / 2
  let di := console.origin + console.videoSizeRow * console.bottom - 4
  let si := console.origin + console.videoSizeRow * (console.bottom - 1) - 4
  { console with
    video := (console.video.moveDown count si di).fillDown
      console.videoEraseChar console.videoNumColumns (di - 4 * count + 2) }

/-- `lf` -/
def lf (console : Console) : Console :=
  if console.y + 1 < console.bottom then
    { console with
      y := console.y + 1
      pos := console.pos + console.videoSizeRow }
  else
    console.scrup

@[simp] theorem lf_x (console : Console) : console.lf.x = console.x := by
  unfold lf
  split
  · rfl
  · rw [scrup_toRegisters]

@[simp] theorem lf_toDisplay (console : Console) :
    console.lf.toDisplay = console.toDisplay := by
  unfold lf
  split
  · rfl
  · exact scrup_toDisplay console

/-- `ri` -/
def ri (console : Console) : Console :=
  if console.y > console.top then
    { console with
      y := console.y - 1
      pos := console.pos - console.videoSizeRow }
  else
    console.scrdown

/-- `cr` -/
def cr (console : Console) : Console :=
  { console with pos := console.pos - 2 * console.x, x := 0 }

/-- `del` -/
def del (console : Console) : Console :=
  if console.x ≠ 0 then
    { console with
      pos := console.pos - 2
      x := console.x - 1
      video := console.video.store (console.pos - 2) console.videoEraseChar }
  else
    console

/-- `csi_J` -/
def csiJ (par : Nat) (console : Console) : Console :=
  match par with
  | 0 => console.blank ((console.scrEnd - console.pos) / 2) console.pos
  | 1 => console.blank ((console.pos - console.origin) / 2) console.origin
  | 2 =>
    console.blank
      (console.videoNumColumns * console.videoNumLines) console.origin
  | _ => console

/-- `csi_K` -/
def csiK (par : Nat) (console : Console) : Console :=
  match par with
  | 0 =>
    if console.x ≥ console.videoNumColumns then
      console
    else
      console.blank (console.videoNumColumns - console.x) console.pos
  | 1 =>
    console.blank
      (if console.x < console.videoNumColumns then console.x
        else console.videoNumColumns)
      (console.pos - 2 * console.x)
  | 2 => console.blank console.videoNumColumns (console.pos - 2 * console.x)
  | _ => console

/-- What one parameter of `csi_m` makes of `attr`. -/
def rendition (par : Nat) (attr : BitVec 8) : BitVec 8 :=
  match par with
  | 0 => 0x07
  | 1 => 0x0f
  | 4 => 0x0f
  | 7 => 0x70
  | 27 => 0x07
  | _ => attr

/-- `csi_m` -/
def csim (console : Console) : Console :=
  { console with
    attr := (List.range (console.npar + 1)).foldl
      (fun attr i => rendition (console.par i) attr) console.attr }

/-- The loop of `insert_char`. -/
def insertLoop :
    Nat → Nat → BitVec 16 → Words (BitVec 16) → Words (BitVec 16)
  | 0, _, _, words => words
  | count + 1, p, old, words =>
    insertLoop count (p + 2) (words.word p) (words.store p old)

/-- `insert_char` -/
def insertChar (console : Console) : Console :=
  { console with
    video := insertLoop (console.videoNumColumns - console.x) console.pos
      console.videoEraseChar console.video }

/-- `insert_line` -/
def insertLine (console : Console) : Console :=
  { scrdown
      { console with top := console.y, bottom := console.videoNumLines } with
    top := console.top
    bottom := console.bottom }

/-- The loop of `delete_char`, and the word stored after it. -/
def deleteLoop (erase : BitVec 16) :
    Nat → Nat → Words (BitVec 16) → Words (BitVec 16)
  | 0, p, words => words.store p erase
  | count + 1, p, words =>
    deleteLoop erase count (p + 2) (words.store p (words.word (p + 2)))

/-- `delete_char` -/
def deleteChar (console : Console) : Console :=
  if console.x ≥ console.videoNumColumns then
    console
  else
    { console with
      video := deleteLoop console.videoEraseChar
        (console.videoNumColumns - console.x - 1) console.pos console.video }

/-- `delete_line` -/
def deleteLine (console : Console) : Console :=
  { scrup
      { console with top := console.y, bottom := console.videoNumLines } with
    top := console.top
    bottom := console.bottom }

/-- The loops of `csi_at`, `csi_L`, `csi_P` and `csi_M`, on a number given or 1. -/
def times
    (limit nr : Nat)
    (routine : Console → Console)
    (console : Console) : Console :=
  routine^[if nr > limit then limit else if nr = 0 then 1 else nr] console

/-- `csi_at` -/
def csiAt (nr : Nat) (console : Console) : Console :=
  console.times console.videoNumColumns nr insertChar

/-- `csi_L` -/
def csiL (nr : Nat) (console : Console) : Console :=
  console.times console.videoNumLines nr insertLine

/-- `csi_P` -/
def csiP (nr : Nat) (console : Console) : Console :=
  console.times console.videoNumColumns nr deleteChar

/-- `csi_M` -/
def csiM (nr : Nat) (console : Console) : Console :=
  console.times console.videoNumLines nr deleteLine

/-- `save_cur` -/
def saveCur (console : Console) : Console :=
  { console with savedX := console.x, savedY := console.y }

/-- `restore_cur` -/
def restoreCur (console : Console) : Console :=
  console.gotoxy console.savedX console.savedY

/-! ## The bytes of `con_write` -/

def setState (state : Nat) (console : Console) : Console :=
  { console with state := state }

def setPar (i value : Nat) (console : Console) : Console :=
  { console with par := Function.update console.par i value }

/-- `if (par[i]) par[i]--` -/
def lowerPar (i : Nat) (console : Console) : Console :=
  if console.par i ≠ 0 then console.setPar i (console.par i - 1) else console

/-- `if (!par[0]) par[0]++` -/
def raisePar (console : Console) : Console :=
  if console.par 0 = 0 then console.setPar 0 1 else console

/-- `if (!par[1]) par[1] = video_num_lines` -/
def completePar (console : Console) : Console :=
  if console.par 1 = 0 then
    console.setPar 1 console.videoNumLines
  else
    console

/-- A scroll region, if the parameters make one. -/
def setMargins (console : Console) : Console :=
  if console.par 0 < console.par 1 ∧
      console.par 1 ≤ console.videoNumLines then
    { console with top := console.par 0, bottom := console.par 1 }
  else
    console

/-- The next line, for a cursor behind the last column. -/
def foldLine (console : Console) : Console :=
  lf
    { console with
      x := console.x - console.videoNumColumns
      pos := console.pos - console.videoSizeRow }

/-- A character that can be printed. -/
def print (c : BitVec 8) (console : Console) : Console :=
  let console :=
    if console.x ≥ console.videoNumColumns then console.foldLine else console
  { console with
    video := console.video.store console.pos (console.attr ++ c)
    pos := console.pos + 2
    x := console.x + 1 }

/-- A backspace. -/
def back (console : Console) : Console :=
  if console.x ≠ 0 then
    { console with x := console.x - 1, pos := console.pos - 2 }
  else
    console

/-- A tabulator. -/
def tab (console : Console) : Console :=
  let c := 8 - console.x % 8
  let console :=
    { console with x := console.x + c, pos := console.pos + 2 * c }
  if console.x > console.videoNumColumns then console.foldLine else console

/-- `case 0`; a `char` has a sign, a character of `c_cc` has none. -/
def plain (erase c : BitVec 8) (console : Console) : Console :=
  if 31 < c.toInt ∧ c.toInt < 127 then
    console.print c
  else if c.toInt = 27 then
    console.setState 1
  else if c.toInt = 10 ∨ c.toInt = 11 ∨ c.toInt = 12 then
    console.lf
  else if c.toInt = 13 then
    console.cr
  else if c.toInt = erase.toNat then
    console.del
  else if c.toInt = 8 then
    console.back
  else if c.toInt = 9 then
    console.tab
  else
    console

/-- `case 1`, which looks at the column for a `7` or an `8`. -/
def escape (c : BitVec 8) (console : Console) : Console :=
  let console := console.setState 0
  match Char.ofNat c.toNat with
  | '[' => console.setState 2
  | 'E' => console.gotoxy 0 (console.y + 1)
  | 'M' => console.ri
  | 'D' => console.lf
  -- The answer of `respond` goes to the terminal; its echo is more bytes to write.
  | 'Z' => console
  | _ =>
    if console.x = '7'.toNat then
      console.saveCur
    else if console.x = '8'.toNat then
      console.restoreCur
    else
      console

/-- `case 4` -/
def final (c : BitVec 8) (console : Console) : Console :=
  let console := console.setState 0
  match Char.ofNat c.toNat with
  | 'G' | '\x60' =>
    let console := console.lowerPar 0
    console.gotoxy (console.par 0) console.y
  | 'A' =>
    let console := console.raisePar
    console.gotoxy console.x (wrapSub console.y (console.par 0))
  | 'B' | 'e' =>
    let console := console.raisePar
    console.gotoxy console.x (wrap (console.y + console.par 0))
  | 'C' | 'a' =>
    let console := console.raisePar
    console.gotoxy (wrap (console.x + console.par 0)) console.y
  | 'D' =>
    let console := console.raisePar
    console.gotoxy (wrapSub console.x (console.par 0)) console.y
  | 'E' =>
    let console := console.raisePar
    console.gotoxy 0 (wrap (console.y + console.par 0))
  | 'F' =>
    let console := console.raisePar
    console.gotoxy 0 (wrapSub console.y (console.par 0))
  | 'd' =>
    let console := console.lowerPar 0
    console.gotoxy console.x (console.par 0)
  | 'H' | 'f' =>
    let console := (console.lowerPar 0).lowerPar 1
    console.gotoxy (console.par 1) (console.par 0)
  | 'J' => console.csiJ (console.par 0)
  | 'K' => console.csiK (console.par 0)
  | 'L' => console.csiL (console.par 0)
  | 'M' => console.csiM (console.par 0)
  | 'P' => console.csiP (console.par 0)
  | '@' => console.csiAt (console.par 0)
  | 'm' => console.csim
  | 'r' => (console.lowerPar 0).completePar.setMargins
  | 's' => console.saveCur
  | 'u' => console.restoreCur
  | _ => console

/-- `case 3` -/
def parameter (c : BitVec 8) (console : Console) : Console :=
  if c.toInt = 59 ∧ console.npar < npar - 1 then
    { console with npar := console.npar + 1 }
  else if 48 ≤ c.toInt ∧ c.toInt ≤ 57 then
    console.setPar console.npar
      (wrap (10 * console.par console.npar + (c.toNat - 48)))
  else
    (console.setState 4).final c

/-- `case 2` -/
def introducer (c : BitVec 8) (console : Console) : Console :=
  let console :=
    { console with
      par := fun _ => 0
      npar := 0
      state := 3
      ques := c.toInt == 63 }
  if console.ques then console else console.parameter c

/-- What `con_write` does with one byte; `respond` leaves the console alone. -/
def writeByte (erase c : BitVec 8) (console : Console) : Console :=
  match console.state with
  | 0 => console.plain erase c
  | 1 => console.escape c
  | 2 => console.introducer c
  | 3 => console.parameter c
  | 4 => console.final c
  | _ => console

end Console

/-- The bytes of one call of `con_write`, and the erase character of the terminal then. -/
structure Chunk where
  erase : BitVec 8
  bytes : List (BitVec 8)

def conWrite (console : Console) (chunk : Chunk) : Console :=
  chunk.bytes.foldl (fun console c => console.writeByte chunk.erase c) console

/-! ## The start -/

/-- What the setup routine has found out from the BIOS. -/
structure Setup where
  origX : Nat
  origY : Nat
  origVideoMode : Nat
  origVideoCols : Nat
  origVideoEgaBx : Nat

namespace Setup

/-- The display that `con_init` makes out. -/
def display (setup : Setup) : Display :=
  let monochrome := setup.origVideoMode == 7
  let ega := setup.origVideoEgaBx % 256 ≠ 0x10
  { videoNumColumns := setup.origVideoCols
    videoSizeRow := setup.origVideoCols * 2
    videoNumLines := 25
    videoEraseChar := 0x0720
    videoMemStart := if monochrome then 0xb0000 else 0xb8000
    videoMemEnd :=
      if monochrome then
        if ega then 0xb8000 else 0xb2000
      else
        if ega then 0xbc000 else 0xba000
    videoType :=
      if monochrome then
        if ega then .egam else .mda
      else
        if ega then .egac else .cga }

/-- `display_desc` -/
def displayDesc (setup : Setup) : List (BitVec 8) :=
  match setup.display.videoType with
  | .egam => [0x45, 0x47, 0x41, 0x6d]
  | .mda => [0x2a, 0x4d, 0x44, 0x41]
  | .egac => [0x45, 0x47, 0x41, 0x63]
  | .cga => [0x2a, 0x43, 0x47, 0x41]

/-- Characters, which are the low bytes of successive words. -/
def describe (memory : Nat → BitVec 16) :
    Nat → List (BitVec 8) → Nat → BitVec 16
  | _, [] => memory
  | address, c :: rest =>
    describe
      (Function.update memory address
        ((memory address).extractLsb' 8 8 ++ c))
      (address + 2) rest

/-- `con_init`, on what it finds in the video memory. -/
def conInit (setup : Setup) (memory : Nat → BitVec 16) : Console :=
  let display := setup.display
  Console.gotoxy setup.origX setup.origY
    { toDisplay := display
      x := 0
      y := 0
      top := 0
      bottom := display.videoNumLines
      state := 0
      npar := 0
      par := fun _ => 0
      ques := false
      attr := 0x07
      savedX := 0
      savedY := 0
      origin := display.videoMemStart
      scrEnd :=
        display.videoMemStart + display.videoNumLines * display.videoSizeRow
      pos := 0
      video :=
        { word := describe memory
            (display.videoMemStart + display.videoSizeRow - 8)
            setup.displayDesc
          stores := [] } }

end Setup

end Consoles

end HitOs
