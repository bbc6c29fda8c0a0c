import Mathlib.Tactic
import Strata.Terminal.Renderer

/-! A small terminal: printing, carriage return, line feed and a selection that moves with the
text. -/

namespace Strata.Terminal

open Utf8 (Bytes)

structure Drag where
  anchor : Point × Side
  head : Point × Side
  deriving DecidableEq, Repr

def Drag.up (drag : Drag) : Drag :=
  let up (spot : Point × Side) : Point × Side := (⟨spot.1.line - 1, spot.1.column⟩, spot.2)
  ⟨up drag.anchor, up drag.head⟩

structure Screen where
  cols : Nat
  rows : Nat
  cells : Nat → Nat → Char
  cursorRow : Nat
  cursorCol : Nat
  selection : Option Drag
  full : Bool
  lines : List LineDamageBounds

namespace Screen

/-- On the last line the screen scrolls, and the selection with it. -/
def lineFeed (screen : Screen) : Screen :=
  if screen.cursorRow + 1 < screen.rows then { screen with cursorRow := screen.cursorRow + 1 }
  else
    { screen with
      cells := fun row col => if row + 1 < screen.rows then screen.cells (row + 1) col else ' '
      selection := screen.selection.map Drag.up
      full := true }

def print (screen : Screen) (c : Char) : Screen :=
  { screen with
    cells := fun row col =>
      if row = screen.cursorRow ∧ col = screen.cursorCol then c else screen.cells row col
    cursorCol :=
      if screen.cursorCol + 1 < screen.cols then screen.cursorCol + 1 else screen.cursorCol
    lines := screen.lines ++ [⟨screen.cursorRow, screen.cursorCol, screen.cursorCol⟩] }

def input (screen : Screen) (byte : UInt8) : Screen :=
  if byte = 10 then screen.lineFeed
  else if byte = 13 then { screen with cursorCol := 0 }
  else screen.print (Char.ofNat byte.toNat)

def cell (c : Char) : Cell :=
  ⟨c, .named .foreground, .named .background, ⟨false, false, false, 0⟩⟩

def range (drag : Drag) : Option SelectionRange :=
  let (one, other) := (drag.anchor.1, drag.head.1)
  if drag.anchor = drag.head then none
  else if one.line < other.line ∨ (one.line = other.line ∧ one.column ≤ other.column) then
    some ⟨one, other, false⟩
  else some ⟨other, one, false⟩

def contains (range : SelectionRange) (point : Point) : Bool :=
  range.first.line ≤ point.line && point.line ≤ range.last.line &&
    (range.first.column ≤ point.column || (range.first.line != point.line && !range.isBlock)) &&
    (point.column ≤ range.last.column || (range.last.line != point.line && !range.isBlock))

def content (screen : Screen) : Content where
  displayIter := (List.range screen.rows).flatMap fun (row : Nat) =>
    (List.range screen.cols).map fun col => (⟨row, col⟩, cell (screen.cells row col))
  selection := screen.selection.bind range
  cursorHidden := false
  cursorPoint := ⟨screen.cursorRow, screen.cursorCol⟩
  displayOffset := 0

def damage (screen : Screen) : TermDamage :=
  if screen.full then .full
  else
    .lines (screen.lines.filter fun bound =>
      bound.left ≤ bound.right ∧ bound.right < screen.cols)

def emulator : Emulator Screen Drag where
  newTerm cols rows := ⟨cols, rows, fun _ _ => ' ', 0, 0, none, true, []⟩
  advance screen bytes := bytes.foldl input screen
  scrollDelta screen _ := screen
  scrollBottom screen := screen
  resize screen cols rows :=
    { screen with
      cols := cols
      rows := rows
      cursorRow := min screen.cursorRow (rows - 1)
      cursorCol := min screen.cursorCol (cols - 1)
      full := true }
  columns screen := screen.cols
  damage := damage
  resetDamage screen := { screen with full := false, lines := [] }
  content := content
  selection screen := screen.selection
  setSelection screen selection := { screen with selection := selection }
  newSelection _ point side := ⟨(point, side), (point, side)⟩
  updateSelection drag point side := ⟨drag.anchor, (point, side)⟩
  toRange drag _ := range drag
  contains := contains

end Screen

end Strata.Terminal
