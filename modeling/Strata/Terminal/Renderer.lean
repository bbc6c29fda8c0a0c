import Mathlib.Tactic
import Mathlib.Data.List.Sort
import Strata.Lib.Utf8
import Strata.Lib.RustVec
import Strata.Terminal.Palette

/-! The terminal rasteriser (`terminal/mod.rs`): a terminal emulator's grid, its damage, and
the rectangles of cells that are painted on the client. -/

namespace Strata.Terminal

open Utf8 (Bytes)

/-! ### The emulator -/

structure Point where
  line : Int
  column : Nat
  deriving DecidableEq, Repr

inductive Side where
  | left
  | right
  deriving DecidableEq, Repr

inductive SelectionType where
  | simple
  | block
  | semantic
  | lines
  deriving DecidableEq, Repr

structure SelectionRange where
  first : Point
  last : Point
  isBlock : Bool
  deriving DecidableEq, Repr

/-- The cell attributes that drawing reads, and the others. -/
structure Flags where
  inverse : Bool
  dim : Bool
  hidden : Bool
  others : UInt16
  deriving DecidableEq, Repr

structure Cell where
  c : Char
  fg : Color
  bg : Color
  flags : Flags
  deriving DecidableEq, Repr

/-- `RenderableContent`: the cells in view, at lines that run negative into the history. -/
structure Content where
  displayIter : List (Point × Cell)
  selection : Option SelectionRange
  cursorHidden : Bool
  cursorPoint : Point
  displayOffset : Nat

structure LineDamageBounds where
  line : Nat
  left : Nat
  right : Nat
  deriving DecidableEq, Repr

inductive TermDamage where
  | full
  | lines (bounds : List LineDamageBounds)
  deriving DecidableEq, Repr

/-- The terminal emulator with its parser, over its states `τ` and selections `ς`. -/
structure Emulator (τ ς : Type) where
  newTerm : (columns screenLines : Nat) → τ
  advance : τ → Bytes → τ
  scrollDelta : τ → Int → τ
  scrollBottom : τ → τ
  resize : τ → (columns screenLines : Nat) → τ
  columns : τ → Nat
  damage : τ → TermDamage
  resetDamage : τ → τ
  content : τ → Content
  selection : τ → Option ς
  setSelection : τ → Option ς → τ
  newSelection : SelectionType → Point → Side → ς
  updateSelection : ς → Point → Side → ς
  toRange : ς → τ → Option SelectionRange
  contains : SelectionRange → Point → Bool

/-! ### The renderer -/

structure CellSnapshot where
  ch : Char
  fg : Pixel
  bg : Pixel
  flags : Flags
  deriving DecidableEq, Repr

def CellSnapshot.swapped (cell : CellSnapshot) : CellSnapshot :=
  { cell with fg := cell.bg, bg := cell.fg }

structure Rect where
  col : Nat
  row : Nat
  cols : Nat
  rows : Nat
  deriving DecidableEq, Repr

structure CellMetrics where
  width : Nat
  height : Nat
  deriving DecidableEq, Repr

/-- An image of a rectangle of cells, row by row. The client gets it as a PNG at the pixel
position of the rectangle. -/
structure ImageUpdate where
  rect : Rect
  cells : List CellSnapshot
  deriving DecidableEq, Repr

structure Renderer (τ : Type) where
  term : τ
  palette : Palette
  cell : CellMetrics
  cols : Nat
  rows : Nat
  cols_pos : 0 < cols
  rows_pos : 0 < rows
  lastCursor : Option (Nat × Nat)
  lastSnapshot : List CellSnapshot
  forceFull : Bool
  selectionRows : Option (Nat × Nat)
  selectionDamage : List Nat

namespace Renderer

variable {τ ς : Type} (em : Emulator τ ς)

def new (palette : Palette) (cell : CellMetrics) (cols rows : Nat) : Renderer τ where
  term := em.newTerm (max cols 1) (max rows 1)
  palette := palette
  cell := cell
  cols := max cols 1
  rows := max rows 1
  cols_pos := by omega
  rows_pos := by omega
  lastCursor := none
  lastSnapshot := []
  forceFull := true
  selectionRows := none
  selectionDamage := []

def resize (renderer : Renderer τ) (cols rows : Nat) : Renderer τ :=
  if (max cols 1, max rows 1) = (renderer.cols, renderer.rows) then renderer
  else
    { renderer with
      cols := max cols 1
      rows := max rows 1
      cols_pos := by omega
      rows_pos := by omega
      term := em.resize renderer.term (max cols 1) (max rows 1)
      forceFull := true }

def displayOffset (renderer : Renderer τ) : Nat := (em.content renderer.term).displayOffset

def highlight (renderer : Renderer τ) : Option SelectionRange :=
  (em.selection renderer.term).bind fun selection => em.toRange selection renderer.term

def clampRow (renderer : Renderer τ) (line : Int) : Nat :=
  (max 0 (min (line + renderer.displayOffset em) (renderer.rows - 1))).toNat

def rowsBetween (span : Nat × Nat) : List Nat := List.range' span.1 (span.2 + 1 - span.1)

def selectionChanged (renderer : Renderer τ) : Renderer τ :=
  let rows := (renderer.highlight em).map fun range =>
    (renderer.clampRow em range.first.line, renderer.clampRow em range.last.line)
  { renderer with
    selectionDamage := renderer.selectionDamage ++
      ([renderer.selectionRows, rows].filterMap id).flatMap rowsBetween
    selectionRows := rows }

def scroll (renderer : Renderer τ) (lines : Int) : Renderer τ :=
  selectionChanged em { renderer with term := em.scrollDelta renderer.term lines }

/-- Return to the live screen; the flag says that the view was scrolled back. -/
def scrollToBottom (renderer : Renderer τ) : Renderer τ × Bool :=
  if renderer.displayOffset em = 0 then (renderer, false)
  else (selectionChanged em { renderer with term := em.scrollBottom renderer.term }, true)

def cellAt (renderer : Renderer τ) (x y : Int) : Point × Side :=
  let width := max renderer.cell.width 1
  let height := max renderer.cell.height 1
  let col := min (x.toNat / width) (renderer.cols - 1)
  let row := min (y.toNat / height) (renderer.rows - 1)
  (⟨row - renderer.displayOffset em, col⟩,
    if x.toNat % width < width / 2 then .left else .right)

def select (renderer : Renderer τ) (selection : Option ς) : Renderer τ :=
  selectionChanged em { renderer with term := em.setSelection renderer.term selection }

def startSelection (renderer : Renderer τ) (ty : SelectionType) (x y : Int) : Renderer τ :=
  let (point, side) := renderer.cellAt em x y
  renderer.select em (some (em.newSelection ty point side))

def extendSelection (renderer : Renderer τ) (x y : Int) : Renderer τ :=
  let (point, side) := renderer.cellAt em x y
  match em.selection renderer.term with
  | some selection => renderer.select em (some (em.updateSelection selection point side))
  | none => renderer

def clearSelection (renderer : Renderer τ) : Renderer τ :=
  match em.selection renderer.term with
  | some _ => renderer.select em none
  | none => renderer

/-! ### Damage -/

def viewport (renderer : Renderer τ) (content : Content) (point : Point) : Option (Nat × Nat) :=
  let line := point.line + content.displayOffset
  if line < 0 ∨ renderer.rows ≤ line.toNat ∨ renderer.cols ≤ point.column then none
  else some (point.column, line.toNat)

def cursorPosition (renderer : Renderer τ) : Option (Nat × Nat) :=
  let content := em.content renderer.term
  if content.cursorHidden then none else renderer.viewport content content.cursorPoint

def LineLE (one other : Nat × Nat × Nat) : Prop :=
  one.1 < other.1 ∨ (one.1 = other.1 ∧
    (one.2.1 < other.2.1 ∨ (one.2.1 = other.2.1 ∧ one.2.2 ≤ other.2.2)))

instance : DecidableRel LineLE := fun _ _ => instDecidableOr

/-- One line joins the run before it when it touches it. The runs are newest first. -/
def addLine (cols : Nat) (rects : List Rect) (line : Nat × Nat × Nat) : List Rect :=
  let (line, left, right) := line
  let right := min right (cols - 1)
  let single : Rect := ⟨left, line, right + 1 - min left right, 1⟩
  match rects with
  | last :: done =>
      if line ≤ last.row + last.rows then
        let newCol := min last.col left
        let newEnd := max (last.col + last.cols) (right + 1)
        ⟨newCol, last.row, newEnd - newCol, line + 1 - last.row⟩ :: done
      else
        single :: last :: done
  | [] => [single]

def mergeLines (cols : Nat) (lines : List (Nat × Nat × Nat)) : List Rect :=
  ((lines.insertionSort LineLE).foldl (addLine cols) []).reverse

def full (renderer : Renderer τ) : Rect := ⟨0, 0, renderer.cols, renderer.rows⟩

def damagedLines (renderer : Renderer τ) (bounds : List LineDamageBounds) :
    List (Nat × Nat × Nat) :=
  let cursor := renderer.cursorPosition em
  (bounds.filter fun bound => bound.line < renderer.rows).map
      (fun bound => (bound.line, bound.left, bound.right)) ++
    (if cursor = renderer.lastCursor then []
    else ([cursor, renderer.lastCursor].filterMap id).map fun pos => (pos.2, pos.1, pos.1)) ++
    (renderer.selectionDamage.filter fun row => row < renderer.rows).map
      fun row => (row, 0, renderer.cols - 1)

/-- Collect the damaged regions, merging contiguous runs of lines. -/
def takeDamage (renderer : Renderer τ) : Renderer τ × List Rect :=
  let taken : Renderer τ :=
    { renderer with
      term := em.resetDamage renderer.term
      lastCursor := renderer.cursorPosition em
      selectionDamage := []
      forceFull := false }
  if renderer.forceFull then (taken, [renderer.full])
  else
    match em.damage renderer.term with
    | .full => (taken, [renderer.full])
    | .lines bounds => (taken, mergeLines renderer.cols (renderer.damagedLines em bounds))

/-! ### Snapshots -/

def blank (renderer : Renderer τ) : CellSnapshot :=
  ⟨' ', renderer.palette.foreground, renderer.palette.background, ⟨false, false, false, 0⟩⟩

def selected (content : Content) (point : Point) : Bool :=
  content.selection.any fun range => em.contains range point

def resolveCell (renderer : Renderer τ) (cell : Cell) (selected : Bool) : CellSnapshot :=
  let fg := renderer.palette.resolve cell.fg
  let bg := renderer.palette.resolve cell.bg
  let fg := if cell.flags.dim then fg.dim else fg
  let drawn : CellSnapshot :=
    ⟨if cell.flags.hidden then ' ' else cell.c, fg, bg, cell.flags⟩
  let drawn := if cell.flags.inverse then drawn.swapped else drawn
  if selected then drawn.swapped else drawn

def placeCell (renderer : Renderer τ) (content : Content) (cells : List CellSnapshot)
    (indexed : Point × Cell) : List CellSnapshot :=
  match renderer.viewport content indexed.1 with
  | some (col, row) =>
      cells.set (row * renderer.cols + col)
        (renderer.resolveCell indexed.2 (selected em content indexed.1))
  | none => cells

def gridCells (renderer : Renderer τ) : List CellSnapshot :=
  let content := em.content renderer.term
  content.displayIter.foldl (renderer.placeCell em content)
    (List.replicate (renderer.cols * renderer.rows) renderer.blank)

def snapshot (renderer : Renderer τ) : List CellSnapshot :=
  match renderer.cursorPosition em with
  | some (col, row) =>
      (renderer.gridCells em).modify (row * renderer.cols + col) CellSnapshot.swapped
  | none => renderer.gridCells em

/-! ### Painting -/

def rowSlice (renderer : Renderer τ) (cells : List CellSnapshot) (rect : Rect) (row : Nat) :
    Option (List CellSnapshot) :=
  RustVec.slice cells (row * renderer.cols + rect.col) rect.cols

def rectUnchanged (renderer : Renderer τ) (cells : List CellSnapshot) (rect : Rect) :
    Option Bool :=
  if renderer.lastSnapshot.length ≠ cells.length then some false
  else
    (List.range' rect.row rect.rows).allM fun row =>
      (renderer.rowSlice cells rect row).bind fun now =>
        (renderer.rowSlice renderer.lastSnapshot rect row).map fun before => now == before

def render (renderer : Renderer τ) (cells : List CellSnapshot) (rect : Rect) :
    Option ImageUpdate :=
  ((List.range' rect.row rect.rows).mapM fun row => renderer.rowSlice cells rect row).map
    fun rows => ⟨rect, rows.flatten⟩

def repaint (renderer : Renderer τ) (cells : List CellSnapshot) (rect : Rect) :
    Option (Option ImageUpdate) :=
  (renderer.rectUnchanged cells rect).bind fun unchanged =>
    if unchanged then some none else (renderer.render cells rect).map some

/-- Render whatever is damaged; no result where an index is out of range and panics. -/
def flush (renderer : Renderer τ) : Option (Renderer τ × List ImageUpdate) :=
  let (renderer, rects) := renderer.takeDamage em
  if rects = [] then some (renderer, [])
  else
    let cells := renderer.snapshot em
    (rects.mapM fun rect => renderer.repaint cells rect).map fun updates =>
      ({ renderer with lastSnapshot := cells }, updates.filterMap id)

def advance (renderer : Renderer τ) (bytes : Bytes) : Option (Renderer τ × List ImageUpdate) :=
  flush em { renderer with term := em.advance renderer.term bytes }

end Renderer

end Strata.Terminal
