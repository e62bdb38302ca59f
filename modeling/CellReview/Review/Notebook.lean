import CellReview.Diff.Unified
import CellReview.Settings.Config

/-!
# Stripes beside the cells of a notebook

The changed lines of the previewed cell are striped; every other cell is clear.

* `Stripe`, `stripes` — a changed line, and those of a difference;
* `Registry` — the stripes of every tracked cell;
* `Notebook` — a registry that follows the active cell.
-/

namespace CellReview.Review

open Diff (Entry LineKind)

/-! ## Stripes -/

/-- A changed line.  Lines are counted from one among those that the cell shows; a deleted
line that it does not show is marked behind the line before it. -/
structure Stripe where
  line : Nat
  kind : LineKind
  deriving DecidableEq, Repr

/-- A stripe as JSON. -/
def Stripe.toJson (s : Stripe) : Json :=
  .object [("line", .ofNat s.line), ("kind", s.kind.toJson)]

/-- Whether a line of a difference is in the previewed cell. -/
def isShown (mode : PreviewMode) (e : Entry) : Bool :=
  mode == .unified || e.kind != .deleted

/-- The stripes of a difference after `count` lines of the cell. -/
def stripesFrom (mode : PreviewMode) (count : Nat) : List Entry → List Stripe
  | [] => []
  | e :: rest =>
    let count := if isShown mode e then count + 1 else count
    if e.kind = .unchanged then stripesFrom mode count rest
    else ⟨count, e.kind⟩ :: stripesFrom mode count rest

/-- The stripes of a difference. -/
def stripes (mode : PreviewMode) (lines : List Entry) : List Stripe :=
  stripesFrom mode 0 lines

/-! ## The registry -/

/-- The stripes of every tracked cell. -/
structure Registry where
  cells : List (String × List Stripe)
  preview : PreviewMode
  deriving DecidableEq, Repr

namespace Registry

/-- A registry that tracks no cell. -/
def empty : Registry := ⟨[], .proposed⟩

/-- Whether a cell is tracked. -/
def tracks (r : Registry) (cell : String) : Bool :=
  r.cells.any fun entry => entry.1 == cell

/-- The stripes of a cell; one that is not tracked has none. -/
def stripesOf (r : Registry) (cell : String) : List Stripe :=
  ((r.cells.find? fun entry => entry.1 == cell).map (·.2)).getD []

/-- Give a cell its stripes and track it. -/
def set (r : Registry) (cell : String) (stripes : List Stripe) : Registry :=
  if r.tracks cell then
    { r with cells := r.cells.map fun entry => if entry.1 == cell then (cell, stripes) else entry }
  else { r with cells := r.cells ++ [(cell, stripes)] }

/-- Stripe the active cell and clear the others. -/
def sync (r : Registry) (active : String) (cells : List String)
    (lines : Option (List Entry)) : Registry :=
  let cleared := cells.foldl (fun r cell => r.set cell []) r
  cleared.set active ((lines.map (stripes r.preview)).getD [])

/-- Forget a cell. -/
def dispose (r : Registry) (cell : String) : Registry :=
  { r with cells := r.cells.filter fun entry => entry.1 != cell }

/-- The number of tracked cells. -/
def trackedCount (r : Registry) : Nat :=
  r.cells.length

end Registry

/-! ## The notebook -/

/-- The cells of a notebook, one of them active, with their stripes. -/
structure Notebook where
  registry : Registry
  active : String
  cells : List String
  deriving DecidableEq, Repr

namespace Notebook

/-- A notebook without stripes. -/
def start (active : String) (cells : List String) : Notebook :=
  ⟨.empty, active, cells⟩

/-- Make a cell the active one; a new cell is added. -/
def setActive (n : Notebook) (cell : String) : Notebook :=
  { n with active := cell, cells := if n.cells.contains cell then n.cells else n.cells ++ [cell] }

/-- Forget a deleted cell. -/
def dispose (n : Notebook) (cell : String) : Notebook :=
  { n with cells := n.cells.filter (· != cell), registry := n.registry.dispose cell }

/-- Choose what previews show. -/
def setPreview (n : Notebook) (mode : PreviewMode) : Notebook :=
  { n with registry := { n.registry with preview := mode } }

/-- Show a difference in the active cell, or show none. -/
def render (n : Notebook) (lines : Option (List Entry)) : Notebook :=
  { n with registry := n.registry.sync n.active n.cells lines }

/-- The stripes of the active cell. -/
def activeStripes (n : Notebook) : List Stripe :=
  n.registry.stripesOf n.active

end Notebook

end CellReview.Review
