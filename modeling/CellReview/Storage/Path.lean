import CellReview.Text.Blank

/-!
# Paths

A path is a text whose components are separated by slashes.

* `Path.join` — a path below another one;
* `Path.steps` — the components to walk through, `.` for an empty one;
* `Path.parents` — a path and the paths above it, the nearest first;
* `Path.longest`, `Path.longestName` — how long a path and its components may be.
-/

namespace CellReview.Path

/-- The bytes that a path may have. -/
def longest : Nat := 4095

/-- The bytes that a component of a path may have. -/
def longestName : Nat := 255

/-- A relative path below another path. -/
def join (base rest : String) : String :=
  if base.isEmpty ∨ base.toList.getLast? = some '/' then base ++ rest
  else base ++ "/" ++ rest

/-- Whether a path starts at the root. -/
def isAbsolute (path : String) : Bool :=
  path.toList.head? == some '/'

/-- The components of a path in order; an empty one stays in place, as `.` does. -/
def steps (path : String) : List String :=
  (Chars.splitWhere (· == '/') path.toList).map fun part =>
    if part.isEmpty then "." else String.ofList part

/-- Whether a component names something. -/
def isName (part : List Char) : Bool :=
  !part.isEmpty && part != ['.']

/-- The components of a path that name something. -/
def names (path : String) : List String :=
  ((Chars.splitWhere (· == '/') path.toList).filter isName).map String.ofList

/-- The path of a list of components from the root or from the current directory. -/
def ofNames (absolute : Bool) (names : List String) : String :=
  (if absolute then "/" else "") ++ "/".intercalate names

/-- The paths that end with a name, from the shortest on, in front of a list; `before` are the
components before those at hand, the nearest first. -/
def ends (before : List (List Char)) : List (List Char) → List String → List String
  | [], found => found
  | part :: rest, found =>
    let before := part :: before
    ends before rest
      (if isName part then String.ofList (['/'].intercalate before.reverse) :: found else found)

/-- A path and the paths above it, the nearest first, as far as they end with a name. -/
def parents (path : String) : List String :=
  ends [] (Chars.splitWhere (· == '/') path.toList) []

end CellReview.Path
