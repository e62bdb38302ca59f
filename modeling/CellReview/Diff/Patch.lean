import CellReview.Diff.Compact
import CellReview.Number.Digits
import CellReview.Text.Line

/-!
# Unified patches

A patch lists the changes between two texts in hunks with three lines of context.
Lines keep their endings; one without an ending is followed by a remark.  The layout is that of the
library behind `CellReview.Diff.Edit`.

* `hunks` — the runs of a script grouped with their context;
* `hunkHeader` — the line numbers of a hunk;
* `patch?` — the patch between two texts, if they differ.
-/

namespace CellReview.Diff

/-- The number of lines of context around a change. -/
def contextSize : Nat := 3

/-! ## Grouping -/

/-- The last `n` elements of an equal run. -/
def Edit.keepLast (e : Edit) (n : Nat) : Edit :=
  let drop := e.oldCount - n
  .equal (e.old + drop) (e.new + drop) (e.oldCount - drop)

/-- The first `n` elements of an equal run. -/
def Edit.keepFirst (e : Edit) (n : Nat) : Edit :=
  .equal e.old e.new (min e.oldCount n)

/-- Shorten the first run of a script to its last lines of context if it is an equal one. -/
def trimFirst : List Edit → List Edit
  | e :: rest => (if e.kind = .equal then e.keepLast contextSize else e) :: rest
  | [] => []

/-- Shorten the last run of a script to its first lines of context if it is an equal one. -/
def trimLast (edits : List Edit) : List Edit :=
  match edits.getLast? with
  | some e => if e.kind = .equal then edits.dropLast ++ [e.keepFirst contextSize] else edits
  | none => []

/-- Whether a group of runs, listed from its last on, shows no change. -/
def isIdle : List Edit → Bool
  | [] => true
  | [e] => e.kind == .equal
  | _ => false

/-- Cut a script wherever an equal run is longer than the context on both sides of it.
`group` holds the runs of the open group, the last one first. -/
def group (open' : List Edit) : List Edit → List (List Edit)
  | [] => if isIdle open' then [] else [open'.reverse]
  | e :: rest =>
    if e.kind = .equal ∧ e.oldCount > 2 * contextSize then
      (e.keepFirst contextSize :: open').reverse :: group [e.keepLast contextSize] rest
    else group (e :: open') rest

/-- The hunks of a script. -/
def hunks (edits : List Edit) : List (List Edit) :=
  group [] (trimLast (trimFirst edits))

/-! ## Text -/

/-- The span of lines from `first` up to, but not including, `past`. -/
def spanText (first past : Nat) : String :=
  let count := past - first
  if count = 1 then natText (first + 1)
  else if count = 0 then natText first ++ ",0"
  else natText (first + 1) ++ "," ++ natText count

/-- The line above a hunk. -/
def hunkHeader (runs : List Edit) : String :=
  match runs.head?, runs.getLast? with
  | some first, some last =>
    "@@ -" ++ spanText first.old (last.old + last.oldCount) ++ " +" ++
      spanText first.new (last.new + last.newCount) ++ " @@\n"
  | _, _ => ""

/-- A line behind its mark, with a remark if it has no ending. -/
def patchLine (mark line : String) : String :=
  let ended := line.toList.getLast? == some '\n' || line.toList.getLast? == some '\r'
  mark ++ line ++ (if ended then "" else "\n\\ No newline at end of file\n")

/-- The elements of an array from an index on. -/
def slice (a : Array String) (first count : Nat) : List String :=
  (a.extract first (first + count)).toList

/-- The lines of a run of a script. -/
def runLines (a b : Array String) (e : Edit) : List String :=
  match e.kind with
  | .equal => (slice a e.old e.oldCount).map (patchLine " ")
  | .delete => (slice a e.old e.oldCount).map (patchLine "-")
  | .insert => (slice b e.new e.newCount).map (patchLine "+")
  | .replace =>
    (slice a e.old e.oldCount).map (patchLine "-") ++
      (slice b e.new e.newCount).map (patchLine "+")

/-- The text of a hunk. -/
def hunkText (a b : Array String) (runs : List Edit) : String :=
  hunkHeader runs ++ String.join (runs.flatMap (runLines a b))

/-- The patch from one text to another under the given headers, if they differ. -/
def patch? (before after oldHeader newHeader : String) : Option String :=
  if before = after then none
  else
    let a := (Text.terminated before).toArray
    let b := (Text.terminated after).toArray
    let parts := hunks (script a b)
    let head := if parts.isEmpty then "" else "--- " ++ oldHeader ++ "\n+++ " ++ newHeader ++ "\n"
    let text := head ++ String.join (parts.map (hunkText a b))
    some (if text.toList.getLast? == some '\n' then text else text ++ "\n")

end CellReview.Diff
