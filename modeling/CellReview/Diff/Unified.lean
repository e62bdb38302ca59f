import CellReview.Diff.Alignment
import CellReview.Diff.Compact
import CellReview.Json.Reader
import CellReview.Text.Line

/-!
# The line difference of two texts

The lines of two texts are aligned and listed in order: first the deleted, then the
inserted lines of a changed block, then the unchanged line that ends it.

* `LineKind`, `Entry`, `UnifiedDiff` — a listed line and the whole list;
* `lineMatches` — the alignment that is used, exact up to a size of table;
* `entries` — the list along an alignment;
* `UnifiedDiff.compute` — the difference of two texts;
* `UnifiedDiff.beforeText`, `UnifiedDiff.afterText` — the two sides again.
-/

namespace CellReview.Diff

/-! ## Listed lines -/

/-- What happened to a line. -/
inductive LineKind where
  | unchanged
  | inserted
  | deleted
  deriving DecidableEq, Repr, Inhabited

namespace LineKind

/-- The name of a kind. -/
def name : LineKind → String
  | unchanged => "unchanged"
  | inserted => "inserted"
  | deleted => "deleted"

/-- The kind of a name. -/
def ofName : String → Option LineKind
  | "unchanged" => some unchanged
  | "inserted" => some inserted
  | "deleted" => some deleted
  | _ => none

/-- The mark in front of a line of a kind. -/
def marker : LineKind → Char
  | unchanged => ' '
  | inserted => '+'
  | deleted => '-'

/-- A kind as JSON. -/
def toJson (k : LineKind) : Json := .string k.name

/-- Read a kind. -/
def read : Reader LineKind := Reader.enum ofName

end LineKind

/-- A listed line with its place, counted from one, on the sides that have it. -/
structure Entry where
  content : String
  kind : LineKind
  oldLine : Option Nat
  newLine : Option Nat
  deriving DecidableEq, Repr, Inhabited

/-- The bound of a 64-bit count. -/
def countLimit : Nat := Nat.pow 2 64

namespace Entry

/-- A line of both sides. -/
def unchanged (content : String) (i j : Nat) : Entry :=
  ⟨content, .unchanged, some (i + 1), some (j + 1)⟩

/-- A line of the old side only. -/
def deleted (content : String) (i : Nat) : Entry := ⟨content, .deleted, some (i + 1), none⟩

/-- A line of the new side only. -/
def inserted (content : String) (j : Nat) : Entry := ⟨content, .inserted, none, some (j + 1)⟩

/-- An optional count as a member that is left out in its absence. -/
def countMember (name : String) : Option Nat → List (String × Json)
  | none => []
  | some n => [(name, .ofNat n)]

/-- A listed line as JSON. -/
def toJson (e : Entry) : Json :=
  .object ([("line_content", .string e.content), ("kind", e.kind.toJson)] ++
    countMember "old_line" e.oldLine ++ countMember "new_line" e.newLine)

/-- Read a listed line. -/
def read : Reader Entry :=
  Reader.record
    [.of "line_content" .required Reader.string fun s e => { e with content := s },
     .of "kind" .required LineKind.read fun k e => { e with kind := k },
     .of "old_line" .defaulted (Reader.option (Reader.natBelow countLimit))
       fun n e => { e with oldLine := n },
     .of "new_line" .defaulted (Reader.option (Reader.natBelow countLimit))
       fun n e => { e with newLine := n }]
    default

/-- A listed line behind its mark. -/
def marked (e : Entry) : String :=
  String.ofList (e.kind.marker :: e.content.toList)

end Entry

/-! ## The difference -/

/-- A line difference: the listed lines and their contents as one text. -/
structure UnifiedDiff where
  text : String
  lines : List Entry
  deriving DecidableEq, Repr, Inhabited

namespace UnifiedDiff

/-- The number of listed lines of a kind. -/
def count (d : UnifiedDiff) (kind : LineKind) : Nat :=
  (d.lines.filter fun e => e.kind == kind).length

/-- The number of inserted lines. -/
def insertedCount (d : UnifiedDiff) : Nat := d.count .inserted

/-- The number of deleted lines. -/
def deletedCount (d : UnifiedDiff) : Nat := d.count .deleted

/-- Whether every listed line is unchanged. -/
def isUnchanged (d : UnifiedDiff) : Bool :=
  d.lines.all fun e => e.kind == .unchanged

/-- The text of the unchanged lines and those of one other kind. -/
def side (d : UnifiedDiff) (changed : LineKind) : String :=
  Text.joinLines ((d.lines.filter fun e => e.kind == .unchanged || e.kind == changed).map
    Entry.content)

/-- The old side. -/
def beforeText (d : UnifiedDiff) : String := d.side .deleted

/-- The new side. -/
def afterText (d : UnifiedDiff) : String := d.side .inserted

/-- A list of listed lines with their text. -/
def ofLines (lines : List Entry) : UnifiedDiff :=
  ⟨Text.joinLines (lines.map Entry.content), lines⟩

/-- A difference as JSON. -/
def toJson (d : UnifiedDiff) : Json :=
  .object [("unified_text", .string d.text), ("lines", .array (d.lines.map Entry.toJson))]

/-- Read a difference. -/
def read : Reader UnifiedDiff :=
  Reader.record
    [.of "unified_text" .required Reader.string fun s d => { d with text := s },
     .of "lines" .required (Reader.list Entry.read) fun es d => { d with lines := es }]
    default

end UnifiedDiff

/-! ## Computing it -/

/-- The greatest product of line counts for which the exact alignment is computed. -/
def tableLimit : Nat := Nat.pow 2 22

/-- The matches of what follows a common start. -/
def restMatches (a b : Array String) : List (Nat × Nat) :=
  if a.size = 0 ∨ b.size = 0 then []
  else if a.size * b.size > tableLimit then equalPairs (script a b)
  else tableMatches a b

/-- The matched lines of two texts: their common start, then the matches behind it. -/
def lineMatches (old new : List String) : List (Nat × Nat) :=
  let k := sharedCount old new
  diagonal k ++ shift k (restMatches (old.drop k).toArray (new.drop k).toArray)

/-- Deleted lines from the old index `i` on. -/
def deletions (i : Nat) (lines : List String) : List Entry :=
  lines.mapIdx fun k s => Entry.deleted s (i + k)

/-- Inserted lines from the new index `j` on. -/
def insertions (j : Nat) (lines : List String) : List Entry :=
  lines.mapIdx fun k s => Entry.inserted s (j + k)

/-- The lines from `i` and `j` on, listed along the matches that are left. -/
def entries (i j : Nat) (old new : List String) : List (Nat × Nat) → List Entry
  | [] => deletions i old ++ insertions j new
  | (p, q) :: rest =>
    deletions i (old.take (p - i)) ++ insertions j (new.take (q - j)) ++
      match old.drop (p - i), new.drop (q - j) with
      | x :: old, _ :: new => Entry.unchanged x p q :: entries (p + 1) (q + 1) old new rest
      | old, new => entries (max i p) (max j q) old new rest

/-- The line difference of two texts. -/
def UnifiedDiff.compute (before after : String) : UnifiedDiff :=
  let old := Text.lines before
  let new := Text.lines after
  .ofLines (entries 0 0 old new (lineMatches old new))

end CellReview.Diff
