import CellReview.Toml.Word

/-!
# TOML values

A value becomes JSON as the library behind `CellReview.Toml.Document` makes it: moments are tables
with a mark, and a number that fits no format spoils the document.

* `Value` — a word, a string, an array, or a table with its keys in their order;
* `Value.toJson?` — the value as JSON, if its numbers fit their formats;
* `momentOf?` — the tables that stand for a moment.
-/

namespace CellReview.Toml

/-- A finished value. -/
inductive Value where
  | word (w : Word)
  | string (s : String)
  | array (items : List Value)
  | table (entries : List (String × Value))
  deriving Repr

/-- The value under the mark of a moment, if no key of the table comes before that mark. -/
def momentOf? (entries : List (String × Value)) : Option Value :=
  if entries.any fun entry => entry.1 < Word.momentKey then none
  else (entries.find? fun entry => entry.1 == Word.momentKey).map (·.2)

mutual

/-- A value as JSON.  A table whose first key marks a moment is that moment and nothing
else. -/
def Value.toJson? : Value → Option Json
  | .word w => w.toJson?
  | .string s => some (.string s)
  | .array items => (Value.itemsJson? items).map .array
  | .table entries =>
    match momentOf? entries with
    | some (.string s) => if isMoment s.toList then some (Word.ofMoment s) else none
    | some _ => none
    | none => (Value.membersJson? entries).map fun ms => .object (Json.ofMembers ms)

/-- The items of an array. -/
def Value.itemsJson? : List Value → Option (List Json)
  | [] => some []
  | v :: rest =>
    match v.toJson? with
    | some j => (Value.itemsJson? rest).map (j :: ·)
    | none => none

/-- The members of a table. -/
def Value.membersJson? : List (String × Value) → Option (List (String × Json))
  | [] => some []
  | (k, v) :: rest =>
    match v.toJson? with
    | some j => (Value.membersJson? rest).map ((k, j) :: ·)
    | none => none

end

end CellReview.Toml
