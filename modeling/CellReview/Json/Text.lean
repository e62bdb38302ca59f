import CellReview.Json.Value

/-!
# Writing JSON

Values are written on one line, or indented by two spaces a level.  Members keep
the order they have in the value.

This stands for the writer of the JSON library.  What is followed is which characters it escapes
and how, its two layouts, and the shortest digits of a number with where it puts the point.

* `doubleStyle`, `singleStyle` — the layout of floating-point numbers of the two widths;
* `Json.quoted` — a string with its escapes;
* `Json.compact` — a value on one line;
* `Json.pretty` — a value indented.
-/

namespace CellReview

/-- Numbers of double width from `1e-5` up to, but not including, `1e16` are written with a
point only. -/
def doubleStyle : FloatStyle := ⟨-5, 15⟩

/-- Numbers of single width from `1e-6` up to, but not including, `1e13` are written with a
point only. -/
def singleStyle : FloatStyle := ⟨-6, 12⟩

namespace Json

/-- A hexadecimal escape of a character below `0x20`. -/
def hexEscape (c : Char) : List Char :=
  ['\\', 'u', '0', '0', Nat.digitChar (c.toNat / 16), Nat.digitChar (c.toNat % 16)]

/-- A character inside a quoted string: quotes, backslashes and controls are escaped. -/
def escape (c : Char) : List Char :=
  if c = '"' then ['\\', '"']
  else if c = '\\' then ['\\', '\\']
  else if c = '\n' then ['\\', 'n']
  else if c = '\r' then ['\\', 'r']
  else if c = '\t' then ['\\', 't']
  else if c.toNat = 8 then ['\\', 'b']
  else if c.toNat = 12 then ['\\', 'f']
  else if c.toNat < 32 then hexEscape c
  else [c]

/-- A string between quotes. -/
def quoted (s : String) : List Char :=
  '"' :: s.toList.flatMap escape ++ ['"']

/-- The text of a number; one that is not finite is written `null`. -/
def numberChars : Number → List Char
  | .int n => (intText n).toList
  | .double x => ((doubleStyle.render x).getD "null").toList
  | .single x => ((singleStyle.render x).getD "null").toList

mutual

/-- The characters of a value on one line. -/
def chars : Json → List Char
  | .null => ['n', 'u', 'l', 'l']
  | .bool true => ['t', 'r', 'u', 'e']
  | .bool false => ['f', 'a', 'l', 's', 'e']
  | .number n => numberChars n
  | .string s => quoted s
  | .array items => '[' :: itemChars items ++ [']']
  | .object members => '{' :: memberChars members ++ ['}']

/-- The characters of the items of an array, with commas between them. -/
def itemChars : List Json → List Char
  | [] => []
  | [v] => chars v
  | v :: w :: rest => chars v ++ ',' :: itemChars (w :: rest)

/-- The characters of the members of an object, with commas between them. -/
def memberChars : List (String × Json) → List Char
  | [] => []
  | [(k, v)] => quoted k ++ ':' :: chars v
  | (k, v) :: w :: rest => quoted k ++ ':' :: chars v ++ ',' :: memberChars (w :: rest)

end

/-- The text of a value on one line. -/
def compact (v : Json) : String :=
  String.ofList (chars v)

/-! ## Indented text -/

/-- A line break and the indentation of a level. -/
def newLine (level : Nat) : List Char :=
  '\n' :: List.replicate (2 * level) ' '

mutual

/-- The characters of a value whose first line stands at the given level. -/
def prettyChars (level : Nat) : Json → List Char
  | .array [] => ['[', ']']
  | .array items => '[' :: prettyItems (level + 1) items ++ newLine level ++ [']']
  | .object [] => ['{', '}']
  | .object members => '{' :: prettyMembers (level + 1) members ++ newLine level ++ ['}']
  | .null => chars .null
  | .bool b => chars (.bool b)
  | .number n => chars (.number n)
  | .string s => chars (.string s)

/-- The items of an array, each on lines of its own. -/
def prettyItems (level : Nat) : List Json → List Char
  | [] => []
  | [v] => newLine level ++ prettyChars level v
  | v :: w :: rest =>
    newLine level ++ prettyChars level v ++ ',' :: prettyItems level (w :: rest)

/-- The members of an object, each on lines of its own. -/
def prettyMembers (level : Nat) : List (String × Json) → List Char
  | [] => []
  | [(k, v)] => newLine level ++ quoted k ++ ':' :: ' ' :: prettyChars level v
  | (k, v) :: w :: rest =>
    newLine level ++ quoted k ++ ':' :: ' ' :: prettyChars level v ++
      ',' :: prettyMembers level (w :: rest)

end

/-- The indented text of a value. -/
def pretty (v : Json) : String :=
  String.ofList (prettyChars 0 v)

end Json

end CellReview
