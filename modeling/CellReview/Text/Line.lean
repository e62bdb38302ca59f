import CellReview.Text.Blank

/-!
# Lines of a text

Three ways to cut a text into lines, and the way back:

* `Chars.pieces` cuts after every line feed and keeps it;
* `Chars.lines` drops the ending of every piece, `\n` or `\r\n`;
* `Chars.terminated` cuts after every `\r\n`, `\r` or `\n` and keeps the ending;
* `Text.joinLines` puts lines together with a line feed between neighbours.

A text that ends in a line feed has no empty last line.
-/

namespace CellReview

namespace Chars

/-- Cut a text after every line feed; each piece but the last ends in one. -/
def pieces (s : List Char) : List (List Char) :=
  s.foldr (fun c parts => if c = '\n' then ['\n'] :: parts else consFirst c parts) []

/-- The text without one final `\r`. -/
def dropReturn (s : List Char) : List Char :=
  if s.getLast? = some '\r' then s.dropLast else s

/-- The text without its final line ending, `\n` or `\r\n`. -/
def chomp (s : List Char) : List Char :=
  if s.getLast? = some '\n' then dropReturn s.dropLast else s

/-- The lines of a text without their endings. -/
def lines (s : List Char) : List (List Char) :=
  (pieces s).map chomp

/-- Cut a text after every `\r\n`, `\r` or `\n`, keeping the endings. -/
def terminated (s : List Char) : List (List Char) :=
  s.foldr
    (fun c parts =>
      if c = '\n' then ['\n'] :: parts
      else if c = '\r' then
        match parts with
        | ['\n'] :: rest => ['\r', '\n'] :: rest
        | _ => ['\r'] :: parts
      else consFirst c parts)
    []

end Chars

namespace Text

/-- The lines of a text without their endings. -/
def lines (s : String) : List String :=
  (Chars.lines s.toList).map String.ofList

/-- The pieces of a text between two line feeds, empty ones included. -/
def pieces (s : String) : List String :=
  (Chars.pieces s.toList).map String.ofList

/-- The lines of a text with their endings, whichever of `\r\n`, `\r` and `\n` they are. -/
def terminated (s : String) : List String :=
  (Chars.terminated s.toList).map String.ofList

/-- Lines with a line feed between neighbours. -/
def joinLines (lines : List String) : String :=
  "\n".intercalate lines

end Text

end CellReview
