import CellReview.Text.Line

/-!
# Fenced code blocks

A fence line is a line whose first characters, blanks aside, are three backticks.
The first fence line of a reply opens its code block and the next one closes it; a
reply that was cut short closes it with its end.

* `isFence` — the test for a fence line, its line feed included;
* `codeBlockChars`, `codeBlock` — the first block of a text, without the ending of its
  last line;
* `fencedReply` — a reply around a code block.
-/

namespace CellReview.Chat

/-- The mark of a fence line. -/
def fence : List Char := List.replicate 3 '\x60'

/-- Whether a line opens or closes a code block. -/
def isFence (line : List Char) : Bool :=
  fence.isPrefixOf (Chars.trimStart line)

/-- The lines between the first fence line and the next one. -/
def blockLines (lines : List (List Char)) : Option (List (List Char)) :=
  match lines.dropWhile fun line => !isFence line with
  | [] => none
  | _ :: rest => some (rest.takeWhile fun line => !isFence line)

/-- The first code block of a text. -/
def codeBlockChars (s : List Char) : Option (List Char) :=
  (blockLines (Chars.pieces s)).map fun lines => Chars.chomp lines.flatten

/-- The first code block of a text. -/
def codeBlock (text : String) : Option String :=
  (codeBlockChars text.toList).map String.ofList

/-- A reply that offers a code. -/
def fencedReply (code : String) : String :=
  "Here is the updated cell:\n\n```python\n" ++ code ++ "\n```\n\nThe change is shown above."

end CellReview.Chat
