/-!
# Blank characters and trimming

A character is blank when it has the Unicode property `White_Space`.  Trimming,
splitting into words and recognising a fence line all rest on this one table.

* `isBlank` — the table;
* `Chars.trim`, `Chars.trimStart`, `Chars.trimEnd` — a text without its outer blanks;
* `Chars.splitWhere` — a text cut at every character of a class;
* `Chars.words` — the parts between blanks;
* `Chars.cutAtBlank` — a text cut at its first blank.
-/

namespace CellReview

/-- The characters with the property `White_Space`. -/
def isBlank (c : Char) : Bool :=
  let n := c.toNat
  (9 ≤ n && n ≤ 13) || n == 0x20 || n == 0x85 || n == 0xA0 || n == 0x1680 ||
    (0x2000 ≤ n && n ≤ 0x200A) || n == 0x2028 || n == 0x2029 || n == 0x202F ||
    n == 0x205F || n == 0x3000

namespace Chars

/-- A text without its leading blanks. -/
def trimStart (s : List Char) : List Char :=
  s.dropWhile isBlank

/-- A text without its trailing blanks. -/
def trimEnd (s : List Char) : List Char :=
  (s.reverse.dropWhile isBlank).reverse

/-- A text without its outer blanks. -/
def trim (s : List Char) : List Char :=
  trimEnd (trimStart s)

/-- Put a character in front of the first part, opening one if there is none. -/
def consFirst (c : Char) : List (List Char) → List (List Char)
  | [] => [[c]]
  | part :: rest => (c :: part) :: rest

/-- Cut a text at every character that satisfies `p`, dropping those characters. -/
def splitWhere (p : Char → Bool) (s : List Char) : List (List Char) :=
  s.foldr (fun c parts => if p c then [] :: parts else consFirst c parts) [[]]

/-- The non-empty parts of a text between its blanks. -/
def words (s : List Char) : List (List Char) :=
  (splitWhere isBlank s).filter fun part => !part.isEmpty

/-- Cut a text at its first blank, if it has one. -/
def cutAtBlank : List Char → Option (List Char × List Char)
  | [] => none
  | c :: rest =>
    if isBlank c then some ([], rest)
    else (cutAtBlank rest).map fun (head, tail) => (c :: head, tail)

/-- A text with the letters `A` to `Z` in lower case and all else unchanged. -/
def lower (s : List Char) : List Char :=
  s.map Char.toLower

/-- Whether `needle` stands somewhere inside the text. -/
def occursIn (needle : List Char) : List Char → Bool
  | [] => needle.isEmpty
  | c :: rest => needle.isPrefixOf (c :: rest) || occursIn needle rest

end Chars

namespace Text

/-- A text without its outer blanks. -/
def trim (s : String) : String :=
  String.ofList (Chars.trim s.toList)

/-- Whether a text consists of blanks only. -/
def isBlankText (s : String) : Bool :=
  s.toList.all isBlank

/-- A text with the letters `A` to `Z` in lower case and all else unchanged. -/
def lower (s : String) : String :=
  String.ofList (Chars.lower s.toList)

/-- Whether `needle` stands somewhere inside `s`. -/
def contains (s needle : String) : Bool :=
  Chars.occursIn needle.toList s.toList

end Text

end CellReview
