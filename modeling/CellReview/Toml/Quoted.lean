import CellReview.Toml.Word

/-!
# TOML strings and keys

A string stands between quotes or apostrophes, on one line, or between three of them on
several.  Only strings between quotes have escapes.  Which of them there are, and which characters
may stand unescaped, is as in TOML 1.1.

* `skipBlanks`, `skipLines` — what may stand between values;
* `escape?` — the escapes;
* `basic`, `literal`, `multiline` — the texts of strings;
* `string?` — a string of any kind;
* `key?` — a dotted key.
-/

namespace CellReview.Toml

/-! ## Blanks and comments -/

/-- Drop spaces and tabs. -/
def skipBlanks (cs : List Char) : List Char :=
  cs.dropWhile fun c => c == ' ' || c == '\t'

/-- Whether a character may stand in a comment or a literal string. -/
def isPlain (c : Char) : Bool :=
  c == '\t' || (c.toNat ≥ 32 && c.toNat != 127)

/-- Drop a comment, if one is there. -/
def skipComment : List Char → List Char
  | '#' :: rest => rest.dropWhile isPlain
  | cs => cs

/-- Drop a line ending. -/
def newline? : List Char → Option (List Char)
  | '\n' :: rest => some rest
  | '\r' :: '\n' :: rest => some rest
  | _ => none

/-- Drop blanks, comments and line endings; `comment` tells whether a comment is open. -/
def skipGap (comment : Bool) : List Char → List Char
  | [] => []
  | '\n' :: rest => skipGap false rest
  | '\r' :: '\n' :: rest => skipGap false rest
  | c :: rest =>
    if comment then if isPlain c then skipGap true rest else c :: rest
    else if c = ' ' ∨ c = '\t' then skipGap false rest
    else if c = '#' then skipGap true rest
    else c :: rest

/-- Drop blanks, comments and line endings. -/
def skipLines (cs : List Char) : List Char :=
  skipGap false cs

/-! ## Escapes -/

/-- The character of a code point, if it is one. -/
def codePoint? (n : Nat) : Option Char :=
  if n < 0xD800 ∨ (0xDFFF < n ∧ n < 0x110000) then some (Char.ofNat n) else none

/-- The character of `n` hexadecimal digits. -/
def hexCode? (n : Nat) (cs : List Char) : Option Char :=
  let ds := cs.take n
  if ds.length = n then (ds.mapM hexValue?).bind fun ds => codePoint? (ofDigitsIn 16 ds)
  else none

/-- The character of an escape of one letter. -/
def escapeOf? : Char → Option Char
  | 'b' => some '\x08'
  | 't' => some '\t'
  | 'n' => some '\n'
  | 'f' => some '\x0c'
  | 'r' => some '\r'
  | 'e' => some '\x1b'
  | '"' => some '"'
  | '\\' => some '\\'
  | _ => none

/-- The escape after a backslash: its character and its length. -/
def escape? : List Char → Option (Char × Nat)
  | 'x' :: rest => (hexCode? 2 rest).map (·, 3)
  | 'u' :: rest => (hexCode? 4 rest).map (·, 5)
  | 'U' :: rest => (hexCode? 8 rest).map (·, 9)
  | c :: _ => (escapeOf? c).map (·, 1)
  | [] => none

/-! ## Strings -/

/-- The text of a string up to its quote; `skip` characters were read already. -/
def basic (skip : Nat) (acc : List Char) : List Char → Option (String × List Char)
  | [] => none
  | c :: rest =>
    if skip > 0 then basic (skip - 1) acc rest
    else if c = '"' then some (String.ofList acc.reverse, rest)
    else if c = '\\' then
      match escape? rest with
      | some (e, n) => basic n (e :: acc) rest
      | none => none
    else if isPlain c then basic 0 (c :: acc) rest
    else none

/-- The text of a literal string up to its apostrophe. -/
def literal (cs : List Char) : Option (String × List Char) :=
  match cs.dropWhile fun c => isPlain c && c != '\'' with
  | '\'' :: rest => some (String.ofList (cs.takeWhile fun c => isPlain c && c != '\''), rest)
  | _ => none

/-- The number of blanks and line endings at the start of a text. -/
def gapCount : List Char → Nat
  | '\r' :: '\n' :: rest => gapCount rest + 2
  | c :: rest => if c = ' ' ∨ c = '\t' ∨ c = '\n' then gapCount rest + 1 else 0
  | [] => 0

/-- The number of blanks and line endings after a backslash that ends a line. -/
def foldedCount (cs : List Char) : Option Nat :=
  (newline? (skipBlanks cs)).map fun _ => gapCount cs

/-- The number of quotes at the start of a text. -/
def quoteCount (q : Char) (cs : List Char) : Nat :=
  (cs.takeWhile (· == q)).length

/-- The text of a string of several lines up to its three quotes; one or two quotes in front
of these belong to the text.  Literal strings have no escapes. -/
def multiline (q : Char) (escapes : Bool) (skip : Nat) (acc : List Char) :
    List Char → Option (String × List Char)
  | [] => none
  | c :: rest =>
    if skip > 0 then multiline q escapes (skip - 1) acc rest
    else if c = q ∧ quoteCount q (rest.take 4) ≥ 2 then
      let extra := quoteCount q (rest.take 4) - 2
      some (String.ofList (List.replicate extra q ++ acc).reverse, rest.drop (extra + 2))
    else if escapes ∧ c = '\\' then
      match foldedCount rest with
      | some n => multiline q escapes n acc rest
      | none =>
        match escape? rest with
        | some (e, n) => multiline q escapes n (e :: acc) rest
        | none => none
    else if c = '\r' then
      if rest.head? = some '\n' then multiline q escapes 0 (c :: acc) rest else none
    else if c = '\n' ∨ isPlain c then multiline q escapes 0 (c :: acc) rest
    else none

/-- A text without a line ending at its start. -/
def skipNewline (cs : List Char) : List Char :=
  (newline? cs).getD cs

/-- A string of either kind on one or several lines. -/
def string? : List Char → Option (String × List Char)
  | '"' :: '"' :: '"' :: rest => multiline '"' true 0 [] (skipNewline rest)
  | '\'' :: '\'' :: '\'' :: rest => multiline '\'' false 0 [] (skipNewline rest)
  | '"' :: rest => basic 0 [] rest
  | '\'' :: rest => literal rest
  | _ => none

/-! ## Keys -/

/-- A dotted key: the parts before the last one, and that. -/
abbrev Key := List String × String

/-- The parts that a key may have. -/
def keyRoom : Nat := 80

/-- Whether a character may stand in a key without quotes. -/
def isBare (c : Char) : Bool :=
  isDigit c || ('a' ≤ c && c ≤ 'z') || ('A' ≤ c && c ≤ 'Z') || c == '_' || c == '-'

/-- One part of a key. -/
def keyPart? (cs : List Char) : Option (String × List Char) :=
  match cs with
  | '"' :: rest => basic 0 [] rest
  | '\'' :: rest => literal rest
  | cs =>
    match cs.takeWhile isBare with
    | [] => none
    | part => some (String.ofList part, cs.dropWhile isBare)

/-- A dotted key with the blanks around it, of as many parts as there is room for. -/
def keyWithin? : Nat → List Char → Option (Key × List Char)
  | 0, _ => none
  | room + 1, cs => do
    let (part, rest) ← keyPart? (skipBlanks cs)
    match skipBlanks rest with
    | '.' :: rest =>
      let ((path, last), rest) ← keyWithin? room rest
      some ((part :: path, last), rest)
    | rest => some (([], part), rest)

/-- A dotted key with the blanks around it. -/
def key? (cs : List Char) : Option (Key × List Char) :=
  keyWithin? keyRoom cs

end CellReview.Toml
