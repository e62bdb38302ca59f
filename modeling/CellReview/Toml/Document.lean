import CellReview.Toml.Quoted
import CellReview.Toml.Table

/-!
# TOML documents

A document is a list of expressions: keys with values, and headers that open tables.

The modules about TOML stand for a library that is used as it is.  What is followed is which
texts it takes, namely the documents of TOML 1.1 that nest no deeper than it allows, and the JSON
value that it makes of them; the words of a fault are not.

* `listed?` — the items between brackets, with commas between them;
* `value?` — a value, nested as deep as there is room;
* `expressions?` — the expressions of a document in order;
* `Toml.parse?` — the value of a document, if it is one.
-/

namespace CellReview.Toml

/-! ## Values -/

/-- Whether a character ends a word. -/
def endsWord (c : Char) : Bool :=
  c == ' ' || c == '\t' || c == '\n' || c == '\r' || c == ',' || c == '=' || c == '#' ||
    c == '[' || c == ']' || c == '{' || c == '}' || c == '"' || c == '\''

/-- The characters of a word; a blank between a date and a time belongs to it. -/
def wordChars (cs : List Char) : List Char × List Char :=
  let first := cs.takeWhile fun c => !endsWord c
  let rest := cs.dropWhile fun c => !endsWord c
  match rest with
  | ' ' :: c :: more =>
    if date? first = some [] ∧ isDigit c then
      let second := (c :: more).takeWhile fun c => !endsWord c
      (first ++ ' ' :: second, (c :: more).drop second.length)
    else (first, rest)
  | _ => (first, rest)

/-- A string or a word. -/
def single? (cs : List Char) : Option (Value × List Char) :=
  match cs with
  | c :: _ =>
    if c = '"' ∨ c = '\'' then (string? cs).map fun (s, rest) => (.string s, rest)
    else
      let (word, rest) := wordChars cs
      (Word.ofChars? word).map fun w => (.word w, rest)
  | [] => none

/-- The items up to a closing bracket, with fuel for them.  Blanks, comments and line endings
may stand around them, and a comma behind the last one. -/
def listed? {α : Type} (close : Char) (item? : List Char → Option (α × List Char)) :
    Nat → List α → List Char → Option (List α × List Char)
  | 0, _, _ => none
  | fuel + 1, items, cs =>
    match skipLines cs with
    | [] => none
    | c :: rest =>
      if c = close then some (items.reverse, rest)
      else
        match item? (c :: rest) with
        | none => none
        | some (item, rest) =>
          match skipLines rest with
          | [] => none
          | c :: rest =>
            if c = close then some ((item :: items).reverse, rest)
            else if c = ',' then listed? close item? fuel (item :: items) rest
            else none

/-- A key with its value in an inline table. -/
def member? (value? : List Char → Option (Value × List Char)) (cs : List Char) :
    Option ((Key × Value) × List Char) := do
  let (key, rest) ← key? cs
  let rest ← expect '=' (skipLines rest)
  let (v, rest) ← value? (skipLines rest)
  some ((key, v), rest)

/-- The table of keys with their values. -/
def tableOf? (members : List (Key × Value)) : Option Value :=
  (members.foldlM (fun t ((path, key), v) => Table.put path key v t) []).map fun t =>
    .table (Table.members t)

/-- A value with room for nested brackets, and with fuel for the items between them. -/
def value? (fuel : Nat) : Nat → List Char → Option (Value × List Char)
  | room + 1, '[' :: rest =>
    (listed? ']' (value? fuel room) fuel [] rest).map fun (vs, rest) => (.array vs, rest)
  | room + 1, '{' :: rest => do
    let (members, rest) ← listed? '}' (member? (value? fuel room)) fuel [] rest
    let t ← tableOf? members
    some (t, rest)
  | _, cs => single? cs

/-- How deep brackets may nest. -/
def valueRoom : Nat := 80

/-! ## Documents -/

/-- An expression of a document. -/
inductive Expression where
  | put (key : Key) (v : Value)
  | openTable (key : Key)
  | openItem (key : Key)

/-- An expression at the start of a text without blanks. -/
def expression? (fuel : Nat) (cs : List Char) : Option (Expression × List Char) :=
  match cs with
  | '[' :: '[' :: rest => do
    let (key, rest) ← key? rest
    let rest ← expect ']' rest
    let rest ← expect ']' rest
    some (.openItem key, rest)
  | '[' :: rest => do
    let (key, rest) ← key? rest
    let rest ← expect ']' rest
    some (.openTable key, rest)
  | cs => do
    let (key, rest) ← key? cs
    let rest ← expect '=' rest
    let (v, rest) ← value? fuel valueRoom (skipBlanks rest)
    some (.put key v, rest)

/-- Drop blanks, a comment, and the line ending behind them, if the text does not end there. -/
def endLine? (cs : List Char) : Option (List Char) :=
  match skipComment (skipBlanks cs) with
  | [] => some []
  | cs => newline? cs

/-- The expressions of a text, each on a line of its own, with fuel for the items of a list
and for the lines. -/
def expressions? (items : Nat) : Nat → List Expression → List Char → Option (List Expression)
  | 0, _, _ => none
  | fuel + 1, es, cs =>
    match skipLines cs with
    | [] => some es.reverse
    | cs =>
      match expression? items cs with
      | none => none
      | some (e, rest) =>
        match endLine? rest with
        | none => none
        | some rest => expressions? items fuel (e :: es) rest

/-- A document so far: its table and the path of the latest header. -/
structure Draft where
  table : Table
  header : List String

/-- Add an expression to a document. -/
def Draft.add (d : Draft) : Expression → Option Draft
  | .put (path, key) v =>
    (d.table.within d.header (Table.put path key v)).map fun t => { d with table := t }
  | .openTable (path, key) => (d.table.openTable path key).map (⟨·, path ++ [key]⟩)
  | .openItem (path, key) => (d.table.openItem path key).map (⟨·, path ++ [key]⟩)

/-- The value of a document: an object. -/
def parse? (text : String) : Option Json :=
  let cs := text.toList
  let cs := if cs.head? = some '\ufeff' then cs.tail else cs
  let fuel := cs.length + 1
  do
    let es ← expressions? fuel fuel [] cs
    let d ← es.foldlM Draft.add ⟨[], []⟩
    let members ← Value.membersJson? (Table.members d.table)
    some (.object (Json.ofMembers members))

end CellReview.Toml
