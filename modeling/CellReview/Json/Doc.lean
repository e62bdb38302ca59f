import CellReview.Json.Value
import CellReview.Number.Literal

/-!
# A JSON text as far as it can be read

A `Doc` keeps the order and repetition of members and records where a text stops
being JSON, so that a reader of typed values meets the faults in the order of the
text.

This stands for the reader of the JSON library.  What is followed is its grammar, its escapes and
numbers, how deep a value may nest, and the order in which it meets faults; the words of a fault
are not.

* `Doc` — the tree of a text; a fault is `broken`, an array or object that is not closed,
  or an object that does not open with a name;
* `Doc.scan`, `Doc.ofText` — the tree at the start of a text, with the rest;
* `Doc.value?` — the value of a tree that is JSON throughout;
* `Json.doc` — the tree of a value;
* `Json.parse?` — the value of a text.
-/

namespace CellReview

/-- A JSON text as far as it can be read.  A number without value is too large, a
string without value holds half of a surrogate pair.  An object is `nameless` if
something else stands where its first name should be. -/
inductive Doc where
  | null
  | bool (b : Bool)
  | number (n : Option Number)
  | string (s : Option String)
  | array (items : List Doc) (closed : Bool)
  | object (entries : List (Option String × Doc)) (closed : Bool)
  | nameless (first : Doc)
  | broken
  deriving Repr

/-- Whether the grammar holds to the end of the tree. -/
def Doc.sound : Doc → Bool
  | .array _ closed => closed
  | .object _ closed => closed
  | .nameless _ => false
  | .broken => false
  | _ => true

/-! ## Tokens -/

namespace Scan

/-- The text after leading spaces, tabs and line ends. -/
def skip : List Char → List Char
  | c :: rest => if c = ' ' ∨ c = '\n' ∨ c = '\r' ∨ c = '\t' then skip rest else c :: rest
  | [] => []

/-- The number of four hexadecimal digits. -/
def hex4? (a b c d : Char) : Option Nat := do
  let a ← hexValue? a
  let b ← hexValue? b
  let c ← hexValue? c
  let d ← hexValue? d
  some (((a * 16 + b) * 16 + c) * 16 + d)

/-- The character of an escape letter. -/
def escaped? : Char → Option Char
  | '"' => some '"'
  | '\\' => some '\\'
  | '/' => some '/'
  | 'b' => some (Char.ofNat 8)
  | 'f' => some (Char.ofNat 12)
  | 'n' => some '\n'
  | 'r' => some '\r'
  | 't' => some '\t'
  | _ => none

/-- Whether a code unit opens a surrogate pair. -/
def isHigh (n : Nat) : Bool := 0xD800 ≤ n && n < 0xDC00

/-- Whether a code unit closes a surrogate pair. -/
def isLow (n : Nat) : Bool := 0xDC00 ≤ n && n < 0xE000

/-- Read the rest of a string: its characters, reversed, or nothing when half of a
surrogate pair was met; and the text after the closing quote.  An opening half is
held back until the next escape shows whether it is paired. -/
def stringBody (high : Option Nat) (acc : Option (List Char)) :
    List Char → Option (Option (List Char) × List Char)
  | [] => none
  | '\\' :: 'u' :: a :: b :: c :: d :: rest =>
    match hex4? a b c d with
    | none => none
    | some n =>
      match high with
      | some h =>
        if isLow n then
          let code := 0x10000 + (h - 0xD800) * 0x400 + (n - 0xDC00)
          stringBody none (acc.map (Char.ofNat code :: ·)) rest
        else if isHigh n then stringBody (some n) none rest
        else stringBody none none rest
      | none =>
        if isHigh n then stringBody (some n) acc rest
        else if isLow n then stringBody none none rest
        else stringBody none (acc.map (Char.ofNat n :: ·)) rest
  | '\\' :: c :: rest =>
    let acc := if high.isSome then none else acc
    match escaped? c with
    | none => none
    | some e => stringBody none (acc.map (e :: ·)) rest
  | c :: rest =>
    let acc := if high.isSome then none else acc
    if c = '"' then some (acc, rest)
    else if c = '\\' ∨ c.toNat < 32 then none
    else stringBody none (acc.map (c :: ·)) rest

/-- The string after an opening quote, and the text behind it. -/
def string? (cs : List Char) : Option (Option String × List Char) :=
  (stringBody none (some []) cs).map fun (s, rest) =>
    (s.map fun r => String.ofList r.reverse, rest)

/-- The digits at the start of a text, and the text behind them. -/
def digits (cs : List Char) : List Nat × List Char :=
  ((cs.takeWhile isDigit).map digitValue, cs.dropWhile isDigit)

/-- The digits of a whole number: no zero stands in front of other digits. -/
def whole? (cs : List Char) : Option (List Nat × List Char) :=
  match digits cs with
  | ([], _) => none
  | (0 :: _ :: _, _) => none
  | found => some found

/-- The digits after a point, if there is one. -/
def fraction? : List Char → Option (Option (List Nat) × List Char)
  | '.' :: rest =>
    match digits rest with
    | ([], _) => none
    | (ds, rest) => some (some ds, rest)
  | cs => some (none, cs)

/-- The signed digits after `e` or `E`, if there is one. -/
def exponent? (cs : List Char) : Option (Option (Bool × List Nat) × List Char) :=
  let signed (cs : List Char) : Option (Option (Bool × List Nat) × List Char) :=
    let (down, cs) := match cs with
      | '-' :: rest => (true, rest)
      | '+' :: rest => (false, rest)
      | cs => (false, cs)
    match digits cs with
    | ([], _) => none
    | (ds, rest) => some (some (down, ds), rest)
  match cs with
  | 'e' :: rest => signed rest
  | 'E' :: rest => signed rest
  | cs => some (none, cs)

/-- The literal at the start of a text, and the text behind it. -/
def literal? (cs : List Char) : Option (Literal × List Char) := do
  let (negative, cs) := match cs with
    | '-' :: rest => (true, rest)
    | cs => (false, cs)
  let (whole, cs) ← whole? cs
  let (fraction, cs) ← fraction? cs
  let (exponent, cs) ← exponent? cs
  some (⟨negative, whole, fraction, exponent⟩, cs)

/-- The number of a literal. -/
def numberOf? (l : Literal) : Option Number :=
  l.value?.map fun
    | .inl n => .int n
    | .inr x => .double x

/-- Drop a word from the start of a text. -/
def word? (w : List Char) (cs : List Char) : Option (List Char) :=
  if w.isPrefixOf cs then some (cs.drop w.length) else none

end Scan

/-! ## Trees -/

open Scan in
mutual

/-- The tree at the start of a text and the text behind it, with fuel for the nesting. -/
def Doc.scan : Nat → List Char → Doc × List Char
  | 0, _ => (.broken, [])
  | fuel + 1, cs =>
    match skip cs with
    | '[' :: rest =>
      match skip rest with
      | ']' :: rest => (.array [] true, rest)
      | rest =>
        let (items, closed, rest) := Doc.scanItems fuel rest
        (.array items closed, rest)
    | '{' :: rest =>
      match skip rest with
      | '}' :: rest => (.object [] true, rest)
      | '"' :: rest =>
        let (entries, closed, rest) := Doc.scanEntries fuel ('"' :: rest)
        (.object entries closed, rest)
      | rest => (.nameless (Doc.scan fuel rest).1, [])
    | '"' :: rest =>
      match string? rest with
      | some (s, rest) => (.string s, rest)
      | none => (.broken, [])
    | 'n' :: rest => named .null (word? ['u', 'l', 'l'] rest)
    | 't' :: rest => named (.bool true) (word? ['r', 'u', 'e'] rest)
    | 'f' :: rest => named (.bool false) (word? ['a', 'l', 's', 'e'] rest)
    | cs =>
      match literal? cs with
      | some (l, rest) => (.number (numberOf? l), rest)
      | none => (.broken, [])
where
  /-- A named value, if its name was there. -/
  named (d : Doc) : Option (List Char) → Doc × List Char
    | some rest => (d, rest)
    | none => (.broken, [])

/-- The items of an array up to its end, and whether it has one. -/
def Doc.scanItems : Nat → List Char → List Doc × Bool × List Char
  | 0, _ => ([], false, [])
  | fuel + 1, cs =>
    let (d, rest) := Doc.scan fuel cs
    if !d.sound then ([d], false, [])
    else
      match skip rest with
      | ']' :: rest => ([d], true, rest)
      | ',' :: rest =>
        match skip rest with
        | ']' :: _ => ([d], false, [])
        | rest =>
          let (ds, closed, rest) := Doc.scanItems fuel rest
          (d :: ds, closed, rest)
      | _ => ([d], false, [])

/-- The entries of an object up to its end, and whether it has one. -/
def Doc.scanEntries : Nat → List Char → List (Option String × Doc) × Bool × List Char
  | 0, _ => ([], false, [])
  | fuel + 1, cs =>
    match skip cs with
    | '"' :: rest =>
      match string? rest with
      | none => ([], false, [])
      | some (k, rest) =>
        match skip rest with
        | ':' :: rest =>
          let (d, rest) := Doc.scan fuel rest
          if !d.sound then ([(k, d)], false, [])
          else
            match skip rest with
            | '}' :: rest => ([(k, d)], true, rest)
            | ',' :: rest =>
              let (es, closed, rest) := Doc.scanEntries fuel rest
              ((k, d) :: es, closed, rest)
            | _ => ([(k, d)], false, [])
        | _ => ([(k, .broken)], false, [])
    | _ => ([], false, [])

end

/-- Fuel for a text: every nesting and every item takes a character of it. -/
def Doc.fuel (cs : List Char) : Nat :=
  2 * cs.length + 2

/-- The tree of a text, and whether only spaces and line ends follow it. -/
def Doc.ofText (s : String) : Doc × Bool :=
  let (d, rest) := Doc.scan (Doc.fuel s.toList) s.toList
  (d, (Scan.skip rest).isEmpty)

/-! ## Values -/

/-- One more than the nesting that a value may have. -/
def Doc.nesting : Nat := 128

mutual

/-- The value of a tree that is JSON throughout and nests less than `depth`. -/
def Doc.value? (depth : Nat) : Doc → Option Json
  | .null => some .null
  | .bool b => some (.bool b)
  | .number n => n.map .number
  | .string s => s.map .string
  | .array items closed =>
    if depth ≤ 1 ∨ !closed then none
    else (Doc.values? (depth - 1) items).map .array
  | .object entries closed =>
    if depth ≤ 1 ∨ !closed then none
    else (Doc.members? (depth - 1) entries).map fun ms => .object (Json.ofMembers ms)
  | .nameless _ => none
  | .broken => none

/-- The values of the items of an array. -/
def Doc.values? (depth : Nat) : List Doc → Option (List Json)
  | [] => some []
  | d :: rest =>
    match Doc.value? depth d, Doc.values? depth rest with
    | some v, some vs => some (v :: vs)
    | _, _ => none

/-- The members of an object in their order. -/
def Doc.members? (depth : Nat) : List (Option String × Doc) → Option (List (String × Json))
  | [] => some []
  | (k, d) :: rest =>
    match k, Doc.value? depth d, Doc.members? depth rest with
    | some k, some v, some vs => some ((k, v) :: vs)
    | _, _, _ => none

end

mutual

/-- The tree of a value. -/
def Json.doc : Json → Doc
  | .null => .null
  | .bool b => .bool b
  | .number n => .number (some n)
  | .string s => .string (some s)
  | .array items => .array (Json.itemDocs items) true
  | .object members => .object (Json.memberDocs members) true

/-- The trees of the items of an array. -/
def Json.itemDocs : List Json → List Doc
  | [] => []
  | v :: rest => v.doc :: Json.itemDocs rest

/-- The entries of an object. -/
def Json.memberDocs : List (String × Json) → List (Option String × Doc)
  | [] => []
  | (k, v) :: rest => (some k, v.doc) :: Json.memberDocs rest

end

/-- The value of a text, with every object sorted and the last of equal names winning. -/
def Json.parse? (s : String) : Option Json :=
  match Doc.ofText s with
  | (d, true) => d.value? Doc.nesting
  | (_, false) => none

end CellReview
