import CellReview.Json.Value
import CellReview.Time.Calendar

/-!
# TOML words: numbers, moments and truth values

A word is a value that is not between quotes or brackets.  The spelling of a number
decides whether a document can be read; whether it fits a format is asked later, when
the document is turned into a value.  Both are done as by the library that
`CellReview.Toml.Document` stands for.

* `Word` — the words; a number keeps its digits;
* `Word.ofChars?` — the word with a spelling;
* `Word.toJson?` — its value, if it fits;
* `isMoment` — a date, a time of day, or both.
-/

namespace CellReview.Toml

/-- A value that is not between quotes or brackets. -/
inductive Word where
  | bool (b : Bool)
  | moment (text : String)
  /-- An integer in a base. -/
  | integer (base : Nat) (negative : Bool) (digits : List Char)
  /-- A floating-point number: its digits before and behind the point, and its power of ten. -/
  | float (negative : Bool) (whole fraction : List Nat) (power : Int)
  | infinity (negative : Bool)
  | nan
  deriving DecidableEq, Repr

/-! ## Digits -/

/-- Split a sign from a word; `true` stands for minus. -/
def splitSign : List Char → Bool × List Char
  | '-' :: rest => (true, rest)
  | '+' :: rest => (false, rest)
  | cs => (false, cs)

/-- Drop the underscores from a number.  Each stands behind a digit and in front of one;
`behind` tells whether the text stands behind a digit. -/
def unspaced? (digit : Char → Bool) (behind : Bool) : List Char → Option (List Char)
  | [] => some []
  | '_' :: c :: rest =>
    if behind ∧ digit c then (unspaced? digit true rest).map (c :: ·) else none
  | c :: rest =>
    if c = '_' then none else (unspaced? digit (digit c) rest).map (c :: ·)

/-- Whether a character is a hexadecimal digit. -/
def isHex (c : Char) : Bool :=
  (hexValue? c).isSome

/-- The value of a digit in a base up to sixteen. -/
def digitBelow (base : Nat) (c : Char) : Option Nat :=
  (hexValue? c).bind fun d => if d < base then some d else none

/-- The number with given digits in a base, the highest first. -/
def ofDigitsIn (base : Nat) (ds : List Nat) : Nat :=
  ds.foldl (fun n d => base * n + d) 0

/-- The digits at the start of a word, and what follows them. -/
def digitRun (cs : List Char) : List Nat × List Char :=
  ((cs.takeWhile isDigit).map digitValue, cs.dropWhile isDigit)

/-! ## Integers -/

/-- Whether an integer is spelled with digits, the first run of them alone or in front of an
underscore. -/
def isWhole (cs : List Char) : Bool :=
  match cs.dropWhile isDigit with
  | [] => !cs.isEmpty
  | c :: _ => c == '_'

/-- An integer in a base other than ten, without its two letters in front. -/
def based? (base : Nat) (cs : List Char) : Option Word :=
  if cs.all fun c => c == '_' || (digitBelow base c).isSome then
    (unspaced? isHex false cs).map (.integer base false)
  else none

/-- A decimal integer.  Behind an underscore other digits are not yet refused. -/
def integer? (cs : List Char) : Option Word :=
  let (negative, body) := splitSign cs
  if !isWhole body ∨ (body.head? = some '0' ∧ body.length > 1) then none
  else (unspaced? isHex false body).map (.integer 10 negative)

/-! ## Floating-point numbers -/

/-- The digits after a point, if there is one. -/
def fraction? : List Char → Option (List Nat × List Char)
  | '.' :: rest =>
    match digitRun rest with
    | ([], _) => none
    | found => some found
  | cs => some ([], cs)

/-- The power of ten after `e` or `E`, if there is one. -/
def power? : List Char → Option Int
  | [] => some 0
  | c :: rest =>
    if c = 'e' ∨ c = 'E' then
      let (negative, cs) := splitSign rest
      match digitRun cs with
      | (d :: ds, []) =>
        let n : Int := ofDigits (d :: ds)
        some (if negative then -n else n)
      | _ => none
    else none

/-- A floating-point number: with a point or a power of ten, and no zero in front of other
digits. -/
def float? (cs : List Char) : Option Word := do
  let (negative, spaced) := splitSign cs
  let body ← unspaced? isDigit false spaced
  let (whole, rest) := digitRun body
  if whole.isEmpty ∨ rest.isEmpty ∨ (spaced.head? = some '0' ∧ whole.length > 1) then none
  else
    let (fraction, rest) ← fraction? rest
    let power ← power? rest
    some (.float negative whole fraction power)

/-- The double `m * 10 ^ e`; powers far beyond the format are cut short. -/
def scaled (negative : Bool) (m : Nat) (e : Int) : Binary .double :=
  let size := (decimal m).length + e
  if m = 0 ∨ size < -400 then .zero .double negative
  else if size > 400 then .infinite negative
  else Binary.ofRatio .double negative (m * Nat.pow 10 e.toNat) (Nat.pow 10 (-e).toNat)

/-! ## Moments -/

/-- A number of exactly `n` digits, and what follows it. -/
def fixed (n : Nat) (cs : List Char) : Option (Nat × List Char) :=
  let ds := cs.take n
  if ds.length = n ∧ ds.all isDigit then some (ofDigits (ds.map digitValue), cs.drop n)
  else none

/-- Drop a character from the start of a word. -/
def expect (c : Char) : List Char → Option (List Char)
  | d :: rest => if c = d then some rest else none
  | [] => none

/-- Drop a date `YYYY-MM-DD`. -/
def date? (cs : List Char) : Option (List Char) := do
  let (year, cs) ← fixed 4 cs
  let (month, cs) ← fixed 2 (← expect '-' cs)
  let (day, cs) ← fixed 2 (← expect '-' cs)
  if (Time.Date.mk year month day).isValid then some cs else none

/-- Drop the seconds after a colon, if there are any, with an optional fraction. -/
def seconds? : List Char → Option (List Char)
  | ':' :: rest => do
    let (second, rest) ← fixed 2 rest
    if second > 60 then none
    else
      match rest with
      | '.' :: c :: rest => if isDigit c then some (rest.dropWhile isDigit) else none
      | rest => some rest
  | cs => some cs

/-- Drop a time of day `HH:MM`, which seconds may follow. -/
def time? (cs : List Char) : Option (List Char) := do
  let (hour, cs) ← fixed 2 cs
  let (minute, cs) ← fixed 2 (← expect ':' cs)
  if hour ≤ 23 ∧ minute ≤ 59 then seconds? cs else none

/-- Whether a word is an offset from universal time, or nothing. -/
def isOffset : List Char → Bool
  | [] => true
  | ['Z'] => true
  | ['z'] => true
  | c :: rest =>
    (c == '+' || c == '-') &&
      match fixed 2 rest with
      | some (hour, ':' :: rest) =>
        match fixed 2 rest with
        | some (minute, []) => hour ≤ 23 && minute ≤ 59
        | _ => false
      | _ => false

/-- Whether a word is a date, a time of day, or both with an optional offset. -/
def isMoment (cs : List Char) : Bool :=
  match date? cs with
  | some [] => true
  | some (c :: rest) =>
    (c == 'T' || c == 't' || c == ' ') &&
      match time? rest with
      | some offset => isOffset offset
      | none => false
  | none => time? cs == some []

/-! ## Words -/

namespace Word

/-- The words that are names. -/
def ofName? : List Char → Option Word
  | ['t', 'r', 'u', 'e'] => some (.bool true)
  | ['f', 'a', 'l', 's', 'e'] => some (.bool false)
  | cs =>
    let (negative, body) := splitSign cs
    if body = ['i', 'n', 'f'] then some (.infinity negative)
    else if body = ['n', 'a', 'n'] then some .nan
    else none

/-- Whether a character sets a floating-point number apart from an integer. -/
def marksFloat (c : Char) : Bool :=
  c == '.' || c == 'e' || c == 'E'

/-- The words that are numbers. -/
def ofNumber? : List Char → Option Word
  | '0' :: 'x' :: rest => based? 16 rest
  | '0' :: 'o' :: rest => based? 8 rest
  | '0' :: 'b' :: rest => based? 2 rest
  | cs => if cs.any marksFloat then float? cs else integer? cs

/-- The word with a spelling. -/
def ofChars? (cs : List Char) : Option Word :=
  if isMoment cs then some (.moment (String.ofList cs))
  else (ofName? cs).or (ofNumber? cs)

/-! ## Values -/

/-- The name that marks a moment among the objects. -/
def momentKey : String := "$__toml_private_datetime"

/-- The value of a moment: an object that no section of the settings asks for. -/
def ofMoment (text : String) : Json :=
  .object [(momentKey, .string text)]

/-- The value of an integer, if it has 64 bits. -/
def fit? (n : Int) : Option Json :=
  if -(Nat.pow 2 63) ≤ n ∧ n < Nat.pow 2 63 then some (.number (.int n)) else none

/-- The value of a word.  A number beyond its format has none, and what is not a number in
the first place is `null`. -/
def toJson? : Word → Option Json
  | bool b => some (.bool b)
  | moment text => some (ofMoment text)
  | integer base negative digits =>
    match digits with
    | [] => none
    | _ => do
      let ds ← digits.mapM (digitBelow base)
      let n : Int := ofDigitsIn base ds
      fit? (if negative then -n else n)
  | float negative whole fraction power =>
    let x := scaled negative (ofDigits (whole ++ fraction)) (power - fraction.length)
    if x.isFinite then some (Json.ofNumber (.double x)) else none
  | infinity _ => some .null
  | nan => some .null

end Word

end CellReview.Toml
