import CellReview.Number.Digits
import CellReview.Text.Blank
import CellReview.Time.Calendar

/-!
# Instants

An instant is counted in seconds from the start of 1970 in universal time, with a
fraction in billionths.  A leap second has a fraction of a second or more.  Which texts are read
and how one is written follows a library for times that is used as it is.

* `Instant` — the instants;
* `Instant.text` — date, time and a suffix for the offset;
* `Instant.parse?` — reading date, time and offset, with blanks between the parts.
-/

namespace CellReview.Time

/-- A moment in universal time. -/
structure Instant where
  seconds : Int
  nanos : Nat
  deriving DecidableEq, Repr, Inhabited

/-! ## Writing -/

/-- A number with at least `width` digits. -/
def padded (width n : Nat) : List Char :=
  let ds := decimal n
  List.replicate (width - ds.length) '0' ++ ds

/-- A year: four digits, or a sign and more of them. -/
def yearChars (year : Int) : List Char :=
  if 0 ≤ year ∧ year ≤ 9999 then padded 4 year.toNat
  else (if year < 0 then '-' else '+') :: padded 4 year.natAbs

/-- A fraction of a second with none, three, six or nine digits. -/
def fractionChars (nanos : Nat) : List Char :=
  if nanos = 0 then []
  else if nanos % 1000000 = 0 then '.' :: padded 3 (nanos / 1000000)
  else if nanos % 1000 = 0 then '.' :: padded 6 (nanos / 1000)
  else '.' :: padded 9 nanos

/-- The number of billionths of a second. -/
def billion : Nat := 1000000000

namespace Instant

/-- Date and time of an instant, with a suffix that names the offset. -/
def text (t : Instant) (suffix : String) : String :=
  let d := Date.ofDays (t.seconds / 86400)
  let s := (t.seconds % 86400).toNat
  let second := s % 60 + t.nanos / billion
  String.ofList
    (yearChars d.year ++ '-' :: padded 2 d.month ++ '-' :: padded 2 d.day ++
      'T' :: padded 2 (s / 3600) ++ ':' :: padded 2 (s / 60 % 60) ++ ':' :: padded 2 second ++
      fractionChars (t.nanos % billion) ++ suffix.toList)

/-! ## Reading -/

/-- A number of one to `most` digits behind blanks, and what follows it. -/
def number? (most : Nat) (cs : List Char) : Option (Nat × List Char) :=
  let cs := Chars.trimStart cs
  match (cs.takeWhile isDigit).take most with
  | [] => none
  | ds => some (ofDigits (ds.map digitValue), cs.drop ds.length)

/-- A year: up to four digits, or any number of them behind a sign. -/
def year? (cs : List Char) : Option (Int × List Char) :=
  let signed (negative : Bool) (cs : List Char) : Option (Int × List Char) :=
    match cs.takeWhile isDigit with
    | [] => none
    | ds =>
      let n : Int := ofDigits (ds.map digitValue)
      some (if negative then -n else n, cs.drop ds.length)
  match Chars.trimStart cs with
  | '-' :: rest => signed true rest
  | '+' :: rest => signed false rest
  | cs => (number? 4 cs).map fun (n, rest) => ((n : Int), rest)

/-- Drop a mark behind blanks. -/
def mark? (c : Char) (cs : List Char) : Option (List Char) :=
  match Chars.trimStart cs with
  | d :: rest => if c = d then some rest else none
  | [] => none

/-- A date. -/
def date? (cs : List Char) : Option (Date × List Char) := do
  let (year, cs) ← year? cs
  let (month, cs) ← number? 2 (← mark? '-' cs)
  let (day, cs) ← number? 2 (← mark? '-' cs)
  let d : Date := ⟨year, month, day⟩
  if d.isValid ∧ -262143 ≤ year ∧ year ≤ 262142 then some (d, cs) else none

/-- The billionths of a second after a point, if there is one; later digits are dropped. -/
def fraction? : List Char → Option (Nat × List Char)
  | '.' :: rest =>
    match (rest.takeWhile isDigit).take 9 with
    | [] => none
    | ds =>
      some (ofDigits (ds.map digitValue) * Nat.pow 10 (9 - ds.length), rest.dropWhile isDigit)
  | cs => some (0, cs)

/-- The seconds and billionths of a time of day. -/
def time? (cs : List Char) : Option ((Nat × Nat) × List Char) := do
  let (hour, cs) ← number? 2 cs
  let (minute, cs) ← number? 2 (← mark? ':' cs)
  let (second, cs) ← number? 2 (← mark? ':' cs)
  let (nanos, cs) ← fraction? cs
  if hour ≤ 23 ∧ minute ≤ 59 ∧ second ≤ 60 then
    let leap := second / 60
    some ((hour * 3600 + minute * 60 + second - leap, nanos + leap * billion), cs)
  else none

/-- Two digits. -/
def twoDigits? : List Char → Option (Nat × List Char)
  | a :: b :: rest =>
    if isDigit a && isDigit b then some (10 * digitValue a + digitValue b, rest) else none
  | _ => none

/-- The seconds of a signed offset. -/
def signedOffset? (negative : Bool) (cs : List Char) : Option (Int × List Char) := do
  let (hours, cs) ← twoDigits? cs
  let (minutes, cs) ← twoDigits? (cs.dropWhile fun c => c == ':' || isBlank c)
  let seconds : Int := hours * 3600 + minutes * 60
  if minutes ≤ 59 ∧ seconds < 86400 then some (if negative then -seconds else seconds, cs)
  else none

/-- The seconds of an offset. -/
def offset? (cs : List Char) : Option (Int × List Char) :=
  if Chars.lower (cs.take 3) = ['u', 't', 'c'] then some (0, cs.drop 3)
  else
    match cs with
    | 'Z' :: rest => some (0, rest)
    | 'z' :: rest => some (0, rest)
    | '+' :: rest => signedOffset? false rest
    | '-' :: rest => signedOffset? true rest
    | '\u2212' :: rest => signedOffset? true rest
    | _ => none

/-- The first second that is counted. -/
def first : Int := (Date.mk (-262143) 1 1).toDays * 86400

/-- The first second that is not counted any more. -/
def past : Int := (Date.mk 262143 1 1).toDays * 86400

/-- The instant of a text with date, time and offset. -/
def parse? (s : String) : Option Instant := do
  let (d, cs) ← date? s.toList
  let cs ←
    match cs with
    | c :: rest => if c = 'T' ∨ c = 't' ∨ c = ' ' then some rest else none
    | [] => none
  let ((second, nanos), cs) ← time? cs
  let (offset, cs) ← offset? (Chars.trimStart cs)
  let total := d.toDays * 86400 + second - offset
  if cs.all isBlank ∧ first ≤ total ∧ total < past then some ⟨total, nanos⟩ else none

end Instant

end CellReview.Time
