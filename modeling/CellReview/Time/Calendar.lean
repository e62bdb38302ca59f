/-!
# The calendar

Days are counted from the first of January 1970.  A year is taken to start in March,
so that the day a leap year adds is its last one.

* `daysIn` — the length of a month;
* `Date`, `Date.isValid` — a day of a month of a year;
* `Date.toDays`, `Date.ofDays` — the number of a day, and its date.
-/

namespace CellReview.Time

/-- Whether a year has a twenty-ninth of February. -/
def isLeap (year : Int) : Bool :=
  year % 4 = 0 && (year % 100 ≠ 0 || year % 400 = 0)

/-- The number of days of a month. -/
def daysIn (year : Int) (month : Nat) : Nat :=
  if month = 2 then (if isLeap year then 29 else 28)
  else if month = 4 ∨ month = 6 ∨ month = 9 ∨ month = 11 then 30
  else 31

/-- A day of a month of a year. -/
structure Date where
  year : Int
  month : Nat
  day : Nat
  deriving DecidableEq, Repr

namespace Date

/-- Whether a date exists. -/
def isValid (d : Date) : Bool :=
  1 ≤ d.month && d.month ≤ 12 && 1 ≤ d.day && d.day ≤ daysIn d.year d.month

/-- The number of days before a date in its year from March on. -/
def dayOfYear (d : Date) : Nat :=
  let m := (d.month + 9) % 12
  (153 * m + 2) / 5 + d.day - 1

/-- The days from the first of January 1970 to a date. -/
def toDays (d : Date) : Int :=
  let y := if d.month ≤ 2 then d.year - 1 else d.year
  365 * y + y / 4 - y / 100 + y / 400 + d.dayOfYear - 719468

/-- The date of a day. -/
def ofDays (days : Int) : Date :=
  let z := days + 719468
  let era := z / 146097
  let doe := (z % 146097).toNat
  let yoe := (doe - doe / 1460 + doe / 36524 - doe / 146096) / 365
  let doy := doe - (365 * yoe + yoe / 4 - yoe / 100)
  let mp := (5 * doy + 2) / 153
  let month := if mp < 10 then mp + 3 else mp - 9
  let y := (yoe : Int) + era * 400
  ⟨if month ≤ 2 then y + 1 else y, month, doy - (153 * mp + 2) / 5 + 1⟩

end Date

end CellReview.Time
