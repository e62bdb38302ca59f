/-!
# Decimal digits of natural numbers

* `decimal` — the digits of a number, without leading zeros;
* `digitValue` — the value of a digit character;
* `ofDigits` — the number with given digits.
-/

namespace CellReview

/-- The character of a digit below ten. -/
def digit (d : Nat) : Char :=
  Nat.digitChar d

/-- The decimal digits of a number, without leading zeros. -/
def decimal (n : Nat) : List Char :=
  if n < 10 then [digit n] else decimal (n / 10) ++ [digit (n % 10)]
termination_by n
decreasing_by omega

/-- The decimal text of a number. -/
def natText (n : Nat) : String :=
  String.ofList (decimal n)

/-- The decimal text of an integer, with `-` before the negative ones. -/
def intText (n : Int) : String :=
  if n < 0 then "-" ++ natText n.natAbs else natText n.natAbs

/-- Whether a character is one of `0` to `9`. -/
def isDigit (c : Char) : Bool :=
  '0' ≤ c && c ≤ '9'

/-- The value of a digit character. -/
def digitValue (c : Char) : Nat :=
  c.toNat - '0'.toNat

/-- The number with the given digits, the highest first. -/
def ofDigits (ds : List Nat) : Nat :=
  ds.foldl (fun n d => 10 * n + d) 0

/-- The value of a hexadecimal digit in either case. -/
def hexValue? (c : Char) : Option Nat :=
  if isDigit c then some (digitValue c)
  else if 'a' ≤ c && c ≤ 'f' then some (c.toNat - 'a'.toNat + 10)
  else if 'A' ≤ c && c ≤ 'F' then some (c.toNat - 'A'.toNat + 10)
  else none

end CellReview
