import CellReview.Number.Binary
import CellReview.Number.Digits

/-!
# The value of a decimal literal

The digits of a literal are gathered into a whole number below `2 ^ 64`; what does
not fit is dropped and counted in the exponent.  The number is then scaled by a
power of ten in double width, so a long literal may end up next to the nearest
number.  That is how the JSON library of `CellReview.Json.Doc` reads numbers.

* `Literal` — sign, digits and exponent as written;
* `Literal.value?` — an integer, a double, or nothing when it is too large.
-/

namespace CellReview

/-- A decimal literal: digits before and after the point, and a signed exponent. -/
structure Literal where
  negative : Bool
  whole : List Nat
  fraction : Option (List Nat)
  exponent : Option (Bool × List Nat)
  deriving DecidableEq, Repr

namespace Literal

/-- The bound of the gathered digits. -/
def wordLimit : Nat := Nat.pow 2 64

/-- Gather leading digits while they fit; also the digits that are left. -/
def gather (start : Nat) : List Nat → Nat × List Nat
  | [] => (start, [])
  | d :: ds => if 10 * start + d < wordLimit then gather (10 * start + d) ds else (start, d :: ds)

/-- Divide by `10 ^ e`, in steps of at most `10 ^ 308`. -/
def scaleDown (x : Binary .double) (e : Nat) : Binary .double :=
  if e ≤ 308 then x.div (.powerOfTen .double e)
  else if x.isZero then x
  else scaleDown (x.div (.powerOfTen .double 308)) (e - 308)
termination_by e
decreasing_by omega

/-- The double `m * 10 ^ e`, or nothing when it is too large. -/
def scale? (m : Nat) (e : Int) : Option (Binary .double) :=
  let x := Binary.ofInt .double m
  if e < 0 then some (scaleDown x e.natAbs)
  else if x.isZero then some x
  else if e > 308 then none
  else
    let y := x.mul (.powerOfTen .double e.toNat)
    if y.isFinite then some y else none

/-- The greatest exponent that is added up; larger ones are settled by their sign. -/
def exponentLimit : Nat := Nat.pow 2 31

/-- The double of a literal whose gathered digits are `m` with exponent `e`. -/
def toDouble? (l : Literal) (m : Nat) (e : Int) : Option (Binary .double) :=
  let size :=
    match l.exponent with
    | none => scale? m e
    | some (down, ds) =>
      let x := ofDigits ds
      if x < exponentLimit then scale? m (if down then e - x else e + x)
      else if m ≠ 0 ∧ !down then none
      else some (.zero .double false)
  size.map fun x => if l.negative then x.neg else x

/-- The number of a literal: an integer of 64 bits where it is written as one and fits. -/
def value? (l : Literal) : Option (Int ⊕ Binary .double) :=
  let (m, left) := gather 0 l.whole
  match l.fraction, l.exponent, left with
  | none, none, [] =>
    if !l.negative then some (.inl m)
    else if 0 < m ∧ m ≤ Nat.pow 2 63 then some (.inl (-m))
    else some (.inr (Binary.ofInt .double m).neg)
  | fraction, _, left =>
    let (m', left') := gather m (fraction.getD [])
    let shift := (fraction.getD []).length - left'.length
    (l.toDouble? m' ((left.length : Int) - shift)).map .inr

end Literal

end CellReview
