import CellReview.Number.Binary
import CellReview.Number.Digits

/-!
# The shortest decimal text of a binary number

Of all decimal numbers that round to a given binary number, the one with the
fewest digits is chosen, and of those the nearest.  That is how the JSON library of
`CellReview.Json.Text` writes numbers.

* `Interval` — the numbers that round to a given one, over a common denominator;
* `Binary.shortest` — the chosen digits and their power of ten;
* `FloatStyle.render` — the digits laid out with a point or an exponent.
-/

namespace CellReview

/-! ## The fewest digits that read back -/

/-- The numbers `low / unit ≤ x ≤ high / unit` around `value / unit`; the ends belong to it
when `closed` holds. -/
structure Interval where
  low : Nat
  value : Nat
  high : Nat
  unit : Nat
  closed : Bool

/-- The interval of the numbers that round to `m * 2 ^ q` in the format. -/
def Interval.around (f : Format) (m : Nat) (q : Int) : Interval :=
  let below := if m = Nat.pow 2 (f.bits - 1) ∧ q > f.least then 1 else 2
  let scale := Nat.pow 2 (q - 2).toNat
  { low := (4 * m - below) * scale
    value := 4 * m * scale
    high := (4 * m + 2) * scale
    unit := Nat.pow 2 (2 - q).toNat
    closed := m % 2 == 0 }

/-- The least `k` with `value / unit < 10 ^ k`. -/
def Interval.magnitude (i : Interval) : Int :=
  let k : Int := (decimal i.value).length - (decimal i.unit).length
  if i.value * Nat.pow 10 (-k).toNat ≥ i.unit * Nat.pow 10 k.toNat then k + 1 else k

/-- Whether `c * 10 ^ s` lies in the interval. -/
def Interval.holds (i : Interval) (c : Nat) (s : Int) : Bool :=
  let x := c * i.unit * Nat.pow 10 s.toNat
  let low := i.low * Nat.pow 10 (-s).toNat
  let high := i.high * Nat.pow 10 (-s).toNat
  if i.closed then low ≤ x && x ≤ high else low < x && x < high

/-- The multiple of `10 ^ s` nearest to the value among its two neighbours in the interval. -/
def Interval.nearest? (i : Interval) (s : Int) : Option Nat :=
  let n := i.value * Nat.pow 10 (-s).toNat
  let d := i.unit * Nat.pow 10 s.toNat
  let c := n / d
  match i.holds c s, i.holds (c + 1) s with
  | true, true => some (roundHalfEven n d)
  | true, false => some c
  | false, true => some (c + 1)
  | false, false => none

/-- Move trailing zeros of a number into its power of ten. -/
def dropZeros : Nat → Nat → Int → Nat × Int
  | 0, c, s => (c, s)
  | fuel + 1, c, s =>
    if c % 10 = 0 ∧ c ≠ 0 then dropZeros fuel (c / 10) (s + 1) else (c, s)

/-- The digits `c` and the power `s` of the shortest `c * 10 ^ s` that rounds to `m * 2 ^ q`. -/
def Binary.shortest (f : Format) (m : Nat) (q : Int) : Nat × Int :=
  let i := Interval.around f m q
  let k := i.magnitude
  let found := (List.range 17).findSome? fun n =>
    let s := k - (n + 1 : Nat)
    (i.nearest? s).map fun c => (c, s)
  let (c, s) := found.getD (i.value, 0)
  dropZeros 18 c s

/-! ## Layout -/

/-- How a number is laid out: which exponents of the first digit are written with a point only. -/
structure FloatStyle where
  firstPlain : Int
  lastPlain : Int

/-- The digits `cs` with the first one at `10 ^ e`, without sign. -/
def FloatStyle.layout (style : FloatStyle) (cs : List Char) (e : Int) : List Char :=
  if style.firstPlain ≤ e ∧ e ≤ style.lastPlain then
    if e < 0 then
      '0' :: '.' :: List.replicate (-e - 1).toNat '0' ++ cs
    else
      let whole := cs.take (e.toNat + 1)
      let fraction := cs.drop (e.toNat + 1)
      let zeros := List.replicate (e.toNat + 1 - cs.length) '0'
      whole ++ zeros ++ '.' :: (if fraction.isEmpty then ['0'] else fraction)
  else
    let mantissa := match cs with
      | c :: rest => if rest.isEmpty then [c] else c :: '.' :: rest
      | [] => []
    let sign := if e < 0 then '-' else '+'
    mantissa ++ 'e' :: sign :: decimal e.natAbs

/-- The text of a finite number in its shortest digits; `none` for the others. -/
def FloatStyle.render (style : FloatStyle) {f : Format} : Binary f → Option String
  | .finite s m q =>
    let body :=
      if m = 0 then ['0', '.', '0']
      else
        let (c, power) := Binary.shortest f m q
        let cs := decimal c
        style.layout cs (power + cs.length - 1)
    some (String.ofList (if s then '-' :: body else body))
  | _ => none

end CellReview
