/-!
# Binary floating-point numbers

A number of a format is a signed whole multiple of a power of two, infinite, or
not a number.  Results are rounded to the nearest number of the format, ties to
the even multiple; everything is computed exactly on natural numbers before.

* `Format` — how many bits a multiple has and which powers are allowed;
* `Binary` — the numbers of a format;
* `Binary.ofRatio` — the number nearest to a quotient;
* `Binary.mul`, `Binary.div`, `Binary.convert` — rounded operations.
-/

namespace CellReview

/-- A binary format: multiples below `2 ^ bits` of powers from `2 ^ least` to `2 ^ greatest`. -/
structure Format where
  bits : Nat
  least : Int
  greatest : Int
  deriving DecidableEq, Repr

/-- The format with 64 bits. -/
def Format.double : Format := ⟨53, -1074, 971⟩

/-- The format with 32 bits. -/
def Format.single : Format := ⟨24, -149, 104⟩

/-- A number of a format; `finite s m q` is `m * 2 ^ q`, negative when `s` holds. -/
inductive Binary (f : Format) where
  | finite (negative : Bool) (m : Nat) (q : Int)
  | infinite (negative : Bool)
  | nan
  deriving DecidableEq, Repr

/-- The natural number nearest to `n / d`, ties to even. -/
def roundHalfEven (n d : Nat) : Nat :=
  let m := n / d
  let r := n % d
  if 2 * r > d || (2 * r == d && m % 2 == 1) then m + 1 else m

namespace Binary

variable {f : Format}

/-- The zero of a format. -/
def zero (f : Format) (negative : Bool) : Binary f :=
  .finite negative 0 f.least

/-- Whether a number is a zero of either sign. -/
def isZero : Binary f → Bool
  | .finite _ m _ => m == 0
  | _ => false

/-- Whether a number is neither infinite nor missing. -/
def isFinite : Binary f → Bool
  | .finite .. => true
  | _ => false

/-- Whether a number carries a minus sign. -/
def isNegative : Binary f → Bool
  | .finite s _ _ => s
  | .infinite s => s
  | .nan => false

/-- The number with the other sign. -/
def neg : Binary f → Binary f
  | .finite s m q => .finite (!s) m q
  | .infinite s => .infinite (!s)
  | .nan => .nan

/-- Numerator and denominator of `n / d` counted in units of `2 ^ q`. -/
def inUnits (n d : Nat) (q : Int) : Nat × Nat :=
  (n * Nat.pow 2 (-q).toNat, d * Nat.pow 2 q.toNat)

/-- The number nearest to `n / d`, ties to even; beyond the format it is infinite. -/
def ofRatio (f : Format) (negative : Bool) (n d : Nat) : Binary f :=
  if n = 0 then zero f negative
  else
    let low := max ((n.log2 : Int) - d.log2 - f.bits) f.least
    let (n₁, d₁) := inUnits n d low
    let q := if n₁ / d₁ ≥ Nat.pow 2 f.bits then low + 1 else low
    let (n₂, d₂) := inUnits n d q
    let m := roundHalfEven n₂ d₂
    let (m, q) := if m = Nat.pow 2 f.bits then (Nat.pow 2 (f.bits - 1), q + 1) else (m, q)
    if q > f.greatest then .infinite negative else .finite negative m q

/-- The number nearest to an integer. -/
def ofInt (f : Format) (n : Int) : Binary f :=
  ofRatio f (n < 0) n.natAbs 1

/-- Numerator and denominator of the size of `m * 2 ^ q`. -/
def ratio (m : Nat) (q : Int) : Nat × Nat :=
  (m * Nat.pow 2 q.toNat, Nat.pow 2 (-q).toNat)

/-- The rounded product. -/
def mul : Binary f → Binary f → Binary f
  | .finite s m q, .finite s' m' q' =>
    let (n, d) := ratio m q
    let (n', d') := ratio m' q'
    ofRatio f (s != s') (n * n') (d * d')
  | .nan, _ => .nan
  | _, .nan => .nan
  | x, y => if x.isZero || y.isZero then .nan else .infinite (x.isNegative != y.isNegative)

/-- The rounded quotient by a finite number other than zero. -/
def div : Binary f → Binary f → Binary f
  | .finite s m q, .finite s' m' q' =>
    let (n, d) := ratio m q
    let (n', d') := ratio m' q'
    if m' = 0 then (if m = 0 then .nan else .infinite (s != s'))
    else ofRatio f (s != s') (n * d') (d * n')
  | .nan, _ => .nan
  | _, .nan => .nan
  | .infinite s, .finite s' _ _ => .infinite (s != s')
  | .finite s _ _, .infinite s' => zero f (s != s')
  | .infinite _, .infinite _ => .nan

/-- The nearest number of another format. -/
def convert (g : Format) : Binary f → Binary g
  | .finite s m q =>
    let (n, d) := ratio m q
    ofRatio g s n d
  | .infinite s => .infinite s
  | .nan => .nan

/-- The number nearest to a power of ten. -/
def powerOfTen (f : Format) (e : Nat) : Binary f :=
  ofRatio f false (Nat.pow 10 e) 1

end Binary

end CellReview
