/-!
# Double-precision numbers

A finite double is a sign, a mantissa and a power of two, so every operation here is
exact integer arithmetic followed by at most one rounding (`Binary64.ofRatio`), to the
nearest double and to the even mantissa on a tie.
-/

namespace Hypermedia

/-- The quotient `n / d` rounded to the nearest integer, a half to the even neighbour. -/
def roundHalfEven (n d : Nat) : Nat :=
  let q := n / d
  let r := n % d
  if 2 * r < d then q else if d < 2 * r then q + 1 else q + q % 2

/-- A double: `finite s m e` is `m · 2^e`, negated when `s` holds. The mantissa is below
`2^53`, the exponent at least `-1074`, and the mantissa is at least `2^52` unless the
exponent is the least one. -/
inductive Binary64 where
  | nan
  | infinite (negative : Bool)
  | finite (negative : Bool) (mantissa : Nat) (exponent : Int)
  deriving DecidableEq, Repr, Inhabited

namespace Binary64

/-- The exponent of the subnormal numbers. -/
def minExponent : Int := -1074

/-- The exponent of the largest numbers. -/
def maxExponent : Int := 971

/-- The zero of the given sign. -/
def zero (negative : Bool) : Binary64 := .finite negative 0 minExponent

/-- `num / den · 2^(-e)` as a numerator and a denominator. -/
def scaled (num den : Nat) (e : Int) : Nat × Nat :=
  if 0 ≤ e then (num, den * Nat.pow 2 e.toNat) else (num * Nat.pow 2 (-e).toNat, den)

/-- The exponent at which `num / den` has a mantissa of 53 bits. -/
def exponentOf (num den : Nat) : Int :=
  let e : Int := (num.log2 : Int) - den.log2 - 53
  let (n, d) := scaled num den e
  let e := if n / d < Nat.pow 2 53 then e else e + 1
  max e minExponent

/-- The double nearest to `num / den`, for a positive `den`. -/
def ofRatio (negative : Bool) (num den : Nat) : Binary64 :=
  if num = 0 then zero negative
  else
    let e := exponentOf num den
    let (n, d) := scaled num den e
    let m := roundHalfEven n d
    let (m, e) := if m < Nat.pow 2 53 then (m, e) else (Nat.pow 2 52, e + 1)
    if maxExponent < e then .infinite negative else .finite negative m e

/-- The number of decimal digits of `n`, one for zero. -/
def digitCount (n : Nat) : Nat := (Nat.toDigits 10 n).length

/-- The double nearest to `coefficient · 10^exponent`. A number beyond the range is
recognised by its digit count, so no huge power of ten is computed. -/
def ofDecimal (negative : Bool) (coefficient : Nat) (exponent : Int) : Binary64 :=
  if coefficient = 0 then zero negative
  else
    let magnitude : Int := digitCount coefficient + exponent
    if 320 < magnitude then .infinite negative
    else if magnitude < -340 then zero negative
    else if 0 ≤ exponent then ofRatio negative (coefficient * Nat.pow 10 exponent.toNat) 1
    else ofRatio negative coefficient (Nat.pow 10 (-exponent).toNat)

/-- The double nearest to an integer, if it is in range. -/
def ofInt? (n : Int) : Option Binary64 :=
  match ofRatio (n < 0) n.natAbs 1 with
  | .finite s m e => some (.finite s m e)
  | _ => none

/-- Neither an infinity nor a NaN. -/
def isFinite : Binary64 → Bool
  | .finite .. => true
  | _ => false

/-- The integer part of a finite double, toward zero. -/
def truncate? : Binary64 → Option Int
  | .finite s m e =>
    let n := if 0 ≤ e then m * Nat.pow 2 e.toNat else m / Nat.pow 2 (-e).toNat
    some (if s then -(n : Int) else n)
  | _ => none

/-- What a finite double has beyond its integer part: numerator and denominator of the
magnitude. -/
def fraction : Binary64 → Nat × Nat
  | .finite _ m e => if 0 ≤ e then (0, 1) else (m % Nat.pow 2 (-e).toNat, Nat.pow 2 (-e).toNat)
  | _ => (0, 1)

/-- Is this one of the two zeros? -/
def isZero : Binary64 → Bool
  | .finite _ m _ => m == 0
  | _ => false

/-- Numeric equality: the zeros are equal and a NaN differs from everything. -/
def numEq : Binary64 → Binary64 → Bool
  | .nan, _ | _, .nan => false
  | .finite s m e, .finite s' m' e' => (m == 0 && m' == 0) || (s == s' && m == m' && e == e')
  | .infinite s, .infinite s' => s == s'
  | _, _ => false

end Binary64

end Hypermedia
