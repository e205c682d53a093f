import Hypermedia.Number.Shortest

/-!
# Exact decimals

A decimal keeps its coefficient and its exponent, so `9.50` and `9.5` are the same number
with different texts. `Decimal.text` writes a decimal, `Decimal.toBinary64` rounds it to a
double and `Decimal.ofBinary64` takes the exact value of one.
-/

namespace Hypermedia

/-- A decimal: `finite s c e` is `c · 10^e`, negated when `s` holds. A NaN may carry a
payload of digits, and a signalling one refuses to become a double. -/
inductive Decimal where
  | finite (negative : Bool) (coefficient : Nat) (exponent : Int)
  | infinite (negative : Bool)
  | nan (negative : Bool) (signalling : Bool) (payload : Option Nat)
  deriving DecidableEq, Repr, Inhabited

namespace Decimal

/-- The sign as it is written. -/
def sign (negative : Bool) : String := if negative then "-" else ""

/-- The text of a decimal: positional when the exponent is not positive and at most six
zeros follow the point, otherwise with an exponent. -/
def text : Decimal → String
  | .infinite s => sign s ++ "Infinity"
  | .nan s q p => sign s ++ (if q then "sNaN" else "NaN") ++ ((p.map toString).getD "")
  | .finite s c e =>
    let digits := Nat.toDigits 10 c
    let left : Int := digits.length + e
    let point : Int := if e ≤ 0 && -6 < left then left else 1
    let body :=
      if point ≤ 0 then "0." ++ zeros (-point).toNat ++ String.ofList digits
      else
        let p := point.toNat
        if digits.length ≤ p then String.ofList digits ++ zeros (p - digits.length)
        else String.ofList (digits.take p) ++ "." ++ String.ofList (digits.drop p)
    let shift := left - point
    sign s ++ body ++
      (if shift = 0 then ""
      else "E" ++ (if shift < 0 then "-" else "+") ++ toString shift.natAbs)

/-- The greatest exponent of a decimal with one digit before the point. -/
def maxExponent : Int := 999999999999999999

/-- The least exponent of the last digit of a decimal. -/
def minExponent : Int := -1999999999999999997

/-- Is there a decimal of this size? -/
def inRange : Decimal → Bool
  | .finite _ c e => minExponent ≤ e && e + Binary64.digitCount c - 1 ≤ maxExponent
  | _ => true

/-- Truth of a decimal: everything but the zeros. -/
def isZero : Decimal → Bool
  | .finite _ c _ => c == 0
  | _ => false

/-- The nearest double; a signalling NaN has none. -/
def toBinary64? : Decimal → Option Binary64
  | .finite s c e => some (.ofDecimal s c e)
  | .infinite s => some (.infinite s)
  | .nan _ false _ => some .nan
  | .nan _ true _ => none

/-- The exact value of a double. A fraction `m / 2^k` is `m · 5^k / 10^k`. -/
def ofBinary64 : Binary64 → Decimal
  | .nan => .nan false false none
  | .infinite s => .infinite s
  | .finite s m e =>
    if m = 0 then .finite s 0 0
    else if 0 ≤ e then .finite s (m * Nat.pow 2 e.toNat) 0
    else
      let (m, k) := reduce 1100 m (-e).toNat
      .finite s (m * Nat.pow 5 k) (-(k : Int))
where
  /-- Divide out the common factors of two of `m / 2^k`. -/
  reduce : Nat → Nat → Nat → Nat × Nat
    | 0, m, k => (m, k)
    | fuel + 1, m, k => if k != 0 && m % 2 == 0 then reduce fuel (m / 2) (k - 1) else (m, k)

/-- The decimal of an integer. -/
def ofInt (n : Int) : Decimal := .finite (n < 0) n.natAbs 0

/-- Do `c · 10^e` and `c' · 10^e'` have the same value? Coefficients are compared after
moving to the smaller exponent, and only when the magnitudes agree. -/
def sameMagnitude (c : Nat) (e : Int) (c' : Nat) (e' : Int) : Bool :=
  if c = 0 || c' = 0 then c == c'
  else
    (Binary64.digitCount c + e == Binary64.digitCount c' + e') &&
      (if e ≤ e' then c == c' * Nat.pow 10 (e' - e).toNat
        else c' == c * Nat.pow 10 (e - e').toNat)

/-- Numeric equality: a NaN differs from everything. -/
def numEq : Decimal → Decimal → Bool
  | .finite s c e, .finite s' c' e' =>
    (c == 0 && c' == 0) || (s == s' && sameMagnitude c e c' e')
  | .infinite s, .infinite s' => s == s'
  | _, _ => false

/-- A decimal with `places` places for a double, a half going to the even digit: the form
in which a store gives decimals back. -/
def fixed (places : Nat) : Binary64 → Decimal
  | .nan => .nan false false none
  | .infinite s => .infinite s
  | .finite s m e =>
    let (n, d) := Binary64.scaled (m * Nat.pow 10 places) 1 (-e)
    .finite s (roundHalfEven n d) (-(places : Int))

end Decimal

end Hypermedia
