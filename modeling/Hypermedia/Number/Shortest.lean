import Hypermedia.Number.Binary64

/-!
# The shortest decimal of a double

`Binary64.shortest` finds the fewest digits that read back to a double: for one digit, two
digits and so on it tests the two neighbours of the value on that decimal grid against the
interval of reals that round to the double. The first grid with a hit wins, the nearer of
two hits is taken and an exact tie goes to the even digit.

`FloatText` says how the digits are laid out, `Binary64.text` writes them.
-/

namespace Hypermedia

namespace Binary64

/-- The interval of reals that round to a positive double, with its value: numerators over
the common denominator `den`; the ends belong to it when `closed` holds. -/
structure Interval where
  low : Nat
  value : Nat
  high : Nat
  den : Nat
  closed : Bool

/-- The interval of `m · 2^e`. The gap below a power of two is half the gap above it. -/
def interval (m : Nat) (e : Int) : Interval :=
  let e4 := e - 2
  let (scale, den) := if 0 ≤ e4 then (Nat.pow 2 e4.toNat, 1) else (1, Nat.pow 2 (-e4).toNat)
  let gapBelow := if m == Nat.pow 2 52 && e != minExponent then 1 else 2
  { low := (4 * m - gapBelow) * scale, value := 4 * m * scale, high := (4 * m + 2) * scale
    den, closed := m % 2 == 0 }

/-- Is `n / d` in the interval? -/
def Interval.contains (i : Interval) (n d : Nat) : Bool :=
  let x := n * i.den
  if i.closed then i.low * d ≤ x && x ≤ i.high * d else i.low * d < x && x < i.high * d

/-- `10^k` as a numerator and a denominator. -/
def powerOfTen (k : Int) : Nat × Nat :=
  if 0 ≤ k then (Nat.pow 10 k.toNat, 1) else (1, Nat.pow 10 (-k).toNat)

/-- The least `k` with `value < 10^k`, searched upward from a guess that is not above it. -/
def magnitudeFrom (num den : Nat) : Nat → Int → Int
  | 0, k => k
  | fuel + 1, k =>
    let (p, q) := powerOfTen k
    if num * q < p * den then k else magnitudeFrom num den fuel (k + 1)

/-- The number of digits before the decimal point of `num / den`, negative when zeros follow
the point. -/
def magnitude (num den : Nat) : Int :=
  let guess : Int := ((num.log2 : Int) - den.log2 - 1) * 1233 / 4096 - 1
  magnitudeFrom num den 8 guess

/-- The better of the two neighbours of the value on the grid of `10^unit`, if one of them
is in the interval. -/
def onGrid? (i : Interval) (unit : Int) : Option Nat :=
  let (p, q) := powerOfTen unit
  let below := i.value * q / (i.den * p)
  let above := below + 1
  let hitsBelow := below != 0 && i.contains (below * p) q
  let hitsAbove := i.contains (above * p) q
  if hitsBelow && hitsAbove then
    let twice := 2 * i.value * q
    let middle := (below + above) * i.den * p
    if twice < middle then some below
    else if middle < twice then some above
    else some (if below % 2 == 0 then below else above)
  else if hitsBelow then some below
  else if hitsAbove then some above
  else none

/-- Search the grids from `n` digits on; seventeen digits always hit. -/
def shortestFrom (i : Interval) (k : Int) : Nat → Nat → Nat × Int
  | 0, n => (i.value / i.den, n)
  | fuel + 1, n =>
    match onGrid? i (k - n) with
    | some d => (d, k - n)
    | none => shortestFrom i k fuel (n + 1)

/-- Drop trailing zeros: `d · 10^u` with the least `d`. -/
def dropZeros : Nat → Nat → Int → Nat × Int
  | 0, d, u => (d, u)
  | fuel + 1, d, u => if d != 0 && d % 10 == 0 then dropZeros fuel (d / 10) (u + 1) else (d, u)

/-- Digits and unit of the shortest decimal `d · 10^u` that reads back to `m · 2^e`. -/
def shortest (m : Nat) (e : Int) : Nat × Int :=
  if m = 0 then (0, 0)
  else
    let i := interval m e
    let k := magnitude i.value i.den
    let (d, u) := shortestFrom i k 20 1
    dropZeros 20 d u

end Binary64

/-- How a double is laid out as text. -/
structure FloatText where
  /-- Positional when the number of digits before the point is above this, -/
  positionalAbove : Int
  /-- and at most this. -/
  positionalUpTo : Int
  nan : String
  infinity : String
  negativeInfinity : String

namespace FloatText

/-- The layout of numbers in texts and answers: positional from `0.0001` to below `1e16`. -/
def plain : FloatText :=
  { positionalAbove := -4, positionalUpTo := 16
    nan := "nan", infinity := "inf", negativeInfinity := "-inf" }

/-- The layout of numbers in documents. -/
def document : FloatText :=
  { plain with nan := "NaN", infinity := "Infinity", negativeInfinity := "-Infinity" }

end FloatText

/-- Two digits at least. -/
def twoDigits (n : Nat) : String := if n < 10 then s!"0{n}" else toString n

/-- `n` zeros. -/
def zeros (n : Nat) : String := String.ofList (List.replicate n '0')

/-- Digits `d` with `point` of them before the decimal point. -/
def positional (digits : List Char) (point : Int) : String :=
  if point ≤ 0 then "0." ++ zeros (-point).toNat ++ String.ofList digits
  else
    let p := point.toNat
    if digits.length ≤ p then String.ofList digits ++ zeros (p - digits.length) ++ ".0"
    else String.ofList (digits.take p) ++ "." ++ String.ofList (digits.drop p)

/-- Digits in exponent form: one digit, the others after a point, and a signed exponent of
two digits at least. -/
def scientific (digits : List Char) (point : Int) : String :=
  let x := point - 1
  let mantissa :=
    match digits with
    | [] => "0"
    | [d] => String.singleton d
    | d :: r => String.singleton d ++ "." ++ String.ofList r
  mantissa ++ "e" ++ (if x < 0 then "-" else "+") ++ twoDigits x.natAbs

/-- The text of a double: the fewest digits that read back. -/
def Binary64.text (layout : FloatText) : Binary64 → String
  | .nan => layout.nan
  | .infinite false => layout.infinity
  | .infinite true => layout.negativeInfinity
  | .finite s m e =>
    let sign := if s then "-" else ""
    if m = 0 then sign ++ "0.0"
    else
      let (d, u) := Binary64.shortest m e
      let digits := Nat.toDigits 10 d
      let point : Int := digits.length + u
      sign ++
        (if layout.positionalAbove < point && point ≤ layout.positionalUpTo then
          positional digits point
        else scientific digits point)

end Hypermedia
