/-!
# Names of hosts in ASCII

A label of the name of a host with other characters than ASCII is written with its ASCII
characters first and then, in base 36, where the others stand (RFC 3492).
-/

namespace Hypermedia.Punycode

/-- A digit in base 36. -/
def digit (n : Nat) : Char := if n < 26 then Char.ofNat (97 + n) else Char.ofNat (22 + n)

/-- The least digit that ends a number, at a position and with a bias. -/
def threshold (position bias : Nat) : Nat :=
  if position ≤ bias then 1 else if bias + 26 ≤ position then 26 else position - bias

/-- A number in digits, of which the last one is below its threshold; `fuel` bounds their
number. -/
def digits (bias : Nat) : (fuel position n : Nat) → List Char
  | 0, _, n => [digit (n % 36)]
  | fuel + 1, position, n =>
    let t := threshold position bias
    if n < t then [digit n]
    else
      digit (t + (n - t) % (36 - t)) :: digits bias fuel (position + 36) ((n - t) / (36 - t))

/-- Divide a distance by 35 until it is small; `fuel` bounds how often. -/
def damped : (fuel steps distance : Nat) → Nat
  | 0, steps, _ => steps
  | fuel + 1, steps, distance =>
    if 455 < distance then damped fuel (steps + 36) (distance / 35)
    else steps + 36 * distance / (distance + 38)

/-- The bias after a distance to the `count`-th character was written. -/
def adapt (distance count : Nat) (isFirst : Bool) : Nat :=
  let d := if isFirst then distance / 700 else distance / 2
  let d := d + d / count
  damped (d.log2 + 1) 0 d

/-- The work on a label: the digits so far, the distance since the last one, how many
characters are written, and the bias. -/
structure Work where
  written : List Char
  distance : Nat
  count : Nat
  bias : Nat

/-- Go past a character of the label when the characters of a code are written. -/
def pass (basic code : Nat) (w : Work) (c : Nat) : Work :=
  if c < code then { w with distance := w.distance + 1 }
  else if c = code then
    { written := w.written ++ digits w.bias (w.distance.log2 + 1) 36 w.distance
      distance := 0
      count := w.count + 1
      bias := adapt w.distance (w.count + 1) (w.count = basic) }
  else w

/-- Write the characters of the codes, of which `next` is the least that may come. -/
def writeCodes (label : List Nat) (basic : Nat) :
    (next : Nat) → List Nat → Work → List Char
  | _, [], w => w.written
  | next, code :: codes, w =>
    let w := { w with distance := w.distance + (code - next) * (w.count + 1) }
    let w := label.foldl (pass basic code) w
    writeCodes label basic (code + 1) codes { w with distance := w.distance + 1 }

/-- A label in ASCII, without the mark of such labels. -/
def encode (label : List Char) : List Char :=
  let codes := label.map Char.toNat
  let basic := label.filter fun c => c.toNat < 128
  let others := ((codes.filter (128 ≤ ·)).eraseDups).mergeSort fun a b => a ≤ b
  let start := if basic.isEmpty then [] else basic ++ ['-']
  start ++ writeCodes codes basic.length 128 others
    { written := [], distance := 0, count := basic.length, bias := 72 }

/-- A label as it is sent. -/
def label (s : List Char) : List Char :=
  if s.all fun c => c.toNat < 128 then s else "xn--".toList ++ encode s

end Hypermedia.Punycode
