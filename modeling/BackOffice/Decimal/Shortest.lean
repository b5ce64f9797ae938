import BackOffice.Decimal.Binary64
/-!
# Shortest decimal text of a double

A double is written with the fewest digits that still read back as it.  The numbers that round to
a double form an interval, whose ends belong to it where the mantissa is even.  For one digit, two
digits and so on up to seventeen, the two neighbours of the double on the grid of decimals with
that many digits are tried; the first grid with a neighbour inside the interval gives the digits,
the nearer neighbour winning and a tie going to the even one.
-/
namespace BackOffice
namespace Decimal

/-- The interval of numbers that round to a magnitude, on the common denominator `den`. -/
structure Interval where
  low    : Nat
  value  : Nat
  high   : Nat
  den    : Nat
  closed : Bool

/-- The half-way points to the neighbours below and above; below a power of two the gap is half as
wide. -/
def Magnitude.interval (m : Magnitude) : Interval :=
  let narrow : Bool := m.mantissa == Nat.pow 2 52 && decide (-1074 < m.exponent)
  let low := if narrow then 4 * m.mantissa - 1 else 4 * m.mantissa - 2
  let scale : Nat × Nat :=
    if 2 ≤ m.exponent then (Nat.pow 2 (m.exponent - 2).toNat, 1)
    else (1, Nat.pow 2 (2 - m.exponent).toNat)
  { low := low * scale.1
    value := 4 * m.mantissa * scale.1
    high := (4 * m.mantissa + 2) * scale.1
    den := scale.2
    closed := m.mantissa % 2 == 0 }

/-- The power `10 ^ place` as a fraction. -/
def tenPower (place : Int) : Nat × Nat :=
  if 0 ≤ place then (Nat.pow 10 place.toNat, 1) else (1, Nat.pow 10 (-place).toNat)

/-- Whether `digits · 10 ^ place` lies in the interval. -/
def Interval.holds (i : Interval) (digits : Nat) (place : Int) : Bool :=
  let s := tenPower place
  let x := digits * s.1 * i.den
  let low := i.low * s.2
  let high := i.high * s.2
  if i.closed then decide (low ≤ x) && decide (x ≤ high) else decide (low < x) && decide (x < high)

/-- Of the two neighbours on the grid of multiples of `10 ^ place`, the one to be printed, if any
reads back. -/
def Interval.onGrid (i : Interval) (place : Int) : Option Nat :=
  let s := tenPower place
  let num := i.value * s.2
  let den := i.den * s.1
  let below := num / den
  let nearer := Magnitude.divideToEven num den
  if i.holds nearer place && decide (0 < nearer) then some nearer
  else
    let other := if nearer = below then below + 1 else below
    if i.holds other place && decide (0 < other) then some other else none

/-- How many digits stand before the point of `num / den`; negative by as many zeros as follow it.
The places are tried from `k` downwards, at most as many as the third argument tells. -/
def leadingPlace (num den : Nat) : Nat → Int → Int
  | 0,         k => k
  | steps + 1, k =>
    let s := tenPower (k - 1)
    if den * s.1 ≤ num * s.2 then k else leadingPlace num den steps (k - 1)

/-- Tries grids of `count` digits, `count + 1` digits and so on. -/
def Interval.shortestFrom (i : Interval) (k : Int) : Nat → Nat → Nat × Int
  | 0,         count => (i.value / i.den, k - count)
  | steps + 1, count =>
    match i.onGrid (k - count) with
    | some digits => (digits, k - count)
    | none        => i.shortestFrom k steps (count + 1)

/-- An upper bound for the digits before the point, from the sizes of the parts in bits. -/
def placeBound (num den : Nat) : Int :=
  (((num.log2 : Int) + 1 - (den.log2 : Int)) * 30103 + 99999) / 100000 + 1

/-- The shortest digits of a magnitude that is not zero, with the power of ten of the last one. -/
def Magnitude.shortest (m : Magnitude) : Nat × Int :=
  let i := m.interval
  i.shortestFrom (leadingPlace i.value i.den 4 (placeBound i.value i.den)) 17 1

/-- Drops zeros from the end of the digits. -/
def stripZeros : Nat → Nat → Int → Nat × Int
  | 0,        d, p => (d, p)
  | fuel + 1, d, p => if d ≠ 0 ∧ d % 10 = 0 then stripZeros fuel (d / 10) (p + 1) else (d, p)

/-- Where positional notation ends: a number is written with a point if it is below
`10 ^ above` and has fewer than `zeros` zeros between the point and its first digit. -/
structure Positional where
  above : Int
  zeros : Int

/-- Doubles are positional from `1e-5` up to, but not including, `1e16`. -/
def Positional.wire : Positional := ⟨16, 5⟩

/-- An exponent with its sign and as few digits as it has. -/
def exponentText (e : Int) : List Char :=
  'e' :: (if e < 0 then '-' else '+') :: Nat.toDigits 10 e.natAbs

/-- Lays out digits whose last has the place `p`: positional with at least one digit on either
side of the point, or scientific with a sign on the exponent. -/
def layout (n : Positional) (digits : List Char) (p : Int) : List Char :=
  let k : Int := digits.length + p
  if 0 ≤ p ∧ k ≤ n.above then
    digits ++ List.replicate p.toNat '0' ++ ['.', '0']
  else if 0 < k ∧ k ≤ n.above then
    digits.take k.toNat ++ '.' :: digits.drop k.toNat
  else if -n.zeros < k ∧ k ≤ 0 then
    '0' :: '.' :: (List.replicate (-k).toNat '0' ++ digits)
  else
    let e := exponentText (k - 1)
    match digits with
    | [d]     => d :: e
    | d :: ds => d :: '.' :: (ds ++ e)
    | []      => e

/-- The text of a double. -/
def Binary64.text (x : Binary64) : List Char :=
  let body :=
    if x.magnitude.isZero then ['0', '.', '0']
    else
      let s := x.magnitude.shortest
      let d := stripZeros 20 s.1 s.2
      layout Positional.wire (Nat.toDigits 10 d.1) d.2
  if x.negative then '-' :: body else body

end Decimal
end BackOffice
