/-!
# Doubles as exact numbers

A finite double is `± mantissa · 2 ^ exponent` with a mantissa below `2 ^ 53` and an exponent from
`-1074` to `971`.  It is held in that form, so reading and printing decimals is exact arithmetic
on natural numbers.  `Magnitude.nearest` rounds a fraction to the nearest such number, a tie going
to the even mantissa.
-/
namespace BackOffice
namespace Decimal

/-- The number `mantissa · 2 ^ exponent`. -/
structure Magnitude where
  mantissa : Nat
  exponent : Int
deriving DecidableEq, Repr

/-- A finite double. -/
structure Binary64 where
  negative  : Bool
  magnitude : Magnitude
deriving DecidableEq, Repr

namespace Magnitude

def zero : Magnitude := ⟨0, -1074⟩

def isZero (m : Magnitude) : Bool := m.mantissa == 0

/-- The quotient `num / den` rounded to a natural number, a tie going to the even one. -/
def divideToEven (num den : Nat) : Nat :=
  let q := num / den
  let r := num % den
  if 2 * r < den then q
  else if den < 2 * r then q + 1
  else if q % 2 = 0 then q else q + 1

/-- The fraction `num / den` divided by `2 ^ e`, as a fraction again. -/
def shiftDown (num den : Nat) (e : Int) : Nat × Nat :=
  if 0 ≤ e then (num, den * Nat.pow 2 e.toNat) else (num * Nat.pow 2 (-e).toNat, den)

/-- The exponent at which `num / den` has a mantissa of 53 bits, or the least there is. -/
def exponentOf (num den : Nat) : Int :=
  let e : Int := (num.log2 : Int) - (den.log2 : Int) - 52
  let s := shiftDown num den e
  max (if s.1 < s.2 * Nat.pow 2 52 then e - 1 else e) (-1074)

/-- The magnitude nearest to `num / den`, or nothing where that lies beyond the greatest one. -/
def nearest (num den : Nat) : Option Magnitude :=
  if num = 0 then some zero
  else
    let e := exponentOf num den
    let s := shiftDown num den e
    let m := divideToEven s.1 s.2
    let r : Magnitude := if m = Nat.pow 2 53 then ⟨Nat.pow 2 52, e + 1⟩ else ⟨m, e⟩
    if 971 < r.exponent then none else some r

/-- The magnitude as a fraction of natural numbers. -/
def fraction (m : Magnitude) : Nat × Nat :=
  if 0 ≤ m.exponent then (m.mantissa * Nat.pow 2 m.exponent.toNat, 1)
  else (m.mantissa, Nat.pow 2 (-m.exponent).toNat)

/-- The product, rounded; nothing where it is too large. -/
def mul (a b : Magnitude) : Option Magnitude :=
  nearest (a.fraction.1 * b.fraction.1) (a.fraction.2 * b.fraction.2)

/-- The quotient by a magnitude that is not zero, rounded. -/
def div (a b : Magnitude) : Magnitude :=
  (nearest (a.fraction.1 * b.fraction.2) (a.fraction.2 * b.fraction.1)).getD zero

/-- The magnitude nearest to `10 ^ n`, for `n` up to 308. -/
def tenTo (n : Nat) : Magnitude := (nearest (Nat.pow 10 n) 1).getD zero

/-- Divides by `10 ^ n`, by at most 308 powers of ten at a time. -/
def scaleDown (m : Magnitude) (n : Nat) : Magnitude :=
  if n ≤ 308 then m.div (tenTo n)
  else if m.isZero then m
  else scaleDown (m.div (tenTo 308)) (n - 308)
termination_by n

/-- The double that `significand · 10 ^ exponent` is read as: the significand is rounded first and
then scaled by a power of ten that is itself a double, so the result may differ from the nearest
double in its last bit.  Nothing for a number beyond the greatest double. -/
def ofDecimal (significand : Nat) (exponent : Int) : Option Magnitude :=
  match nearest significand 1 with
  | none   => none
  | some m =>
    if 0 ≤ exponent then
      if exponent ≤ 308 then m.mul (tenTo exponent.toNat)
      else if m.isZero then some m else none
    else some (m.scaleDown (-exponent).toNat)

end Magnitude
end Decimal
end BackOffice
