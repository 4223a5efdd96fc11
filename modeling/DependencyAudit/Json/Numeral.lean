/-!
Numerals and the range of double precision.  A numeral is refused when its
value has no finite double.  The value is taken as a significand of at most
sixty-four bits times a power of ten, each rounded to a double first, so the
border lies where the product of the two doubles is rounded to infinity.
-/

namespace DependencyAudit.Json

/-- The digits of a numeral without its sign, and its exponent. -/
structure Numeral where
  whole : List Nat
  fraction : List Nat
  exponent : Int

namespace Numeral

/-- Whether a significand fits into sixty-four bits. -/
def fits (significand : Nat) : Bool :=
  significand < 18446744073709551616

/-- Takes whole digits into the significand while it fits; each one from the
first that does not raises the exponent instead. -/
def takeWhole (significand : Nat) : List Nat → Nat × Nat
  | [] => (significand, 0)
  | d :: ds =>
    if fits (10 * significand + d) then takeWhole (10 * significand + d) ds
    else (significand, ds.length + 1)

/-- Takes digits of the fraction into the significand while it fits; each one
lowers the exponent, and the rest count for nothing. -/
def takeFraction (significand : Nat) : List Nat → Nat × Nat
  | [] => (significand, 0)
  | d :: ds =>
    if fits (10 * significand + d) then
      let (significand, places) := takeFraction (10 * significand + d) ds
      (significand, places + 1)
    else (significand, 0)

/-- Significand and power of ten. -/
def parts (n : Numeral) : Nat × Int :=
  let (significand, raised) := takeWhole 0 n.whole
  let (significand, places) := takeFraction significand n.fraction
  (significand, n.exponent + raised - places)

/-- The nearest number with at most fifty-three significant bits; of two, the
one whose last bit is zero. -/
def roundBits (n : Nat) : Nat :=
  let unit := Nat.pow 2 (n.log2 - 52)
  let quotient := n / unit
  let rest := n % unit
  if 2 * rest < unit ∨ (2 * rest = unit ∧ quotient % 2 = 0) then quotient * unit
  else (quotient + 1) * unit

/-- Half a unit above the greatest double; from here on rounding gives infinity. -/
def overflowBound : Nat :=
  Nat.pow 2 1024 - Nat.pow 2 970

/-- Whether the numeral's value is a finite double. -/
def inRange (n : Numeral) : Bool :=
  let (significand, power) := n.parts
  significand = 0 || power < 0 ||
    (power ≤ 308 && roundBits significand * roundBits (Nat.pow 10 power.toNat) < overflowBound)

end Numeral

end DependencyAudit.Json
