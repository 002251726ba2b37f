/-!
Contract: the fewest decimal digits that read back as a given binary64 number.

A finite number is a whole significand times a power of two. The reals that
round to it form an interval around it; its ends belong to it exactly when the
significand is even. `Magnitude.shortest` takes decimal grids from coarse to
fine and tests the two neighbours of the number on each: the first grid with a
neighbour inside the interval wins, of two the nearer, and of two equally near
the larger. All arithmetic is exact.

Owns: decoding of the bits, the interval, the choice of digits. Does not own:
how the digits are laid out as text.
-/

namespace Lox.Number

/-- A finite non-negative number, `significand * 2 ^ exponent`. The gap to the
number below is half the gap to the one above when `narrowBelow` holds. -/
structure Magnitude where
  significand : Nat
  exponent : Int
  narrowBelow : Bool
deriving DecidableEq, Repr

/-- A decimal, `digits * 10 ^ exponent`. -/
structure Decimal where
  digits : Nat
  exponent : Int
deriving DecidableEq, Repr

/-- What a binary64 number is, apart from arithmetic. -/
inductive Shape where
  | notANumber
  | infinite (negative : Bool)
  | finite (negative : Bool) (magnitude : Magnitude)
deriving DecidableEq, Repr

/-- How many numbers share one exponent, and the least significand of a normal
number. -/
def binade : Nat := Nat.pow 2 52

/-- The magnitude with this biased exponent, below 2047, and this fraction. -/
def Magnitude.ofFields (biased fraction : Nat) : Magnitude :=
  if biased = 0 then ⟨fraction, -1074, false⟩
  else ⟨binade + fraction, (biased : Int) - 1075, fraction == 0 && 1 < biased⟩

/-- Reads the sign, exponent and fraction fields of the bits. -/
def Shape.ofBits (bits : Nat) : Shape :=
  let negative := bits / Nat.pow 2 63 % 2 == 1
  let biased := bits / binade % Nat.pow 2 11
  let fraction := bits % binade
  if biased = 2047 then
    if fraction = 0 then .infinite negative else .notANumber
  else
    .finite negative (.ofFields biased fraction)

/-- The shape of a number. -/
def Shape.of (number : Float) : Shape :=
  Shape.ofBits number.toBits.toNat

/-- A magnitude and the ends of its interval, measured in steps of a power of
ten: each length stands over the common denominator `step`. -/
structure Gauge where
  lower : Nat
  value : Nat
  upper : Nat
  step : Nat
  closed : Bool
deriving DecidableEq, Repr

/-- Measures the magnitude and its interval in steps of `10 ^ power`. The ends
lie halfway to the neighbouring numbers, hence the quarters. -/
def Magnitude.gauge (magnitude : Magnitude) (power : Int) : Gauge :=
  let quarter := magnitude.exponent - 2
  let scale := Nat.pow 2 quarter.toNat * Nat.pow 10 (-power).toNat
  let whole := 4 * magnitude.significand
  { lower := (whole - if magnitude.narrowBelow then 1 else 2) * scale
    value := whole * scale
    upper := (whole + 2) * scale
    step := Nat.pow 2 (-quarter).toNat * Nat.pow 10 power.toNat
    closed := magnitude.significand % 2 == 0 }

/-- Whether so many steps end inside the interval. -/
def Gauge.admits (gauge : Gauge) (steps : Nat) : Bool :=
  let reach := steps * gauge.step
  decide (gauge.lower < reach ∧ reach < gauge.upper) ||
    (gauge.closed && (reach == gauge.lower || reach == gauge.upper))

/-- The whole number of steps next to the value that ends inside the interval;
of two the nearer, and the larger when both are equally near. -/
def Gauge.neighbour? (gauge : Gauge) : Option Nat :=
  let below := gauge.value / gauge.step
  let above := below + 1
  match gauge.admits below, gauge.admits above with
  | true, true =>
      if 2 * gauge.value < (below + above) * gauge.step then some below else some above
  | true, false => some below
  | false, true => some above
  | false, false => none

/-- Whether the decimal lies among the reals that round to the magnitude. -/
def Magnitude.readsBack (magnitude : Magnitude) (decimal : Decimal) : Bool :=
  (magnitude.gauge decimal.exponent).admits decimal.digits

/-- The decimal with this exponent that stands for the magnitude, if one does. -/
def Magnitude.decimalAt? (magnitude : Magnitude) (power : Int) : Option Decimal :=
  (magnitude.gauge power).neighbour?.map fun digits => ⟨digits, power⟩

/-- The exact value of the magnitude as a decimal. -/
def Magnitude.exact (magnitude : Magnitude) : Decimal :=
  if 0 ≤ magnitude.exponent then
    ⟨magnitude.significand * Nat.pow 2 magnitude.exponent.toNat, 0⟩
  else
    ⟨magnitude.significand * Nat.pow 5 (-magnitude.exponent).toNat, magnitude.exponent⟩

/-- An exponent whose power of ten exceeds the magnitude, from the binary
logarithm of the magnitude. -/
def Magnitude.topExponent (magnitude : Magnitude) : Int :=
  ((Nat.log2 magnitude.significand : Int) + 1 + magnitude.exponent) * 30103 / 100000 + 2

/-- The shortest decimal that reads back as the magnitude. Twenty-two exponents
are tried, which is more than seventeen digits need; the exact value stands
behind them so that every answer reads back. -/
def Magnitude.shortest (magnitude : Magnitude) : Decimal :=
  ((List.range 22).findSome? fun (index : Nat) =>
    magnitude.decimalAt? (magnitude.topExponent - (index : Int))).getD magnitude.exact

end Lox.Number
