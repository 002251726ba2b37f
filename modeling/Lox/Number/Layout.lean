import Lox.Number.Shortest

/-!
Contract: the text of numbers.

A layout says where exponents begin, whether a whole number keeps a point, and
how infinity is spelled. Three layouts are in use: values that a program
prints, literals in a printed syntax tree, and literals in a token listing.
Every one of them writes the shortest digits that read back.

Owns: the three layouts, the reading of number literals. Does not own: the
choice of digits.
-/

namespace Lox.Number

/-- How numbers are written. -/
structure Layout where
  /-- The text of positive infinity. -/
  infinity : String
  /-- What follows a whole number. -/
  wholeSuffix : String
  /-- The exponents of the leading digit that are written without an exponent,
  from the first to before the second; all of them when there is no bound. -/
  positional : Option (Int × Int)

/-- Printed values are positional and bare, and infinity is spelled out. -/
def Layout.value : Layout := ⟨"Infinity", "", none⟩

/-- Literals of a printed tree are positional and bare. -/
def Layout.tree : Layout := ⟨"inf", "", none⟩

/-- A token listing keeps the point of whole numbers and turns to exponents
below `1e-4` and from `1e16` on. -/
def Layout.listing : Layout := ⟨"inf", ".0", some (-4, 16)⟩

/-- The digits of a decimal without trailing zeros, and the exponent that
belongs to them. -/
def Decimal.trimmed (decimal : Decimal) : List Char × Int :=
  let digits := Nat.toDigits 10 decimal.digits
  let kept := (digits.reverse.dropWhile (· == '0')).reverse
  (kept, decimal.exponent + ((digits.length - kept.length : Nat) : Int))

/-- Writes digits out in full, `wholeSuffix` after a number without fraction. -/
def positionalText (wholeSuffix : String) (digits : List Char) (exponent : Int) : String :=
  if 0 ≤ exponent then
    String.ofList (digits ++ List.replicate exponent.toNat '0') ++ wholeSuffix
  else
    let places := (-exponent).toNat
    if places < digits.length then
      String.ofList (digits.take (digits.length - places)) ++ "." ++
        String.ofList (digits.drop (digits.length - places))
    else
      "0." ++ String.ofList (List.replicate (places - digits.length) '0' ++ digits)

/-- Writes one digit before the point and the exponent of that digit. -/
def scientificText (digits : List Char) (leading : Int) : String :=
  let mantissa := match digits with
    | first :: second :: rest => String.ofList (first :: '.' :: second :: rest)
    | _ => String.ofList digits
  let sign := if leading < 0 then "-" else ""
  mantissa ++ "e" ++ sign ++ toString leading.natAbs

/-- The text of a magnitude. -/
def Layout.magnitudeText (layout : Layout) (magnitude : Magnitude) : String :=
  if magnitude.significand = 0 then
    "0" ++ layout.wholeSuffix
  else
    let (digits, exponent) := magnitude.shortest.trimmed
    let leading := exponent + (digits.length : Int) - 1
    let inFull := match layout.positional with
      | none => true
      | some (first, limit) => decide (first ≤ leading) && decide (leading < limit)
    if inFull then positionalText layout.wholeSuffix digits exponent
    else scientificText digits leading

/-- The text of a number. The sign of zero is shown, that of a number that is
none is not. -/
def Layout.text (layout : Layout) (number : Float) : String :=
  match Shape.of number with
  | .notANumber => "NaN"
  | .infinite negative => (if negative then "-" else "") ++ layout.infinity
  | .finite negative magnitude =>
      (if negative then "-" else "") ++ layout.magnitudeText magnitude

/-- The value of a run of decimal digits. -/
def naturalOfDigits (digits : List Char) : Nat :=
  digits.foldl (fun value digit => value * 10 + (digit.toNat - '0'.toNat)) 0

/-- The number that a literal stands for: the nearest one to the decimal
`whole.fraction`, ties going to the even significand. -/
def ofLiteral (whole fraction : List Char) : Float :=
  Float.ofScientific (naturalOfDigits (whole ++ fraction)) true fraction.length

end Lox.Number
