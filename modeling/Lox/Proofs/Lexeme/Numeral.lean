import Lox.Proofs.Lexeme.Covered

/-!
Contract: texts that are numbers.

A number may be written with a sign, as a name, with a point at either end and with a power of
ten, and not every text is one. Literals are written in two of these ways only, as digits and as
digits with a fraction. So reading the text of a literal never fails, and reads the value that the
literal has.

Main statements: `Number.ofText?_whole`, `Number.ofText?_decimal`.

Owns: reading of number texts. Does not own: which texts are literals.
-/

set_option autoImplicit false

namespace Lox

namespace Number

/-- The whole number written with these digits, if there are any and nothing else. -/
def natural? (text : List Char) : Option Nat :=
  if text ≠ [] ∧ text.all Char.isDigit then some (naturalOfDigits text) else none

/-- The power of ten that follows the digits of a number, zero if nothing does. -/
def power? : List Char → Option Int
  | [] => some 0
  | mark :: text =>
      if mark = 'e' ∨ mark = 'E' then
        match text with
        | '-' :: digits => (natural? digits).map fun power => -(power : Int)
        | '+' :: digits => (natural? digits).map Int.ofNat
        | digits => (natural? digits).map Int.ofNat
      else none

/-- The nearest number to so many steps of a power of ten. -/
def scaled (steps : Nat) (power : Int) : Float :=
  Float.ofScientific steps (decide (power ≤ 0)) power.natAbs

/-- The digits behind a point, if a point begins here, and what follows them. -/
def splitFraction : List Char → List Char × List Char
  | '.' :: rest => (rest.takeWhile Char.isDigit, rest.dropWhile Char.isDigit)
  | text => ([], text)

/-- The number written with digits, at least one, with or without a point and a power of ten. -/
def decimal? (text : List Char) : Option Float :=
  let whole := text.takeWhile Char.isDigit
  let (fraction, rest) := splitFraction (text.dropWhile Char.isDigit)
  if whole = [] ∧ fraction = [] then none
  else
    (power? rest).map fun power =>
      scaled (naturalOfDigits (whole ++ fraction)) (power - (fraction.length : Int))

/-- The number with this name, whatever the case of its letters. -/
def named? (text : List Char) : Option Float :=
  let name := text.map Char.toLower
  if name = "nan".toList then some (0.0 / 0.0)
  else if name = "inf".toList ∨ name = "infinity".toList then some (1.0 / 0.0)
  else none

/-- The number that a text without a sign stands for. -/
def unsigned? (text : List Char) : Option Float :=
  (named? text).or (decimal? text)

/-- The number that a text stands for, if it stands for one: an optional sign in front of a name
or of digits. -/
def ofText? : List Char → Option Float
  | '-' :: text => (unsigned? text).map Float.neg
  | '+' :: text => unsigned? text
  | text => unsigned? text

/-! ## Digits -/

theorem toLower_of_isDigit {character : Char} (digit : character.isDigit = true) :
    character.toLower = character := by
  simp only [Char.isDigit, Bool.and_eq_true, decide_eq_true_eq] at digit
  refine dif_neg fun upper => ?_
  have reaches : 'A'.val ≤ '9'.val := UInt32.le_trans upper.1 digit.2
  exact absurd reaches (by decide)

/-- A text that begins with a digit is no name. -/
theorem named?_eq_none {first : Char} (digit : first.isDigit = true) (rest : List Char) :
    named? (first :: rest) = none := by
  have other (letter : Char) (notDigit : letter.isDigit = false) : first ≠ letter := by
    rintro rfl
    rw [digit] at notDigit
    cases notDigit
  simp [named?, toLower_of_isDigit digit, other 'n' rfl, other 'i' rfl]

/-- Digits and what is behind them are read to the end if they are followed by a fraction or by
nothing. -/
theorem ofText?_append {whole tail fraction : List Char} (some : whole ≠ [])
    (digital : ∀ character ∈ whole, character.isDigit = true)
    (stops : ∀ character ∈ tail.head?, character.isDigit = false)
    (splits : splitFraction tail = (fraction, [])) :
    ofText? (whole ++ tail) = .some (ofLiteral whole fraction) := by
  have decimal : decimal? (whole ++ tail) = .some (ofLiteral whole fraction) := by
    rw [decimal?, Lexeme.takeWhile_append_of_head digital stops,
      Lexeme.dropWhile_append_of_head digital stops, splits]
    simp [some, power?, scaled, ofLiteral]
  obtain ⟨first, rest, rfl⟩ := List.exists_cons_of_ne_nil some
  have digit := digital first List.mem_cons_self
  have unsigned : unsigned? (first :: rest ++ tail) = .some (ofLiteral (first :: rest) fraction) := by
    rw [unsigned?, decimal, List.cons_append, named?_eq_none digit, Option.none_or]
  rw [← unsigned, List.cons_append, ofText?]
  · rintro _ same
    cases same
    cases digit
  · rintro _ same
    cases same
    cases digit

/-! ## Literals -/

/-- Digits alone are read. -/
theorem ofText?_whole {digits : List Char} (some : digits ≠ [])
    (digital : ∀ character ∈ digits, character.isDigit = true) :
    ofText? digits = .some (ofLiteral digits []) := by
  have stops : ∀ character ∈ ([] : List Char).head?, character.isDigit = false := nofun
  have read := ofText?_append some digital stops rfl
  rwa [List.append_nil] at read

/-- Digits are read with the fraction behind them. -/
theorem ofText?_decimal {digits fraction : List Char} (some : digits ≠ [])
    (digital : ∀ character ∈ digits, character.isDigit = true)
    (digitalBehind : ∀ character ∈ fraction, character.isDigit = true) :
    ofText? (digits ++ '.' :: fraction) = .some (ofLiteral digits fraction) := by
  refine ofText?_append some digital (fun character isPoint => ?_) ?_
  · obtain rfl := Option.some.inj isPoint
    rfl
  · rw [splitFraction, List.takeWhile_eq_self_iff.mpr digitalBehind,
      List.dropWhile_eq_nil_iff.mpr digitalBehind]

/-- Signs, names and powers of ten are read, and a point alone is not. -/
example : (ofText? "-.5E+1".toList).isSome = true ∧ (ofText? "Infinity".toList).isSome = true ∧
    ofText? ".".toList = none ∧ ofText? "1e".toList = none ∧ ofText? "1..2".toList = none ∧
    ofText? "".toList = none := by decide

end Number

end Lox
