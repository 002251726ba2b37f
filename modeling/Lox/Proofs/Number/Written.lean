import Lox.Proofs.Lexeme.Longest
import Lox.Proofs.Number.ReadBack
import Mathlib.Data.List.DropRight

/-!
Contract: the text of a finite number belongs to no other number.

A literal in a printed tree is written with digits, and with a point and digits behind them or
not. Read as a decimal, the text stands for the shortest decimal of the number, wherever the point
is and however many zeros fill the places. So numbers with one text are one number.

Main statements: `Layout.numeral_magnitudeText`, `Layout.text_injective`.

Owns: texts in full. Does not own: texts with exponents.
-/

set_option autoImplicit false

namespace Lox.Number

open Lexeme (Numeral)

/-! ## Runs of digits -/

theorem naturalOfDigits_append_singleton (digits : List Char) (digit : Char) :
    naturalOfDigits (digits ++ [digit]) =
      naturalOfDigits digits * 10 + (digit.toNat - '0'.toNat) := by
  simp [naturalOfDigits]

/-- Each zero behind digits makes ten times their value. -/
theorem naturalOfDigits_append_zeros (digits : List Char) (count : ℕ) :
    naturalOfDigits (digits ++ List.replicate count '0') = naturalOfDigits digits * 10 ^ count := by
  induction count with
  | zero => simp
  | succ count inductionHypothesis =>
      rw [List.replicate_succ', ← List.append_assoc, naturalOfDigits_append_singleton,
        inductionHypothesis, Nat.sub_self, Nat.add_zero, Nat.mul_assoc, ← Nat.pow_succ]

/-- Zeros in front of digits do not matter. -/
theorem naturalOfDigits_zeros_append (count : ℕ) (digits : List Char) :
    naturalOfDigits (List.replicate count '0' ++ digits) = naturalOfDigits digits := by
  have zeros : naturalOfDigits (List.replicate count '0') = 0 := by
    have empty := naturalOfDigits_append_zeros [] count
    rwa [List.nil_append, show naturalOfDigits [] = 0 from rfl, Nat.zero_mul] at empty
  rw [naturalOfDigits, naturalOfDigits, List.foldl_append]
  exact congrArg (List.foldl _ · digits) zeros

theorem naturalOfDigits_toDigits (number : ℕ) :
    naturalOfDigits (Nat.toDigits 10 number) = number := by
  have same := @Nat.ofDigitChars_toDigits 10 number (by decide) (by decide)
  rw [Nat.ofDigitChars_eq_foldl] at same
  simpa only [naturalOfDigits, Nat.mul_comm] using same

/-! ## Trimmed decimals -/

namespace Decimal

/-- The digits of a decimal are the trimmed ones and zeros behind them. -/
theorem toDigits_eq_trimmed (decimal : Decimal) : ∃ count : ℕ,
    Nat.toDigits 10 decimal.digits = decimal.trimmed.1 ++ List.replicate count '0' ∧
      decimal.trimmed.2 = decimal.exponent + count := by
  let digits := Nat.toDigits 10 decimal.digits
  have split : decimal.trimmed.1 ++ digits.rtakeWhile (· == '0') = digits :=
    List.rdropWhile_append_rtakeWhile
  have zeros : digits.rtakeWhile (· == '0') =
      List.replicate (digits.rtakeWhile (· == '0')).length '0' :=
    List.eq_replicate_length.mpr fun character member => by
      simpa using List.mem_rtakeWhile_imp member
  refine ⟨(digits.rtakeWhile (· == '0')).length, ?_, ?_⟩
  · rw [← zeros]
    exact split.symm
  · have lengths := congrArg List.length split
    rw [List.length_append] at lengths
    show decimal.exponent + ((digits.length - decimal.trimmed.1.length : ℕ) : ℤ) = _
    rw [← lengths, Nat.add_sub_cancel_left]

theorem isDigit_of_mem_trimmed {decimal : Decimal} {character : Char}
    (member : character ∈ decimal.trimmed.1) : character.isDigit = true := by
  obtain ⟨count, same, _⟩ := decimal.toDigits_eq_trimmed
  have among : character ∈ Nat.toDigits 10 decimal.digits := by
    rw [same]
    exact List.mem_append_left _ member
  exact Nat.isDigit_of_mem_toDigits (by decide) (by decide) among

/-- Trimming keeps the value. -/
theorem value_trimmed (decimal : Decimal) :
    (⟨naturalOfDigits decimal.trimmed.1, decimal.trimmed.2⟩ : Decimal).value = decimal.value := by
  obtain ⟨count, digits, exponent⟩ := decimal.toDigits_eq_trimmed
  have number := naturalOfDigits_toDigits decimal.digits
  rw [digits, naturalOfDigits_append_zeros] at number
  rw [value, value, ← number, exponent, zpow_add₀ (by norm_num), zpow_natCast]
  push_cast
  ring

/-! ## Texts -/

/-- The decimal that digits stand for, or digits and a fraction. -/
def ofText (text : List Char) : Decimal :=
  let whole := text.takeWhile Char.isDigit
  let fraction := (splitFraction (text.dropWhile Char.isDigit)).1
  ⟨naturalOfDigits (whole ++ fraction), -(fraction.length : ℤ)⟩

theorem ofText_whole {digits : List Char}
    (digital : ∀ character ∈ digits, character.isDigit = true) :
    ofText digits = ⟨naturalOfDigits digits, 0⟩ := by
  simp [ofText, List.takeWhile_eq_self_iff.mpr digital, List.dropWhile_eq_nil_iff.mpr digital,
    splitFraction]

theorem ofText_decimal {digits fraction : List Char}
    (digital : ∀ character ∈ digits, character.isDigit = true)
    (digitalBehind : ∀ character ∈ fraction, character.isDigit = true) :
    ofText (digits ++ '.' :: fraction) =
      ⟨naturalOfDigits (digits ++ fraction), -(fraction.length : ℤ)⟩ := by
  have stops : ∀ character ∈ ('.' :: fraction).head?, character.isDigit = false := by
    intro character isPoint
    obtain rfl := Option.some.inj isPoint
    rfl
  rw [ofText, Lexeme.takeWhile_append_of_head digital stops,
    Lexeme.dropWhile_append_of_head digital stops, splitFraction,
    List.takeWhile_eq_self_iff.mpr digitalBehind]

end Decimal

/-- How digits with an exponent are written out in full: with zeros in front of a fraction that
needs them, and with a point unless the number is whole. -/
theorem toList_positionalText (digits : List Char) (exponent : ℤ) :
    (positionalText "" digits exponent).toList =
      if 0 ≤ exponent then digits ++ List.replicate exponent.toNat '0'
      else if (-exponent).toNat < digits.length then
        digits.take (digits.length - (-exponent).toNat) ++
          '.' :: digits.drop (digits.length - (-exponent).toNat)
      else ['0'] ++
        '.' :: (List.replicate ((-exponent).toNat - digits.length) '0' ++ digits) := by
  simp only [positionalText]
  split
  · simp
  · split <;> simp

section Positional

variable {digits : List Char}

theorem forall_isDigit_append_zeros (digital : ∀ character ∈ digits, character.isDigit = true)
    (count : ℕ) :
    (∀ character ∈ digits ++ List.replicate count '0', character.isDigit = true) ∧
      ∀ character ∈ List.replicate count '0' ++ digits, character.isDigit = true := by
  have zero : ∀ character ∈ List.replicate count '0', character.isDigit = true :=
    fun character member => List.eq_of_mem_replicate member ▸ rfl
  exact ⟨List.forall_mem_append.mpr ⟨digital, zero⟩, List.forall_mem_append.mpr ⟨zero, digital⟩⟩

/-- Written out in full, digits with an exponent keep their value. -/
theorem value_positionalText (digital : ∀ character ∈ digits, character.isDigit = true)
    (exponent : ℤ) :
    (Decimal.ofText (positionalText "" digits exponent).toList).value =
      (⟨naturalOfDigits digits, exponent⟩ : Decimal).value := by
  rw [toList_positionalText]
  split
  · next whole =>
      rw [Decimal.ofText_whole (forall_isDigit_append_zeros digital _).1,
        naturalOfDigits_append_zeros, Decimal.value, Decimal.value]
      push_cast
      rw [← zpow_natCast, Int.toNat_of_nonneg whole, mul_one]
  · split
    · next fractional less =>
        rw [Decimal.ofText_decimal (fun _ member => digital _ (List.mem_of_mem_take member))
          (fun _ member => digital _ (List.mem_of_mem_drop member)), List.take_append_drop]
        congr 2
        rw [List.length_drop]
        omega
    · next fractional more =>
        rw [Decimal.ofText_decimal (List.forall_mem_singleton.mpr rfl)
          (forall_isDigit_append_zeros digital _).2]
        congr 2
        · exact (naturalOfDigits_zeros_append 1 _).trans (naturalOfDigits_zeros_append _ digits)
        · rw [List.length_append, List.length_replicate]
          omega

/-- Digits written out in full are digits, or digits and a fraction. -/
theorem numeral_positionalText (some : digits ≠ [])
    (digital : ∀ character ∈ digits, character.isDigit = true) (exponent : ℤ) :
    Numeral (positionalText "" digits exponent).toList := by
  have digit {text : List Char} (pass : ∀ character ∈ text, character.isDigit = true) :
      ∀ character ∈ text, Lexeme.Digit character :=
    fun character member => (Lexeme.isDigit_iff character).mp (pass character member)
  rw [toList_positionalText]
  split
  · exact .whole (by simp [some]) (digit (forall_isDigit_append_zeros digital _).1)
  · split
    · next fractional less =>
        refine .decimal (fun empty => ?_)
          (digit fun _ member => digital _ (List.mem_of_mem_take member)) (fun empty => ?_)
          (digit fun _ member => digital _ (List.mem_of_mem_drop member))
        · have length := congrArg List.length empty
          rw [List.length_take, List.length_nil] at length
          omega
        · have length := congrArg List.length empty
          rw [List.length_drop, List.length_nil] at length
          omega
    · exact .decimal (by decide) (digit (List.forall_mem_singleton.mpr rfl)) (by simp [some])
        (digit (forall_isDigit_append_zeros digital _).2)

end Positional

/-! ## Magnitudes -/

namespace Layout

theorem magnitudeText_of_zero {magnitude : Magnitude} (zero : magnitude.significand = 0) :
    tree.magnitudeText magnitude = "0" := by
  rw [magnitudeText, if_pos zero]
  rfl

theorem magnitudeText_of_nonzero {magnitude : Magnitude} (nonzero : magnitude.significand ≠ 0) :
    tree.magnitudeText magnitude =
      positionalText "" magnitude.shortest.trimmed.1 magnitude.shortest.trimmed.2 := by
  rw [magnitudeText, if_neg nonzero]
  rfl

theorem value_shortest_pos {magnitude : Magnitude} (nonzero : magnitude.significand ≠ 0) :
    0 < magnitude.shortest.value := by
  refine lt_of_lt_of_le ?_ (Magnitude.contains_shortest nonzero).between.1
  have quarter : (0 : ℚ) < 2 ^ (magnitude.exponent - 2) := by positivity
  refine mul_pos (Nat.cast_pos.mpr ?_) quarter
  split <;> omega

/-- The text of a magnitude stands for zero or for the shortest decimal. -/
theorem value_magnitudeText (magnitude : Magnitude) :
    (Decimal.ofText (tree.magnitudeText magnitude).toList).value =
      if magnitude.significand = 0 then 0 else magnitude.shortest.value := by
  split
  · next zero =>
      have none : (Decimal.ofText "0".toList).digits = 0 := by decide
      rw [magnitudeText_of_zero zero, Decimal.value, none, Nat.cast_zero, zero_mul]
  · next nonzero =>
      rw [magnitudeText_of_nonzero nonzero,
        value_positionalText (fun _ => Decimal.isDigit_of_mem_trimmed), Decimal.value_trimmed]

/-- A magnitude is written as a literal is. -/
theorem numeral_magnitudeText (magnitude : Magnitude) :
    Numeral (tree.magnitudeText magnitude).toList := by
  by_cases zero : magnitude.significand = 0
  · rw [magnitudeText_of_zero zero]
    exact .whole (by decide) fun character member => (Lexeme.isDigit_iff character).mp (by
      obtain rfl := List.mem_singleton.mp member
      rfl)
  · rw [magnitudeText_of_nonzero zero]
    refine numeral_positionalText (fun empty => ?_) (fun _ => Decimal.isDigit_of_mem_trimmed) _
    have value := magnitude.shortest.value_trimmed
    rw [empty] at value
    have positive := value_shortest_pos zero
    rw [← value] at positive
    simp [Decimal.value, naturalOfDigits] at positive

theorem index_of_significand {index : ℕ} (zero : (Magnitude.ofIndex index).significand = 0) :
    index = 0 := by
  have size : binade = 4503599627370496 := rfl
  unfold Magnitude.ofIndex Magnitude.ofFields at zero
  rw [size] at zero
  split at zero
  · next subnormal =>
      have fraction : index % 4503599627370496 = 0 := zero
      omega
  · have significand : 4503599627370496 + index % 4503599627370496 = 0 := zero
    omega

/-- Magnitudes with one text have one index. -/
theorem index_of_magnitudeText {first second : ℕ}
    (same : tree.magnitudeText (.ofIndex first) = tree.magnitudeText (.ofIndex second)) :
    first = second := by
  have values := value_magnitudeText (.ofIndex first)
  rw [same, value_magnitudeText] at values
  split at values
  · next zero =>
      split at values
      · next zeroToo => exact (index_of_significand zeroToo).trans (index_of_significand zero).symm
      · next nonzero => exact absurd values (value_shortest_pos nonzero).ne
  · next nonzero =>
      split at values
      · exact absurd values (value_shortest_pos nonzero).ne'
      · next nonzeroToo =>
          have contains := Magnitude.contains_shortest nonzero
          rw [values] at contains
          exact Magnitude.index_unique (Magnitude.contains_shortest nonzeroToo) contains

/-! ## Numbers -/

/-- The bits of a finite number are its sign and its index. -/
theorem ofBits_finite {bits : ℕ} {negative : Bool} {magnitude : Magnitude}
    (shape : Shape.ofBits bits = .finite negative magnitude) :
    negative = (bits / 2 ^ 63 % 2 == 1) ∧ magnitude = .ofIndex (bits % 2 ^ 63) := by
  unfold Shape.ofBits at shape
  simp only [] at shape
  split at shape
  · split at shape <;> cases shape
  · obtain ⟨sign, fields⟩ := Shape.finite.inj shape
    refine ⟨sign.symm, ?_⟩
    rw [← fields, Magnitude.ofIndex]
    congr 1
    · show bits / 4503599627370496 % 2048 = bits % 9223372036854775808 / 4503599627370496
      omega
    · show bits % 4503599627370496 = bits % 9223372036854775808 % 4503599627370496
      omega

open Float.Model in
/-- A finite number has a magnitude. -/
theorem exists_shape {number : Float} (finite : number.isFinite = true) :
    ∃ negative magnitude, Shape.of number = .finite negative magnitude := by
  have inside : number.toModel.toBits.toNat / 2 ^ 52 % 2 ^ 11 ≠ 2047 := by
    intro top
    have exponent : @UnpackedFloat.unpackExponent .binary64 number.toModel.toBits.toBitVec =
        -1#11 := by
      apply BitVec.eq_of_toNat_eq
      simpa [UnpackedFloat.unpackExponent, Nat.shiftRight_eq_div_pow] using top
    have unpacked : UnpackedFloat.unpack .binary64 number.toModel.toBits.toBitVec = _ :=
      if_pos exponent
    have infinite : number.isFinite = false := by
      refine (congrArg UnpackedFloat.isFinite unpacked).trans ?_
      split <;> rfl
    rw [finite] at infinite
    cases infinite
  exact ⟨_, _, if_neg inside⟩

/-- The text of a finite number, and its bits. -/
theorem text_of_finite {number : Float} (finite : number.isFinite = true) :
    tree.text number =
      (if number.toBits.toNat / 2 ^ 63 % 2 = 1 then "-" else "") ++
        tree.magnitudeText (.ofIndex (number.toBits.toNat % 2 ^ 63)) := by
  obtain ⟨negative, magnitude, shape⟩ := exists_shape finite
  obtain ⟨rfl, rfl⟩ := ofBits_finite shape
  rw [text, shape]
  simp

theorem sign_append_ne (first second : Magnitude) :
    "-" ++ tree.magnitudeText first ≠ tree.magnitudeText second := by
  intro same
  obtain ⟨character, rest, begins, digit⟩ := (numeral_magnitudeText second).exists_first
  rw [← same, String.toList_append] at begins
  obtain rfl : '-' = character := (List.cons.inj begins).1
  exact absurd digit (by decide)

/-- Finite numbers with one text are one number. -/
theorem text_injective {first second : Float} (finite : first.isFinite = true)
    (finiteToo : second.isFinite = true) (same : tree.text first = tree.text second) :
    first = second := by
  rw [text_of_finite finite, text_of_finite finiteToo] at same
  have inBits := first.toBits.toNat_lt
  have inBitsToo := second.toBits.toNat_lt
  have signs : first.toBits.toNat / 2 ^ 63 % 2 = 1 ↔ second.toBits.toNat / 2 ^ 63 % 2 = 1 := by
    by_cases negative : first.toBits.toNat / 2 ^ 63 % 2 = 1 <;>
      by_cases negativeToo : second.toBits.toNat / 2 ^ 63 % 2 = 1
    · exact iff_of_true negative negativeToo
    · rw [if_pos negative, if_neg negativeToo, String.empty_append] at same
      exact absurd same (sign_append_ne _ _)
    · rw [if_neg negative, if_pos negativeToo, String.empty_append] at same
      exact absurd same.symm (sign_append_ne _ _)
    · exact iff_of_false negative negativeToo
  rw [if_congr signs rfl rfl] at same
  have indices := index_of_magnitudeText (String.append_right_inj _ |>.mp same)
  have sameBits : first.toBits = second.toBits := UInt64.toNat_inj.mp (by omega)
  obtain ⟨⟨bits, _⟩⟩ := first
  obtain ⟨⟨bitsToo, _⟩⟩ := second
  obtain rfl : bits = bitsToo := sameBits
  rfl

end Layout

end Lox.Number
