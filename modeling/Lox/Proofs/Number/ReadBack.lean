import Lox.Number.Shortest
import Mathlib.Algebra.Order.Field.Power
import Mathlib.Algebra.Order.Field.Rat
import Mathlib.Order.Monotone.Basic
import Mathlib.Tactic.FieldSimp
import Mathlib.Tactic.Linarith
import Mathlib.Tactic.NormNum
import Mathlib.Tactic.Positivity
import Mathlib.Tactic.Ring

/-!
Contract: the shortest decimal of a number belongs to no other number.

The magnitudes of binary64 stand in a row, each under its index: the biased exponent and the
fraction, read as one whole number. The interval of each ends where that of the next begins, and
its ends belong to it if the index is even. So no rational lies in two of the intervals. The
shortest decimal of a magnitude lies in the interval of the magnitude.

Main statements: `Magnitude.contains_shortest`, `Magnitude.index_unique`.

Owns: the intervals over the rationals. Does not own: texts.
-/

set_option autoImplicit false

namespace Lox.Number

/-- The rational that the decimal stands for. -/
def Decimal.value (decimal : Decimal) : ℚ := decimal.digits * 10 ^ decimal.exponent

namespace Magnitude

/-- Where the interval of the magnitude begins. -/
def lowerEnd (magnitude : Magnitude) : ℚ :=
  ((4 * magnitude.significand - if magnitude.narrowBelow then 1 else 2 : ℕ) : ℚ) *
    2 ^ (magnitude.exponent - 2)

/-- Where the interval of the magnitude ends. -/
def upperEnd (magnitude : Magnitude) : ℚ :=
  ((4 * magnitude.significand + 2 : ℕ) : ℚ) * 2 ^ (magnitude.exponent - 2)

/-- The rational rounds to the magnitude. -/
def Contains (magnitude : Magnitude) (value : ℚ) : Prop :=
  (magnitude.lowerEnd < value ∧ value < magnitude.upperEnd) ∨
    (magnitude.significand % 2 = 0 ∧ (value = magnitude.lowerEnd ∨ value = magnitude.upperEnd))

/-! ## Gauges -/

/-- The power of an integer as a quotient of two powers of naturals. -/
theorem zpow_eq_div (base : ℚ) (nonzero : base ≠ 0) (power : ℤ) :
    base ^ power = base ^ power.toNat / base ^ (-power).toNat := by
  conv_lhs => rw [← Int.toNat_sub_toNat_neg power]
  rw [zpow_sub₀ nonzero, zpow_natCast, zpow_natCast]

/-- Products compare over their common denominator. -/
theorem mul_pow_lt_iff {base other : ℕ} (positive : 0 < base) (positiveToo : 0 < other)
    (first second : ℕ) (power powerToo : ℤ) :
    first * (base ^ power.toNat * other ^ (-powerToo).toNat) <
        second * (base ^ (-power).toNat * other ^ powerToo.toNat) ↔
      (first : ℚ) * base ^ power < second * other ^ powerToo := by
  rw [zpow_eq_div base (by positivity), zpow_eq_div other (by positivity), ← mul_div_assoc,
    ← mul_div_assoc, div_lt_div_iff₀ (by positivity) (by positivity), ← @Nat.cast_lt ℚ]
  push_cast
  ring_nf

/-- Lengths over the common denominator of a gauge compare like rationals. -/
theorem scaled_lt_iff (quarters steps : ℕ) (quarter power : ℤ) :
    quarters * (2 ^ quarter.toNat * 10 ^ (-power).toNat) <
        steps * (2 ^ (-quarter).toNat * 10 ^ power.toNat) ↔
      (quarters : ℚ) * 2 ^ quarter < steps * 10 ^ power :=
  mul_pow_lt_iff Nat.two_pos (Nat.succ_pos 9) quarters steps quarter power

theorem lt_scaled_iff (quarters steps : ℕ) (quarter power : ℤ) :
    steps * (2 ^ (-quarter).toNat * 10 ^ power.toNat) <
        quarters * (2 ^ quarter.toNat * 10 ^ (-power).toNat) ↔
      (steps : ℚ) * 10 ^ power < quarters * 2 ^ quarter := by
  rw [Nat.mul_comm (2 ^ (-quarter).toNat), Nat.mul_comm (2 ^ quarter.toNat)]
  exact mul_pow_lt_iff (Nat.succ_pos 9) Nat.two_pos steps quarters power quarter

theorem scaled_eq_iff (quarters steps : ℕ) (quarter power : ℤ) :
    steps * (2 ^ (-quarter).toNat * 10 ^ power.toNat) =
        quarters * (2 ^ quarter.toNat * 10 ^ (-power).toNat) ↔
      (steps : ℚ) * 10 ^ power = quarters * 2 ^ quarter := by
  have less := lt_scaled_iff quarters steps quarter power
  have more := scaled_lt_iff quarters steps quarter power
  constructor
  · intro same
    exact le_antisymm (not_lt.mp (mt more.mpr same.not_gt)) (not_lt.mp (mt less.mpr same.not_lt))
  · intro same
    exact Nat.le_antisymm (not_lt.mp (mt more.mp same.not_gt)) (not_lt.mp (mt less.mp same.not_lt))

theorem admits_iff (gauge : Gauge) (steps : ℕ) : gauge.admits steps = true ↔
    (gauge.lower < steps * gauge.step ∧ steps * gauge.step < gauge.upper) ∨
      (gauge.closed = true ∧
        (steps * gauge.step = gauge.lower ∨ steps * gauge.step = gauge.upper)) := by
  simp [Gauge.admits]

/-- A decimal that reads back as the magnitude rounds to it. -/
theorem contains_of_readsBack {magnitude : Magnitude} {decimal : Decimal}
    (reads : magnitude.readsBack decimal = true) : magnitude.Contains decimal.value := by
  have inside := (admits_iff _ _).mp reads
  simp only [gauge, Nat.pow_eq, beq_iff_eq] at inside
  rw [scaled_lt_iff, lt_scaled_iff, scaled_eq_iff, scaled_eq_iff] at inside
  exact inside

theorem readsBack_of_decimalAt? {magnitude : Magnitude} {power : ℤ} {decimal : Decimal}
    (found : magnitude.decimalAt? power = some decimal) : magnitude.readsBack decimal = true := by
  obtain ⟨digits, neighbour, rfl⟩ := Option.map_eq_some_iff.mp found
  simp only [Gauge.neighbour?] at neighbour
  simp only [readsBack]
  split at neighbour
  · split at neighbour <;> (cases neighbour; assumption)
  · cases neighbour
    assumption
  · cases neighbour
    assumption
  · cases neighbour

theorem value_exact (magnitude : Magnitude) :
    magnitude.exact.value = magnitude.significand * 2 ^ magnitude.exponent := by
  unfold exact Decimal.value
  split
  · next whole =>
      simp only [Nat.pow_eq, zpow_zero, mul_one]
      push_cast
      rw [← zpow_natCast, Int.toNat_of_nonneg whole]
  · next fractional =>
      have positive : 0 ≤ -magnitude.exponent := by omega
      simp only [Nat.pow_eq]
      push_cast
      rw [← zpow_natCast, Int.toNat_of_nonneg positive, zpow_neg, mul_assoc,
        show (10 : ℚ) = 5 * 2 by norm_num, mul_zpow,
        inv_mul_cancel_left₀ (zpow_ne_zero _ (by norm_num))]

theorem contains_exact {magnitude : Magnitude} (nonzero : magnitude.significand ≠ 0) :
    magnitude.Contains magnitude.exact.value := by
  have quarter : (0 : ℚ) < 2 ^ (magnitude.exponent - 2) := by positivity
  have exponent : (2 : ℚ) ^ magnitude.exponent = 4 * 2 ^ (magnitude.exponent - 2) := by
    rw [zpow_sub₀ (by norm_num)]
    norm_num
    ring
  have whole : magnitude.exact.value =
      ((4 * magnitude.significand : ℕ) : ℚ) * 2 ^ (magnitude.exponent - 2) := by
    rw [value_exact, exponent]
    push_cast
    ring
  rw [Contains, whole]
  refine .inl ⟨mul_lt_mul_of_pos_right (Nat.cast_lt.mpr ?_) quarter,
    mul_lt_mul_of_pos_right (Nat.cast_lt.mpr ?_) quarter⟩
  · split <;> omega
  · omega

/-- The shortest decimal of a magnitude rounds to the magnitude. -/
theorem contains_shortest {magnitude : Magnitude} (nonzero : magnitude.significand ≠ 0) :
    magnitude.Contains magnitude.shortest.value := by
  unfold shortest
  cases found : (List.range 22).findSome? fun (index : Nat) =>
      magnitude.decimalAt? (magnitude.topExponent - (index : Int)) with
  | none => exact contains_exact nonzero
  | some decimal =>
      obtain ⟨index, _, present⟩ := List.exists_of_findSome?_eq_some found
      exact contains_of_readsBack (readsBack_of_decimalAt? present)

/-! ## The row of all magnitudes -/

/-- The magnitude under an index. -/
def ofIndex (index : ℕ) : Magnitude := ofFields (index / binade) (index % binade)

theorem significand_ofIndex_mod (index : ℕ) : (ofIndex index).significand % 2 = index % 2 := by
  have even : binade = 2 * 2 ^ 51 := rfl
  unfold ofIndex ofFields
  split
  · exact Nat.mod_mod_of_dvd index ⟨2 ^ 51, even⟩
  · rw [even, Nat.mul_add_mod, ← even]
    exact Nat.mod_mod_of_dvd index ⟨2 ^ 51, even⟩

/-- Each interval ends where the next begins, in one binade. -/
theorem upperEnd_ofFields (biased fraction : ℕ) :
    (ofFields biased fraction).upperEnd = (ofFields biased (fraction + 1)).lowerEnd := by
  unfold ofFields upperEnd lowerEnd
  split <;> congr 2

/-- Each interval ends where the next begins, also where a binade ends. -/
theorem upperEnd_ofFields_last (biased : ℕ) :
    (ofFields biased (binade - 1)).upperEnd = (ofFields (biased + 1) 0).lowerEnd := by
  have size : binade = 4503599627370496 := rfl
  cases biased with
  | zero => rfl
  | succ biased =>
      -- Behind the last significand of a binade the steps are twice as long.
      have wider : (2 : ℚ) ^ (((biased + 1 + 1 : ℕ) : ℤ) - 1075 - 2) =
          2 * 2 ^ (((biased + 1 : ℕ) : ℤ) - 1075 - 2) := by
        rw [← zpow_one_add₀ (by norm_num)]
        congr 1
        push_cast
        ring
      have upper : (ofFields (biased + 1) (binade - 1)).upperEnd =
          ((4 * (binade + (binade - 1)) + 2 : ℕ) : ℚ) *
            2 ^ (((biased + 1 : ℕ) : ℤ) - 1075 - 2) := rfl
      have lower : (ofFields (biased + 1 + 1) 0).lowerEnd =
          ((4 * binade - 1 : ℕ) : ℚ) * 2 ^ (((biased + 1 + 1 : ℕ) : ℤ) - 1075 - 2) := rfl
      have doubled : 4 * (binade + (binade - 1)) + 2 = (4 * binade - 1) * 2 := rfl
      rw [upper, lower, wider, doubled, Nat.cast_mul, mul_assoc]
      rfl

/-- Each interval ends where the next begins. -/
theorem upperEnd_ofIndex (index : ℕ) :
    (ofIndex index).upperEnd = (ofIndex (index + 1)).lowerEnd := by
  have size : binade = 4503599627370496 := rfl
  unfold ofIndex
  by_cases last : index % binade = binade - 1
  · have next : (index + 1) / binade = index / binade + 1 ∧ (index + 1) % binade = 0 := by
      rw [size] at last ⊢
      omega
    rw [last, next.1, next.2]
    exact upperEnd_ofFields_last _
  · have next : (index + 1) / binade = index / binade ∧
        (index + 1) % binade = index % binade + 1 := by
      rw [size] at last ⊢
      omega
    rw [next.1, next.2]
    exact upperEnd_ofFields _ _

theorem lowerEnd_lt_upperEnd (magnitude : Magnitude) : magnitude.lowerEnd < magnitude.upperEnd := by
  have quarter : (0 : ℚ) < 2 ^ (magnitude.exponent - 2) := by positivity
  refine mul_lt_mul_of_pos_right (Nat.cast_lt.mpr ?_) quarter
  split <;> omega

theorem strictMono_lowerEnd : StrictMono fun index => (ofIndex index).lowerEnd :=
  strictMono_nat_of_lt_succ fun index => (upperEnd_ofIndex index) ▸ lowerEnd_lt_upperEnd _

section Ends

variable {magnitude : Magnitude} {value : ℚ}

theorem Contains.between (contains : magnitude.Contains value) :
    magnitude.lowerEnd ≤ value ∧ value ≤ magnitude.upperEnd := by
  have less := magnitude.lowerEnd_lt_upperEnd
  obtain ⟨above, below⟩ | ⟨_, rfl | rfl⟩ := contains
  · exact ⟨above.le, below.le⟩
  · exact ⟨le_rfl, less.le⟩
  · exact ⟨less.le, le_rfl⟩

/-- The ends belong to the interval only if the significand is even. -/
theorem Contains.even (contains : magnitude.Contains value)
    (atEnd : value = magnitude.lowerEnd ∨ value = magnitude.upperEnd) :
    magnitude.significand % 2 = 0 := by
  obtain ⟨above, below⟩ | ⟨even, _⟩ := contains
  · obtain rfl | rfl := atEnd
    · exact absurd above (lt_irrefl _)
    · exact absurd below (lt_irrefl _)
  · exact even

end Ends

/-- No rational lies in the intervals of two magnitudes, the one below the other. -/
theorem not_contains_of_lt {first second : ℕ} (less : first < second) {value : ℚ}
    (one : (ofIndex first).Contains value) : ¬ (ofIndex second).Contains value := by
  intro two
  have ordered : (ofIndex first).upperEnd ≤ (ofIndex second).lowerEnd := by
    rw [upperEnd_ofIndex]
    exact strictMono_lowerEnd.monotone less
  -- So the value ends the one interval and begins the other, and both have their ends.
  have atEnd : value = (ofIndex first).upperEnd :=
    le_antisymm one.between.2 (ordered.trans two.between.1)
  have atBeginning : value = (ofIndex second).lowerEnd :=
    le_antisymm (one.between.2.trans ordered) two.between.1
  have even := one.even (.inr atEnd)
  have evenToo := two.even (.inl atBeginning)
  rw [significand_ofIndex_mod] at even evenToo
  have adjacent : first + 1 = second :=
    strictMono_lowerEnd.injective
      ((upperEnd_ofIndex first).symm.trans (atEnd.symm.trans atBeginning))
  omega

/-- A rational rounds to one magnitude only. -/
theorem index_unique {first second : ℕ} {value : ℚ} (one : (ofIndex first).Contains value)
    (two : (ofIndex second).Contains value) : first = second := by
  obtain less | same | more := Nat.lt_trichotomy first second
  · exact absurd two (not_contains_of_lt less one)
  · exact same
  · exact absurd one (not_contains_of_lt more two)

end Magnitude

end Lox.Number
