import Mathlib.Algebra.Order.Field.Rat
import Mathlib.Tactic.Linarith
import Mathlib.Tactic.Positivity
import Mathlib.Tactic.Ring
import TableStore.Proofs.Binary64.Whole

/-!
Quotients rounded to binary64. Main statements: a quotient is rounded to a magnitude that no other
one is nearer to, equal quotients are rounded alike, and a quotient that is off a finite magnitude
by less than two to the power of minus 54 of it is rounded to that one.
-/

namespace TableStore

/-- A whole number that a quotient reaches is no more than the rounded quotient. -/
theorem le_roundHalfEven {numerator denominator bound : Nat} (positive : 0 < denominator)
    (reached : bound * denominator ≤ numerator) : bound ≤ roundHalfEven numerator denominator := by
  -- Rounding adds less than a unit, so that a whole number cannot lie strictly in between.
  have near := (roundHalfEven_near numerator positive).1
  have twice : 2 * bound * denominator ≤
      (2 * roundHalfEven numerator denominator + 1) * denominator := by
    rw [Nat.mul_assoc]
    omega
  have := Nat.le_of_mul_le_mul_right twice positive
  omega

/-- A whole number that a quotient does not exceed is no less than the rounded quotient. -/
theorem roundHalfEven_le {numerator denominator bound : Nat} (positive : 0 < denominator)
    (bounded : numerator ≤ bound * denominator) : roundHalfEven numerator denominator ≤ bound := by
  -- Here the half that rounding may add stays below the next whole number.
  have near := (roundHalfEven_near numerator positive).2
  have twice : 2 * roundHalfEven numerator denominator * denominator ≤
      (2 * bound + 1) * denominator := by
    rw [Nat.add_mul, Nat.mul_assoc 2 bound]
    omega
  have := Nat.le_of_mul_le_mul_right twice positive
  omega

/-- Equal quotients are rounded alike. -/
theorem roundHalfEven_congr {numerator denominator other divisor : Nat}
    (positive : 0 < denominator) (positiveOther : 0 < divisor)
    (same : numerator * divisor = other * denominator) :
    roundHalfEven numerator denominator = roundHalfEven other divisor := by
  -- Both quotients are expanded by the divisor of the other, which makes them the same.
  rw [← roundHalfEven_mul_right numerator denominator positiveOther, same, Nat.mul_comm denominator,
    roundHalfEven_mul_right other divisor positive]

namespace Binary64

/-- Fifty-three bits and how far they are shifted make up a magnitude of as many units. -/
theorem unitsOf_shift {shift significand : Nat} (most : significand ≤ 2 * exponentStep)
    (normal : shift = 0 ∨ exponentStep ≤ significand) :
    unitsOf (shift * exponentStep + significand) = significand * 2 ^ shift := by
  rcases Nat.lt_or_ge significand exponentStep with small | large
  · obtain rfl : shift = 0 := normal.resolve_right (Nat.not_le.2 small)
    rw [unitsOf_fields 0 small, if_pos rfl, Nat.pow_zero, Nat.mul_one]
  · rcases Nat.eq_or_lt_of_le most with rfl | inside
    · -- All bits are set but for one step of the exponent more.
      have fields : shift * exponentStep + 2 * exponentStep = (shift + 2) * exponentStep + 0 := by
        ring
      rw [fields, unitsOf_fields (shift + 2) (by decide), if_neg (by omega), Nat.add_zero,
        show shift + 2 - 1 = shift + 1 by omega, Nat.pow_succ]
      ring
    · obtain ⟨fraction, rfl⟩ := Nat.exists_eq_add_of_le large
      have fields : shift * exponentStep + (exponentStep + fraction) =
          (shift + 1) * exponentStep + fraction := by ring
      rw [fields, unitsOf_fields (shift + 1) (by omega), if_neg (Nat.succ_ne_zero shift),
        Nat.add_sub_cancel]

/-- A larger magnitude is worth that of a significand that is one larger, or more. -/
theorem le_unitsOf_of_lt {shift significand other : Nat} (most : significand ≤ 2 * exponentStep)
    (normal : shift = 0 ∨ exponentStep ≤ significand)
    (greater : shift * exponentStep + significand < other) :
    (significand + 1) * 2 ^ shift ≤ unitsOf other := by
  refine Nat.le_trans ?_ (unitsOf_strictMono.monotone greater)
  rw [Nat.succ_eq_add_one, Nat.add_assoc]
  rcases Nat.eq_or_lt_of_le most with rfl | inside
  · -- The significand is carried into the exponent, which makes its last bit worth twice as much.
    have carried : shift * exponentStep + (2 * exponentStep + 1) =
        (shift + 1) * exponentStep + (exponentStep + 1) := by ring
    rw [carried, unitsOf_shift (by decide) (.inr (Nat.le_succ _)), Nat.pow_succ,
      Nat.mul_comm (2 ^ shift) 2, ← Nat.mul_assoc]
    exact Nat.mul_le_mul_right _ (by decide)
  · rw [unitsOf_shift inside (by omega)]

/-- Every magnitude is made up of fifty-three bits at most and how far they are shifted. -/
theorem exists_shift (magnitude : Nat) :
    ∃ shift significand, magnitude = shift * exponentStep + significand ∧
      significand < 2 * exponentStep ∧ (shift = 0 ∨ exponentStep ≤ significand) := by
  -- The shift is one less than the exponent, and zero stands for the least exponent as well.
  refine ⟨magnitude / exponentStep - 1,
    magnitude - (magnitude / exponentStep - 1) * exponentStep, ?_⟩
  simp only [exponentStep]
  omega

/-- From one magnitude to a larger one the units grow by one part in two to the power of 53. -/
theorem unitsOf_gap {magnitude other : Nat} (less : magnitude < other) :
    2 ^ 53 * unitsOf magnitude + unitsOf other ≤ 2 ^ 53 * unitsOf other := by
  -- The significand has fifty-three bits at most, and its last one is what the units grow by.
  obtain ⟨shift, significand, rfl, most, normal⟩ := exists_shift magnitude
  have beyond := le_unitsOf_of_lt most.le normal less
  rw [Nat.add_mul, Nat.one_mul] at beyond
  rw [unitsOf_shift most.le normal]
  have bits : significand * 2 ^ shift ≤ (2 ^ 53 - 1) * 2 ^ shift :=
    Nat.mul_le_mul_right _ (by simp only [exponentStep] at most; omega)
  -- The shifted significand and the power count as two numbers from here on.
  generalize significand * 2 ^ shift = units at *
  generalize 2 ^ shift = power at *
  omega

/-! ## Rounding -/

/-- No other magnitude is nearer to a quotient: it lies halfway to any other, or nearer. -/
structure IsNearest (numerator denominator magnitude : Nat) : Prop where
  below : ∀ other < magnitude,
    (unitsOf other + unitsOf magnitude) * denominator ≤ 2 * (numerator * unitsPerOne)
  above : ∀ other > magnitude,
    2 * (numerator * unitsPerOne) ≤ (unitsOf magnitude + unitsOf other) * denominator

/-- The shift leaves fifty-three bits of a quotient, or fewer if it is zero. -/
theorem le_shift_mul (scaled : Nat) {denominator shift : Nat} (positive : 0 < denominator)
    (kept : (scaled / denominator).log2 - 52 = shift) :
    scaled ≤ 2 * exponentStep * (denominator * 2 ^ shift) ∧
      (shift = 0 ∨ exponentStep * (denominator * 2 ^ shift) ≤ scaled) := by
  -- Both bounds are about two powers of two, and about how many bits the quotient has.
  have step : exponentStep = 2 ^ 52 := by decide
  have bits (power : Nat) : 2 ^ power * (denominator * 2 ^ shift) =
      2 ^ (power + shift) * denominator := by rw [Nat.pow_add]; ring
  have double : 2 * exponentStep = 2 ^ 53 := by decide
  rw [double, step, bits, bits]
  constructor
  · have above : scaled / denominator < 2 ^ (53 + shift) :=
      Nat.lt_log2_self.trans_le (Nat.pow_le_pow_right (by decide) (by omega))
    exact ((Nat.div_lt_iff_lt_mul positive).1 above).le
  · -- With a shift, the quotient has its fifty-third bit set.
    refine or_iff_not_imp_left.2 fun shifted => ?_
    have nonzero : scaled / denominator ≠ 0 := by
      rintro zero
      rw [zero] at kept
      exact shifted kept.symm
    have log : 52 + shift = (scaled / denominator).log2 := by omega
    rw [log]
    exact (Nat.le_div_iff_mul_le positive).1 (Nat.log2_self_le nonzero)

/-- Fifty-three rounded bits of a quotient make up a nearest magnitude. -/
theorem isNearest_of_near {numerator denominator shift significand : Nat}
    (most : significand ≤ 2 * exponentStep)
    (normal : shift = 0 ∨ exponentStep ≤ significand ∧
      exponentStep * (denominator * 2 ^ shift) ≤ numerator * unitsPerOne)
    (above : 2 * (numerator * unitsPerOne) ≤ (2 * significand + 1) * (denominator * 2 ^ shift))
    (below : 2 * significand * (denominator * 2 ^ shift) ≤
      2 * (numerator * unitsPerOne) + denominator * 2 ^ shift) :
    IsNearest numerator denominator (shift * exponentStep + significand) := by
  have worth := unitsOf_shift most (normal.imp_right And.left)
  refine ⟨fun other less => ?_, fun other greater => ?_⟩
  · rw [worth]
    by_cases leading : shift = 0 ∨ exponentStep < significand
    · -- The magnitude below has a significand that is one smaller.
      obtain ⟨fewer, rfl⟩ : ∃ fewer, significand = fewer + 1 :=
        Nat.exists_eq_succ_of_ne_zero (by rintro rfl; simp_all)
      have before := @unitsOf_shift shift fewer (by omega) (by omega)
      have bound : unitsOf other ≤ fewer * 2 ^ shift :=
        before ▸ unitsOf_strictMono.monotone (by omega)
      have total : (fewer * 2 ^ shift + (fewer + 1) * 2 ^ shift) * denominator +
          denominator * 2 ^ shift = 2 * (fewer + 1) * (denominator * 2 ^ shift) := by ring
      have sum := Nat.mul_le_mul_right denominator
        (Nat.add_le_add_right bound ((fewer + 1) * 2 ^ shift))
      omega
    · -- The significand is the least one, and the quotient is not below it.
      obtain ⟨least, reached⟩ := normal.resolve_left fun zero => leading (.inl zero)
      have smallest : significand = exponentStep := by omega
      have bound := worth ▸ (unitsOf_strictMono less).le
      calc (unitsOf other + significand * 2 ^ shift) * denominator
          ≤ (significand * 2 ^ shift + significand * 2 ^ shift) * denominator :=
            Nat.mul_le_mul_right _ (Nat.add_le_add_right bound _)
        _ = 2 * (exponentStep * (denominator * 2 ^ shift)) := by
            rw [smallest]
            ring
        _ ≤ 2 * (numerator * unitsPerOne) := Nat.mul_le_mul_left 2 reached
  · rw [worth]
    have bound := le_unitsOf_of_lt most (normal.imp_right And.left) greater
    calc 2 * (numerator * unitsPerOne) ≤ (2 * significand + 1) * (denominator * 2 ^ shift) := above
      _ = (significand * 2 ^ shift + (significand + 1) * 2 ^ shift) * denominator := by ring
      _ ≤ (significand * 2 ^ shift + unitsOf other) * denominator :=
          Nat.mul_le_mul_right _ (Nat.add_le_add_left bound _)

/-- A quotient is rounded to a nearest magnitude, or to infinity if that one is beyond. -/
theorem exists_isNearest (numerator : Nat) {denominator : Nat} (positive : 0 < denominator) :
    ∃ magnitude, nearest numerator denominator = min infiniteMagnitude magnitude ∧
      IsNearest numerator denominator magnitude := by
  refine ⟨_, rfl, ?_⟩
  -- The shift is named, since the bounds on it are all that counts.
  obtain ⟨shift, kept⟩ :
      ∃ shift, (numerator * unitsPerOne / denominator).log2 - 52 = shift := ⟨_, rfl⟩
  obtain ⟨most, normal⟩ := le_shift_mul (numerator * unitsPerOne) positive kept
  have unit : 0 < denominator * 2 ^ shift := Nat.mul_pos positive (Nat.two_pow_pos shift)
  -- The significand is off the quotient by half of its last bit at most.
  obtain ⟨above, below⟩ := roundHalfEven_near (numerator * unitsPerOne) unit
  rw [kept, Nat.pow_eq]
  refine isNearest_of_near (roundHalfEven_le unit most) ?_ above below
  exact normal.imp_right fun leading => ⟨le_roundHalfEven unit leading, leading⟩

/-- Equal quotients are rounded to the same magnitude. -/
theorem nearest_congr {numerator denominator other divisor : Nat} (positive : 0 < denominator)
    (positiveOther : 0 < divisor) (same : (numerator / denominator : ℚ) = other / divisor) :
    nearest numerator denominator = nearest other divisor := by
  have scaled : numerator * unitsPerOne * divisor = other * unitsPerOne * denominator := by
    rw [div_eq_div_iff (Nat.cast_pos.2 positive).ne' (Nat.cast_pos.2 positiveOther).ne'] at same
    rw [Nat.mul_right_comm, Nat.mul_right_comm other]
    exact congrArg (· * unitsPerOne) (by exact_mod_cast same)
  have whole : numerator * unitsPerOne / denominator = other * unitsPerOne / divisor := by
    rw [← Nat.mul_div_mul_right _ _ positiveOther, scaled, Nat.mul_comm denominator,
      Nat.mul_div_mul_right _ _ positive]
  have power (shift : Nat) : 0 < Nat.pow 2 shift := Nat.two_pow_pos shift
  simp only [nearest, whole]
  -- The shift is the same, too.
  rw [roundHalfEven_congr (Nat.mul_pos positive (power _)) (Nat.mul_pos positiveOther (power _))]
  rw [← Nat.mul_assoc, ← Nat.mul_assoc, scaled]

/-- What a finite magnitude is worth. -/
def worth (magnitude : Nat) : ℚ := unitsOf magnitude / unitsPerOne

/-- A quotient close enough to a finite magnitude is rounded to it. -/
theorem nearest_eq_of_close {numerator denominator magnitude : Nat} (positive : 0 < denominator)
    (finite : magnitude < infiniteMagnitude)
    (close : |(numerator / denominator : ℚ) - worth magnitude| * 2 ^ 54 < worth magnitude) :
    nearest numerator denominator = magnitude := by
  have one : (0 : ℚ) < unitsPerOne := Nat.cast_pos.2 unitsPerOne_pos
  have divisor : (0 : ℚ) < denominator := Nat.cast_pos.2 positive
  -- Cleared of quotients, the units are off by less than one part in two to the power of 54.
  obtain ⟨low, high⟩ : 2 ^ 54 * (unitsOf magnitude * denominator) <
        2 ^ 54 * (numerator * unitsPerOne) + unitsOf magnitude * denominator ∧
      2 ^ 54 * (numerator * unitsPerOne) <
        2 ^ 54 * (unitsOf magnitude * denominator) + unitsOf magnitude * denominator := by
    have area := mul_pos one divisor
    have quotient : (numerator : ℚ) = numerator / denominator * denominator :=
      (div_mul_cancel₀ _ divisor.ne').symm
    have units : (unitsOf magnitude : ℚ) = worth magnitude * unitsPerOne :=
      (div_mul_cancel₀ _ one.ne').symm
    generalize (numerator : ℚ) / denominator = exact at *
    have bounds := abs_lt.1 ((lt_div_iff₀ (by norm_num)).2 close)
    have low := mul_lt_mul_of_pos_right bounds.1 area
    have high := mul_lt_mul_of_pos_right bounds.2 area
    constructor
    · suffices less : (2 ^ 54 * (unitsOf magnitude * denominator) : ℚ) <
          2 ^ 54 * (numerator * unitsPerOne) + unitsOf magnitude * denominator by
        exact_mod_cast less
      rw [quotient, units]
      linarith
    · suffices less : (2 ^ 54 * (numerator * unitsPerOne) : ℚ) <
          2 ^ 54 * (unitsOf magnitude * denominator) + unitsOf magnitude * denominator by
        exact_mod_cast less
      rw [quotient, units]
      linarith
  obtain ⟨rounded, same, near⟩ := exists_isNearest numerator positive
  suffices unique : rounded = magnitude by
    rw [same, unique, Nat.min_eq_right finite.le]
  rcases Nat.lt_trichotomy rounded magnitude with less | equal | greater
  · have gap := Nat.mul_le_mul_right denominator (unitsOf_gap less)
    have above := near.above magnitude less
    simp only [Nat.add_mul, Nat.mul_assoc] at gap above
    omega
  · exact equal
  · have gap := Nat.mul_le_mul_right denominator (unitsOf_gap greater)
    have below := near.below magnitude greater
    simp only [Nat.add_mul, Nat.mul_assoc] at gap below
    omega

end Binary64

end TableStore
