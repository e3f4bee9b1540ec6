import DiceOdds.Binary64
import Mathlib

/-!
# Where quotients become infinite

A quotient rounds past the largest number exactly from half a unit above that number on.  The number
itself is `(2 ^ 53 - 1) * 2 ^ 971`, and the tie at `2 ^ 1024 - 2 ^ 970` already goes up, because the
significand above is the even one.
-/

namespace DiceOdds.Binary64

variable {numerator denominator bound : ℕ}

/-! ### Rounding to an integer -/

/-- Rounding gets to an even bound from half a unit below it on. -/
theorem le_roundedQuotient_iff (hdenominator : 0 < denominator) (heven : Even bound) :
    bound ≤ roundedQuotient numerator denominator ↔
      2 * (bound * denominator) ≤ 2 * numerator + denominator := by
  have hdivision := Nat.div_add_mod' numerator denominator
  have hremainder := Nat.mod_lt numerator hdenominator
  simp only [roundedQuotient]
  generalize numerator / denominator = quotient at *
  generalize numerator % denominator = remainder at *
  obtain hbelow | rfl | habove :
      bound ≤ quotient ∨ bound = quotient + 1 ∨ quotient + 2 ≤ bound := by omega
  · have hproduct := Nat.mul_le_mul_right denominator hbelow
    split <;> omega
  · have hodd : quotient % 2 = 1 := by
      have := Nat.even_iff.1 heven
      omega
    rw [Nat.add_one_mul quotient]
    split <;> omega
  · have hproduct := Nat.mul_le_mul_right denominator habove
    rw [Nat.add_mul] at hproduct
    split <;> omega

theorem roundedQuotient_le (hdenominator : 0 < denominator)
    (hle : numerator ≤ bound * denominator) : roundedQuotient numerator denominator ≤ bound := by
  have hdivision := Nat.div_add_mod' numerator denominator
  have hquotient : numerator / denominator ≤ bound :=
    Nat.div_le_of_le_mul (Nat.mul_comm bound _ ▸ hle)
  simp only [roundedQuotient]
  generalize numerator / denominator = quotient at *
  generalize numerator % denominator = remainder at *
  obtain hbelow | rfl := hquotient.lt_or_eq
  · split <;> omega
  · rw [if_pos]
    omega

/-! ### The exponent of a quotient -/

theorem zpow_le_div_iff (numerator : ℕ) (hdenominator : 0 < denominator) (exponent : ℤ) :
    (2 : ℚ) ^ exponent ≤ numerator / denominator ↔
      denominator * 2 ^ exponent.toNat ≤ numerator * 2 ^ (-exponent).toNat := by
  have hsplit : (2 : ℚ) ^ exponent = 2 ^ exponent.toNat / 2 ^ (-exponent).toNat := by
    rw [← zpow_natCast, ← zpow_natCast, ← zpow_sub₀ two_ne_zero, Int.toNat_sub_toNat_neg]
  rw [hsplit, div_le_div_iff₀ (by positivity) (by positivity), mul_comm (2 ^ exponent.toNat : ℚ)]
  norm_cast

theorem floorLog_eq_log (hnumerator : 0 < numerator) (hdenominator : 0 < denominator) :
    floorLog numerator denominator = Int.log 2 (numerator / denominator : ℚ) := by
  have hquotient : (0 : ℚ) < numerator / denominator := by positivity
  have hbelow : (numerator.log2 : ℤ) - denominator.log2 - 1 ≤
      Int.log 2 (numerator / denominator : ℚ) := by
    rw [← Int.zpow_le_iff_le_log one_lt_two hquotient, Nat.cast_ofNat]
    calc (2 : ℚ) ^ ((numerator.log2 : ℤ) - denominator.log2 - 1)
        = 2 ^ numerator.log2 / 2 ^ (denominator.log2 + 1) := by
          rw [sub_sub, zpow_sub₀ two_ne_zero]
          norm_cast
      _ ≤ numerator / denominator := by
          gcongr
          · exact_mod_cast Nat.log2_self_le hnumerator.ne'
          · exact_mod_cast Nat.lt_log2_self.le
  have habove : Int.log 2 (numerator / denominator : ℚ) <
      (numerator.log2 : ℤ) - denominator.log2 + 1 := by
    rw [← Int.lt_zpow_iff_log_lt one_lt_two hquotient, Nat.cast_ofNat]
    calc (numerator / denominator : ℚ)
        < 2 ^ (numerator.log2 + 1) / 2 ^ denominator.log2 := by
          gcongr
          · exact_mod_cast Nat.lt_log2_self
          · exact_mod_cast Nat.log2_self_le hdenominator.ne'
      _ = 2 ^ ((numerator.log2 : ℤ) - denominator.log2 + 1) := by
          rw [sub_add_eq_add_sub, zpow_sub₀ two_ne_zero]
          norm_cast
  have hguess := zpow_le_div_iff numerator hdenominator (numerator.log2 - denominator.log2)
  rw [← Nat.cast_ofNat, Int.zpow_le_iff_le_log one_lt_two hquotient] at hguess
  simp only [floorLog, Nat.pow_eq, ← hguess]
  split <;> omega

theorem log_lt_iff (hnumerator : 0 < numerator) (hdenominator : 0 < denominator) (exponent : ℕ) :
    Int.log 2 (numerator / denominator : ℚ) < exponent ↔
      (numerator / denominator : ℚ) < 2 ^ exponent := by
  have hquotient : (0 : ℚ) < numerator / denominator := by positivity
  rw [← Int.lt_zpow_iff_log_lt one_lt_two hquotient, zpow_natCast, Nat.cast_ofNat]

/-! ### Overflow -/

/-- Half a unit above the largest number. -/
def overflowLimit : ℚ :=
  2 ^ 1024 - 2 ^ 970

theorem overflowLimit_eq : overflowLimit = (2 ^ 54 - 1) * 2 ^ 970 := by
  rw [overflowLimit, sub_mul, ← pow_add, one_mul]

theorem one_lt_overflowLimit : 1 < overflowLimit := by
  have hunit : (1 : ℚ) ≤ 2 ^ 970 := one_le_pow₀ one_le_two
  rw [overflowLimit_eq]
  generalize (2 : ℚ) ^ 970 = unit at *
  linarith

/-- The significand before a carry into the next exponent. -/
def quotientSignificand (numerator denominator : ℕ) : ℕ :=
  roundedQuotient (numerator * 2 ^ (-quotientExponent numerator denominator).toNat)
    (denominator * 2 ^ (quotientExponent numerator denominator).toNat)

/-- A quotient is infinite if its exponent is too large or a carry makes it so. -/
theorem exists_infinite_iff (negative : Bool) (hnumerator : 0 < numerator) :
    (∃ sign, ofQuotient negative numerator denominator = .infinite sign) ↔
      971 < quotientExponent numerator denominator ∨
        quotientExponent numerator denominator = 971 ∧
          quotientSignificand numerator denominator = 2 ^ 53 := by
  have hchoice (condition : Prop) [Decidable condition] (significand : ℕ) (exponent : ℤ) :
      (∃ sign, (if condition then infinite negative else finite negative significand exponent) =
        infinite sign) ↔ condition := by
    split <;> simp [*]
  rw [ofQuotient, if_neg hnumerator.ne']
  by_cases hcarry : quotientSignificand numerator denominator = 2 ^ 53
  · rw [and_iff_left hcarry]
    rw [quotientSignificand] at hcarry
    simp only [Nat.pow_eq, hcarry, if_true, hchoice]
    omega
  · rw [or_iff_left fun hlast => hcarry hlast.2]
    rw [quotientSignificand] at hcarry
    simp only [Nat.pow_eq, hcarry, if_false, hchoice]

/-- With the largest exponent there is a carry from the limit on. -/
theorem quotientSignificand_eq_iff (hnumerator : 0 < numerator) (hdenominator : 0 < denominator)
    (hlog : Int.log 2 (numerator / denominator : ℚ) = 1023) :
    quotientSignificand numerator denominator = 2 ^ 53 ↔
      overflowLimit ≤ numerator / denominator := by
  have hexponent : quotientExponent numerator denominator = 971 := by
    rw [quotientExponent, floorLog_eq_log hnumerator hdenominator, hlog]
    rfl
  have hsignificand : quotientSignificand numerator denominator =
      roundedQuotient numerator (denominator * 2 ^ 971) := by
    have hdown : (-971 : ℤ).toNat = 0 := rfl
    have hup : (971 : ℤ).toNat = 971 := rfl
    rw [quotientSignificand, hexponent, hdown, hup, pow_zero, mul_one]
  have hunits : 0 < denominator * 2 ^ 971 := by positivity
  have hbound : numerator ≤ 2 ^ 53 * (denominator * 2 ^ 971) := by
    have hnext : (numerator / denominator : ℚ) < 2 ^ (53 + 971) := by
      rw [← log_lt_iff hnumerator hdenominator, hlog]
      decide
    rw [pow_add, div_lt_iff₀ (by positivity), mul_assoc, mul_comm (2 ^ 971 : ℚ)] at hnext
    exact_mod_cast hnext.le
  obtain ⟨half, hhalf⟩ : ∃ half : ℕ, 2 ^ 970 = half := ⟨_, rfl⟩
  have hunit : 2 ^ 971 = 2 * half := by rw [← hhalf, ← pow_succ']
  have hlimit : overflowLimit = (2 ^ 54 - 1) * half := by
    rw [overflowLimit_eq, ← hhalf, Nat.cast_pow, Nat.cast_ofNat]
  rw [hsignificand, le_antisymm_iff, and_iff_right (roundedQuotient_le hunits hbound),
    le_roundedQuotient_iff hunits (by decide), hunit, hlimit, le_div_iff₀ (by positivity),
    ← Nat.cast_le (α := ℚ)]
  push_cast
  constructor <;> intro hle <;> linarith

/-- A quotient is infinite from half a unit above the largest number on. -/
theorem exists_ofQuotient_eq_infinite_iff (negative : Bool) (numerator : ℕ)
    (hdenominator : 0 < denominator) :
    (∃ sign, ofQuotient negative numerator denominator = .infinite sign) ↔
      overflowLimit ≤ numerator / denominator := by
  obtain rfl | hnumerator := numerator.eq_zero_or_pos
  · have hpositive := one_lt_overflowLimit
    rw [ofQuotient, if_pos rfl, Nat.cast_zero, zero_div]
    refine iff_of_false nofun ?_
    linarith
  have hexponent : quotientExponent numerator denominator =
      max (-1074) (Int.log 2 (numerator / denominator : ℚ) - 52) := by
    rw [quotientExponent, floorLog_eq_log hnumerator hdenominator]
  have hunit : (0 : ℚ) < 2 ^ 970 := by positivity
  rw [exists_infinite_iff negative hnumerator]
  obtain hsmall | hlast | hlarge := lt_trichotomy (Int.log 2 (numerator / denominator : ℚ)) 1023
  · have hlt : (numerator / denominator : ℚ) < overflowLimit := by
      have hbelow := (log_lt_iff hnumerator hdenominator (53 + 970)).1 (by omega)
      rw [pow_add] at hbelow
      rw [overflowLimit_eq]
      generalize (2 : ℚ) ^ 970 = unit at *
      linarith
    rw [hexponent]
    refine iff_of_false ?_ hlt.not_ge
    omega
  · rw [quotientSignificand_eq_iff hnumerator hdenominator hlast, hexponent, hlast]
    simp
  · have hle : overflowLimit ≤ (numerator / denominator : ℚ) := by
      have habove := (log_lt_iff hnumerator hdenominator (54 + 970)).not.1 (by omega)
      rw [pow_add, not_lt] at habove
      rw [overflowLimit_eq]
      generalize (2 : ℚ) ^ 970 = unit at *
      linarith
    rw [hexponent]
    refine iff_of_true (.inl ?_) hle
    omega

variable {divisor : ℤ}

/-- A division fails exactly where the quotient is infinite. -/
theorem divide_cases (dividend : ℤ) (hdivisor : 0 < divisor) :
    (divide dividend divisor = .error .tooLarge ∧ overflowLimit ≤ |(dividend : ℚ)| / divisor) ∨
      ∃ quotient, divide dividend divisor = .ok quotient ∧
        |(dividend : ℚ)| / divisor < overflowLimit := by
  have hmagnitudes : |(dividend : ℚ)| / divisor = dividend.natAbs / divisor.natAbs := by
    rw [Nat.cast_natAbs, Nat.cast_natAbs, Int.cast_abs, Int.cast_abs,
      abs_of_pos (Int.cast_pos.2 hdivisor)]
  have hinfinite := exists_ofQuotient_eq_infinite_iff
    (decide (dividend < 0) != decide (divisor < 0)) dividend.natAbs (Int.natAbs_pos.2 hdivisor.ne')
  rw [← hmagnitudes] at hinfinite
  rw [← not_le, ← hinfinite, divide, if_neg hdivisor.ne']
  split
  · next sign hquotient => exact .inl ⟨rfl, sign, hquotient⟩
  · next hfinite => exact .inr ⟨_, rfl, fun ⟨sign, hquotient⟩ => hfinite sign hquotient⟩

/-- No proportion is too large. -/
theorem exists_divide_of_le {part whole : ℤ} (hpart : 0 ≤ part) (hle : part ≤ whole)
    (hwhole : 0 < whole) : ∃ quotient, divide part whole = .ok quotient := by
  have hproportion : |(part : ℚ)| / whole ≤ 1 := by
    rw [abs_of_nonneg (Int.cast_nonneg hpart), div_le_one (Int.cast_pos.2 hwhole)]
    exact_mod_cast hle
  obtain ⟨-, htooLarge⟩ | ⟨quotient, hquotient, -⟩ := divide_cases part hwhole
  · exact absurd htooLarge (hproportion.trans_lt one_lt_overflowLimit).not_ge
  · exact ⟨quotient, hquotient⟩

end DiceOdds.Binary64
