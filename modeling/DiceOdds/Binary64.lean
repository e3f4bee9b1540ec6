import DiceOdds.Text

/-!
# Double precision numbers

Quotients of unbounded integers, rounded once to the nearest number with a significand of 53 bits
and an exponent between -1074 and 971.  A tie goes to the even significand.  A quotient that rounds
past the largest such number is infinite, and zero keeps its sign.
-/

namespace DiceOdds

/-- `finite negative significand exponent` is `significand * 2 ^ exponent` or its opposite. -/
inductive Binary64
  | finite (negative : Bool) (significand : Nat) (exponent : Int)
  | infinite (negative : Bool)
  deriving DecidableEq

namespace Binary64

/-- The integer nearest to a quotient, the even one of two. -/
def roundedQuotient (numerator denominator : Nat) : Nat :=
  let quotient := numerator / denominator
  let twice := 2 * (numerator % denominator)
  if twice < denominator ∨ (twice = denominator ∧ quotient % 2 = 0) then quotient
  else quotient + 1

/-- The greatest exponent with `2 ^ exponent ≤ numerator / denominator`. -/
def floorLog (numerator denominator : Nat) : Int :=
  let guess : Int := (numerator.log2 : Int) - denominator.log2
  if denominator * Nat.pow 2 guess.toNat ≤ numerator * Nat.pow 2 (-guess).toNat then guess
  else guess - 1

/-- The exponent at which a quotient has a significand of 53 bits, or the least exponent. -/
def quotientExponent (numerator denominator : Nat) : Int :=
  max (-1074) (floorLog numerator denominator - 52)

/-- The number nearest to a quotient. -/
def ofQuotient (negative : Bool) (numerator denominator : Nat) : Binary64 :=
  if numerator = 0 then finite negative 0 (-1074)
  else
    let exponent := quotientExponent numerator denominator
    let significand := roundedQuotient (numerator * Nat.pow 2 (-exponent).toNat)
      (denominator * Nat.pow 2 exponent.toNat)
    let (significand, exponent) :=
      if significand = Nat.pow 2 53 then (Nat.pow 2 52, exponent + 1) else (significand, exponent)
    if 971 < exponent then infinite negative else finite negative significand exponent

inductive DivisionError
  | divisionByZero
  /-- the quotient rounds past the largest number -/
  | tooLarge
  deriving DecidableEq

/-- The quotient of two integers.  It is negative, even as a zero, when exactly one of the two is
below zero. -/
def divide (numerator denominator : Int) : Except DivisionError Binary64 :=
  if denominator = 0 then .error .divisionByZero
  else
    match ofQuotient (decide (numerator < 0) != decide (denominator < 0))
        numerator.natAbs denominator.natAbs with
    | infinite _ => .error .tooLarge
    | quotient => .ok quotient

/-- A multiple, rounded again. -/
def times (factor : Nat) : Binary64 → Binary64
  | infinite negative => infinite negative
  | finite negative significand exponent =>
      ofQuotient negative (significand * factor * Nat.pow 2 exponent.toNat)
        (Nat.pow 2 (-exponent).toNat)

/-- The sixty-four bits of the number, with the sign first. -/
def bits : Binary64 → Nat
  | infinite negative => signBit negative + 0x7ff * Nat.pow 2 52
  | finite negative significand exponent =>
      if significand < Nat.pow 2 52 then signBit negative + significand
      else
        signBit negative + ((exponent + 1075).toNat * Nat.pow 2 52 + (significand - Nat.pow 2 52))
where
  signBit (negative : Bool) : Nat := if negative then Nat.pow 2 63 else 0

/-- The number in decimal, rounded to so many places after the point.  A tie goes to the even last
digit, and a number that rounds to zero keeps its sign. -/
def fixed (places : Nat) : Binary64 → Text
  | infinite negative => sign negative ++ .ofString "inf"
  | finite negative significand exponent =>
      let units := roundedQuotient (significand * Nat.pow 10 places * Nat.pow 2 exponent.toNat)
        (Nat.pow 2 (-exponent).toNat)
      let after := Text.ofInt (units % Nat.pow 10 places : Nat)
      sign negative ++ Text.ofInt (units / Nat.pow 10 places : Nat) ++ .ofString "." ++
        List.replicate (places - after.length) (.scalar '0') ++ after
where
  sign (negative : Bool) : Text := if negative then .ofString "-" else []

end Binary64

end DiceOdds
