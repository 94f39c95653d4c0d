import TensorFuzz.Word
import TensorFuzz.Rounding

/-!
# Probabilities

A probability is the number of 64-bit words, out of all `2 ^ 64`, for which the event happens. A
fraction is first rounded to 53 significant binary digits, and then the words below it are counted.
-/

namespace TensorFuzz

/-- How many of the `2 ^ 64` words make the event happen. -/
structure Probability where
  favourable : Nat
  favourable_le : favourable ≤ limit64

namespace Probability

def certain : Probability := ⟨limit64, Nat.le_refl _⟩

def never : Probability := ⟨0, Nat.zero_le _⟩

/-- The probability `num / den`; one if the fraction is not below one. -/
def ratio (num den : Nat) : Probability :=
  if num < den then
    let p := Rounding.quotient num den
    ⟨min ((p.mantissa <<< 64) >>> p.places) limit64, Nat.min_le_right ..⟩
  else certain

/-- The quotient of two integers, brought into the range from zero to one; `none` for `0 / 0`, which is
no number. Both integers are first rounded to 53 significant binary digits. -/
def ofQuotient? (num den : Int) : Option Probability :=
  if den = 0 then
    if num = 0 then none else if num < 0 then some never else some certain
  else if num = 0 ∨ (num < 0) ≠ (den < 0) then some never
  else some (ratio (Rounding.toPrecision num.natAbs) (Rounding.toPrecision den.natAbs))

end Probability

end TensorFuzz
