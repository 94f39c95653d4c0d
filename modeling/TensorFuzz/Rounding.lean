/-!
# Rounding

Rounding of quotients of natural numbers to the nearest integer, a half going to the even neighbour,
and the two uses made of it: keeping the 53 leading binary digits of a number, and writing a quotient
with a fixed number of decimal places.
-/

namespace TensorFuzz.Rounding

/-- The integer nearest to `num / den`; of two nearest ones, the even one. -/
def halfEven (num den : Nat) : Nat :=
  let q := num / den
  let r := num % den
  if 2 * r < den ∨ 2 * r = den ∧ q % 2 = 0 then q else q + 1

/-- The nearest number with at most 53 significant binary digits. -/
def toPrecision (n : Nat) : Nat :=
  let unit := 1 <<< (n.log2 - 52)
  halfEven n unit * unit

/-- `toPrecision` on the magnitude, with the sign kept. -/
def toPrecisionInt (n : Int) : Int :=
  if n < 0 then -(toPrecision n.natAbs : Int) else (toPrecision n.natAbs : Int)

/-- A binary fraction `mantissa / 2 ^ places`. -/
structure BinaryFraction where
  mantissa : Nat
  places : Nat
  deriving DecidableEq, Repr

/-- The nearest binary fraction with 53 significant digits to a quotient below one. -/
def quotient (num den : Nat) : BinaryFraction :=
  let places := 52 + den.log2 - num.log2
  let places := if num <<< places < den <<< 52 then places + 1 else places
  ⟨halfEven (num <<< places) den, places⟩

end TensorFuzz.Rounding
