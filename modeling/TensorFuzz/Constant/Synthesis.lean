import TensorFuzz.Constant.Expr
import TensorFuzz.Constant.Search
import TensorFuzz.Random.Draw

/-!
# Synthesis of constant expressions

An integer is spelled as a random constant expression of its value. There are five forms, each of which
either decomposes the integer or hands it to the next: sums and differences, products and exact
quotients, signs, powers, and atoms. A part of a decomposition has one level less to go; at the last
level only the sign and the literal are left.
-/

namespace TensorFuzz.Constant

open Draw

variable {σ : Type} [RandomSource σ]

/-- The forms a constant can be spelled in, loosest first. -/
inductive Form
  | sum
  | product
  | sign
  | power
  | atom
  deriving DecidableEq, Repr

/-- A way to spell an integer in each form. -/
abbrev Speller (σ : Type) := Form → Int → Draw σ ConstExpr

def sumChance : Draw σ Bool := event 3 10

def productChance : Draw σ Bool := event 3 10

def powerChance : Draw σ Bool := event 2 10

def groupChance : Draw σ Bool := event 7 100

def evenChance : Draw σ Bool := event 1 2

/-- The spelling with no level left: a literal, with a sign if needed. -/
def plain (value : Int) : ConstExpr :=
  if value < 0 then .negation (.literal value.natAbs) else .literal value.natAbs

section
variable (below : Speller σ)

def spellAtom (value : Int) : Draw σ ConstExpr := do
  if (← groupChance) ∧ Fits64 value then
    return .group (← below .sum value)
  return .literal value.natAbs

def spellPower (value : Int) : Draw σ ConstExpr := do
  if 4 ≤ value then
    if ← powerChance then
      if let some (base, exponent) ← pick? (Search.perfectPowers value.natAbs) then
        let base ← below .atom base
        return .power base (← below .power exponent)
  spellAtom below value

def spellSign (value : Int) : Draw σ ConstExpr := do
  let magnitude ← spellPower below value.natAbs
  return if value < 0 then .negation magnitude else magnitude

/-- A product of a divisor pair, an exact quotient, or a signed value. -/
def spellProduct (value : Int) : Draw σ ConstExpr := do
  if ← productChance then
    if ← evenChance then
      if let some divisor ← pick? (Search.divisors value) then
        let left ← below .product divisor
        return .product left (← below .sign (value.tdiv divisor))
    else
      let factor ← intIn 1 5
      let scaled := value * factor
      if Fits64 scaled ∧ scaled.natAbs ≤ Search.limit then
        let left ← below .product scaled
        return .quotient left (← below .sign factor)
  spellSign below value

def spellSum (value : Int) : Draw σ ConstExpr := do
  if ← sumChance then
    let offset ← intIn 0 14
    if ← evenChance then
      if Fits64 (value - offset) then
        let left ← below .sum offset
        return .sum left (← below .product (value - offset))
    else
      if Fits64 (value + offset) then
        let left ← below .sum (value + offset)
        return .difference left (← below .product offset)
  spellProduct below value

end

/-- The spellings with the given number of levels left. -/
def spell : Nat → Speller σ
  | 0, _, value => return plain value
  | levels + 1, .sum, value => spellSum (spell levels) value
  | levels + 1, .product, value => spellProduct (spell levels) value
  | levels + 1, .sign, value => spellSign (spell levels) value
  | levels + 1, .power, value => spellPower (spell levels) value
  | levels + 1, .atom, value => spellAtom (spell levels) value

/-- A random constant expression of the given value, with at most `levels` levels of decomposition. -/
def synthesize (levels : Nat) (value : Int) : Draw σ ConstExpr := spell levels .sum value

end TensorFuzz.Constant
