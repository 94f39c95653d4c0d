import TensorFuzz.Random.Source
import TensorFuzz.Random.Probability
import TensorFuzz.Word

/-!
# Draws

What is drawn from a supply of words: bounded numbers, events of a given probability, list members and
fractions of one. A bounded number is the high half of the product of a word and the bound; words whose
product has its low half outside the accepted zone are rejected, so that all results are equally likely.
-/

namespace TensorFuzz

/-- The size of the word a bounded number is drawn from. -/
inductive Width
  | short
  | long
  deriving DecidableEq, Repr

def Width.bits : Width → Nat
  | short => 32
  | long => 64

def Width.limit : Width → Nat
  | short => limit32
  | long => limit64

namespace Draw

variable {σ : Type} [RandomSource σ]

def word : Width → Draw σ Nat
  | .short => do return (← next32).toNat
  | .long => do return (← next64).toNat

/-- The low halves below this are accepted: the bound, moved up to the leading bit of the word. -/
def acceptedZone (width : Width) (bound : Nat) : Nat :=
  bound <<< (width.bits - 1 - bound.log2)

/-- Takes words until one is accepted, and gives the high half of its product with the bound. -/
def scaled (width : Width) (bound : Nat) : Nat → Draw σ Nat
  | 0 => throw .endless
  | patience + 1 => do
    let product := (← word width) * bound
    if product % width.limit < acceptedZone width bound then
      return product / width.limit
    else
      scaled width bound patience

/-- A number below `bound`, each equally likely. A bound of all words takes the word itself. -/
def below (width : Width) (bound : Nat) : Draw σ Nat := do
  if bound = width.limit then word width
  else
    let supply ← get
    scaled width bound (supply.patience supply.source)

/-- A size from `low` to `high`, both included; `low` itself if there is no choice. -/
def sizeIn (low high : Nat) : Draw σ Nat := do
  if low ≥ high then return low
  return low + (← below .long (high - low + 1))

/-- An integer from `low` to `high`, both included; `low` itself if there is no choice. If that is every
signed 64-bit integer, the one that the word spells is taken. -/
def intIn (low high : Int) : Draw σ Int := do
  if low ≥ high then return low
  let count := (high - low + 1).toNat
  let offset ← below .long count
  if count = limit64 then return signed64 offset
  return low + offset

/-- Whether an event of probability `p` happens. For a certain event nothing is drawn. -/
def chance (p : Probability) : Draw σ Bool := do
  if p.favourable = limit64 then return true
  return (← next64).toNat < p.favourable

/-- Whether an event of probability `num / den` happens. What is no probability is refused. -/
def event (num den : Nat) : Draw σ Bool := do
  if den = 0 ∨ den < num then throw .invalidProbability
  chance (.ratio num den)

/-- A member of a list, each equally likely; nothing is drawn from an empty list. -/
def pick? {α : Type} : List α → Draw σ (Option α)
  | [] => return none
  | xs => do return xs[← below .short xs.length]?

def pick {α : Type} (first : α) (others : List α) : Draw σ α := do
  return (← pick? (first :: others)).getD first

/-- The denominator of fractions, which have 52 binary places. -/
def fractions : Nat := 0x10000000000000

/-- A fraction of one, given by its numerator. -/
def fraction : Draw σ Nat := do
  return (← next64).toNat / 0x1000

/-- The offset at a fraction of a size: the fraction of the size less half the size, each step kept to
53 significant binary digits, and the result cut toward zero. -/
def offsetOf (size fraction : Nat) : Int :=
  let part : Nat := Rounding.toPrecision (Rounding.toPrecision size * fraction)
  let half : Nat := Rounding.toPrecision (size / 2) * fractions
  clamp64 ((Rounding.toPrecisionInt (part - half : Int)).tdiv fractions)

/-- A random offset of about `-size / 2` to `size / 2`. -/
def centeredOffset (size : Nat) : Draw σ Int := do
  return offsetOf size (← fraction)

/-- A number from zero to below twenty, kept to 53 significant binary digits and then rounded to five
decimal places; the result counts hundred-thousandths. -/
def hundredThousandths : Draw σ Nat := do
  let value := Rounding.toPrecision (20 * (← fraction))
  return Rounding.halfEven (value * 100000) fractions

end Draw

end TensorFuzz
