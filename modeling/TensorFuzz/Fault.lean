/-!
# Faults

The ways in which generation or checking can be stopped. A fault is a cause; its wording is in
`Fault.message` only.
-/

namespace TensorFuzz

/-- A cause for which a computation stops without a result. -/
inductive Fault
  /-- A vector type was asked for with no elements. -/
  | zeroVectorDimension
  /-- A matrix type was asked for without rows or without columns. -/
  | zeroMatrixDimension
  /-- The module frame was to be closed. -/
  | exitWithoutDescend
  /-- A record was to be registered under an identifier already in use. -/
  | duplicateRecord (id : String)
  /-- An event was to be drawn with a probability that does not lie between zero and one. -/
  | invalidProbability
  /-- The smallest 128-bit integer was to be reduced modulo minus one. -/
  | remainderOverflow
  /-- A difference does not fit the word for it. -/
  | subtractOverflow
  /-- A sum does not fit the word for it. -/
  | addOverflow
  /-- A product does not fit the word for it. -/
  | multiplyOverflow
  /-- A negated number does not fit the word for it. -/
  | negateOverflow
  /-- No word is left for the nesting depth of an operand. -/
  | depthOverflow
  /-- A single draw does not end. -/
  | endless
  deriving DecidableEq, Repr

namespace Fault

def message : Fault → String
  | zeroVectorDimension => "vector dimension must be at least 1"
  | zeroMatrixDimension => "matrix dimensions must be at least 1"
  | exitWithoutDescend => "scope exit without a matching descend"
  | duplicateRecord id => "record '" ++ id ++ "' is already defined"
  | invalidProbability =>
    "called `Result::unwrap()` on an `Err` value: InvalidProbability"
  | remainderOverflow => "attempt to calculate the remainder with overflow"
  | subtractOverflow => "attempt to subtract with overflow"
  | addOverflow => "attempt to add with overflow"
  | multiplyOverflow => "attempt to multiply with overflow"
  | negateOverflow => "attempt to negate with overflow"
  | depthOverflow => "attempt to add with overflow"
  | endless => "the computation does not end"

end Fault

end TensorFuzz
