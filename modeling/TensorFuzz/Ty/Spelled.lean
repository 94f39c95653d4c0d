import TensorFuzz.Ty
import TensorFuzz.Constant.Synthesis

/-!
# Spelled types

A type as a declaration writes it: each dimension is spelled as a constant expression, so that two
spellings of a type may differ in text but not in value.
-/

namespace TensorFuzz

inductive SpelledTy
  | plain (ty : Ty)
  | vector (kind : Kind) (length : ConstExpr)
  | matrix (kind : Kind) (rows cols : ConstExpr)
  deriving DecidableEq, Repr

namespace SpelledTy

def text : SpelledTy → String
  | plain ty => ty.text
  | vector kind length => "vector <" ++ kind.text ++ "> [" ++ length.text ++ "]"
  | matrix kind rows cols =>
    "matrix <" ++ kind.text ++ "> [" ++ rows.text ++ "][" ++ cols.text ++ "]"

end SpelledTy

/-- Spells the dimensions of a type, with at most `levels` levels in each constant. A dimension is
spelled as the signed word that holds it. -/
def Ty.spell {σ : Type} [RandomSource σ] (levels : Nat) : Ty → Draw σ SpelledTy
  | .vector kind length => do
    return .vector kind (← Constant.synthesize levels (signed64 length))
  | .matrix kind rows cols => do
    let rows ← Constant.synthesize levels (signed64 rows)
    return .matrix kind rows (← Constant.synthesize levels (signed64 cols))
  | ty => return .plain ty

end TensorFuzz
