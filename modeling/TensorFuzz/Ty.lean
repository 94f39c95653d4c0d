import TensorFuzz.Fault

/-!
# Types

The closed set of types of the generated language, with the questions asked of them and the types
derived from them. Vectors and matrices have at least one element in each dimension: the functions
that build them refuse zero.
-/

namespace TensorFuzz

/-- The kind of number a scalar, vector or matrix holds. -/
inductive Kind
  | int
  | float
  deriving DecidableEq, Repr

def Kind.text : Kind → String
  | int => "int"
  | float => "float"

inductive Ty
  | bool
  | int
  | float
  | string
  | void
  | vector (kind : Kind) (length : Nat)
  | matrix (kind : Kind) (rows cols : Nat)
  | record (id : String)
  deriving DecidableEq, Repr

namespace Ty

def ofKind : Kind → Ty
  | .int => int
  | .float => float

/-- The vector type, unless the length is zero. -/
def vectorOf (kind : Kind) (length : Nat) : Except Fault Ty :=
  if length = 0 then .error .zeroVectorDimension else .ok (vector kind length)

/-- The matrix type, unless a dimension is zero. -/
def matrixOf (kind : Kind) (rows cols : Nat) : Except Fault Ty :=
  if rows = 0 ∨ cols = 0 then .error .zeroMatrixDimension else .ok (matrix kind rows cols)

/-! ## Questions -/

def isBool : Ty → Bool
  | bool => true
  | _ => false

def isInt : Ty → Bool
  | int => true
  | _ => false

def isNumber : Ty → Bool
  | int | float => true
  | _ => false

def isVector : Ty → Bool
  | vector .. => true
  | _ => false

def isMatrix : Ty → Bool
  | matrix .. => true
  | _ => false

def isVoid : Ty → Bool
  | void => true
  | _ => false

def isTensor (ty : Ty) : Bool := ty.isVector || ty.isMatrix

def kind? : Ty → Option Kind
  | int => some .int
  | float => some .float
  | vector kind _ => some kind
  | matrix kind _ _ => some kind
  | _ => none

def isArithmetic (ty : Ty) : Bool := ty.kind?.isSome

def recordId? : Ty → Option String
  | record id => some id
  | _ => none

/-- The length of a vector or the number of rows of a matrix; zero for other types. -/
def firstDimension : Ty → Nat
  | vector _ length => length
  | matrix _ rows _ => rows
  | _ => 0

/-- The number of columns of a matrix; zero for other types. -/
def secondDimension : Ty → Nat
  | matrix _ _ cols => cols
  | _ => 0

/-! ## Derived types -/

/-- The type of the entries of a vector or matrix; any other type itself. -/
def elementTy : Ty → Ty
  | vector kind _ => ofKind kind
  | matrix kind _ _ => ofKind kind
  | ty => ty

/-- The vector type of the same kind; a type without a kind itself. -/
def asVector (ty : Ty) (length : Nat) : Except Fault Ty :=
  match ty.kind? with
  | some kind => vectorOf kind length
  | none => .ok ty

/-- The matrix type of the same kind; a type without a kind itself. -/
def asMatrix (ty : Ty) (rows cols : Nat) : Except Fault Ty :=
  match ty.kind? with
  | some kind => matrixOf kind rows cols
  | none => .ok ty

/-- The operand types of a matrix product of the given type that contracts a dimension of size
`shared`; `none` for the types that are no such product. A vector is the product of a vector and a
matrix or of a matrix and a vector, as `vectorOnLeft` says. -/
def productOperands (ty : Ty) (shared : Nat) (vectorOnLeft : Bool) :
    Except Fault (Option (Ty × Ty)) :=
  match ty with
  | vector kind length =>
    if length ≤ 1 then .ok none
    else if vectorOnLeft then do
      let left ← vectorOf kind shared
      return some (left, ← matrixOf kind shared length)
    else do
      let left ← matrixOf kind length shared
      return some (left, ← vectorOf kind shared)
  | matrix kind rows cols =>
    if rows ≤ 1 ∨ cols ≤ 1 then .ok none
    else do
      let left ← matrixOf kind rows shared
      return some (left, ← matrixOf kind shared cols)
  | int => do
    let operand ← vectorOf .int shared
    return some (operand, operand)
  | float => do
    let operand ← vectorOf .float shared
    return some (operand, operand)
  | _ => .ok none

/-! ## Text -/

def text : Ty → String
  | bool => "bool"
  | int => "int"
  | float => "float"
  | string => "string"
  | void => "void"
  | vector kind length => "vector <" ++ kind.text ++ "> [" ++ toString length ++ "]"
  | matrix kind rows cols =>
    "matrix <" ++ kind.text ++ "> [" ++ toString rows ++ "][" ++ toString cols ++ "]"
  | record id => id

theorem vectorOf_eq_ok_iff {kind : Kind} {length : Nat} {ty : Ty} :
    vectorOf kind length = .ok ty ↔ length ≠ 0 ∧ vector kind length = ty := by
  unfold vectorOf
  split <;> simp_all

theorem matrixOf_eq_ok_iff {kind : Kind} {rows cols : Nat} {ty : Ty} :
    matrixOf kind rows cols = .ok ty ↔ (rows ≠ 0 ∧ cols ≠ 0) ∧ matrix kind rows cols = ty := by
  unfold matrixOf
  split <;> simp_all
  omega

end Ty

end TensorFuzz
