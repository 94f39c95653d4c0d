import TensorFuzz.Expr.Syntax
import TensorFuzz.Proofs.Check.Grammar
import TensorFuzz.Proofs.Constant.Spelling

/-!
# Types of expression trees

`Expr.HasType` is the typing judgment on trees: the expression has the type in a scope with a registry, and it
may stand at a level of the grammar without parentheses around it. It is declared by one rule for each form of
expression; all operators between two operands share a rule.
-/

namespace TensorFuzz

open Check (arithmetic dotProduct matrixProduct listTy indexCount sliceTy windowTy isIdentStart isIdentChar
  labelledTy)

/-! ## Operators -/

namespace BinaryOp

/-- The symbol that an operator is written with. -/
def symbol : BinaryOp → Check.Symbol
  | or => .bar
  | and => .ampersand
  | equal => .equal
  | atMost => .atMost
  | atLeast => .atLeast
  | unequal => .unequal
  | greater => .greater
  | less => .less
  | add => .plus
  | subtract => .minus
  | multiply => .star
  | divide => .slash
  | power => .caret
  | dot => .dot
  | matmul => .hash

/-- The level of an operator. -/
def level : BinaryOp → Level
  | or => .or
  | and => .and
  | equal | atMost | atLeast | unequal | greater | less => .compare
  | add | subtract => .sum
  | multiply | divide => .product
  | power => .power
  | dot => .dot
  | matmul => .matmul

/-- The level of the left operand; that of the operator itself where it groups to the left. -/
def leftLevel : BinaryOp → Level
  | or => .and
  | and => .not
  | equal | atMost | atLeast | unequal | greater | less => .sum
  | add | subtract => .sum
  | multiply | divide => .product
  | power => .query
  | dot => .dot
  | matmul => .matmul

/-- The level of the right operand; that of the operator itself where it groups to the right. -/
def rightLevel : BinaryOp → Level
  | or => .or
  | and => .and
  | equal | atMost | atLeast | unequal | greater | less => .sum
  | add | subtract => .product
  | multiply | divide => .negate
  | power => .power
  | dot => .matmul
  | matmul => .slice

/-- The operator combines operands of two types to a value of the third. -/
def Joins (op : BinaryOp) (left right result : Ty) : Prop :=
  match op with
  | or | and => left = .bool ∧ right = .bool ∧ result = .bool
  | equal | atMost | atLeast | unequal | greater | less => left.isNumber ∧ right = left ∧ result = .bool
  | add | subtract | multiply | divide | power => arithmetic op.symbol left right = .ok result
  | dot => dotProduct left right = .ok result
  | matmul => matrixProduct left right = .ok result

end BinaryOp

/-- The name of a query about the size of a vector or matrix. -/
def SizeQuery.name : SizeQuery → String
  | dimension => "dimension"
  | rows => "rows"
  | cols => "cols"

/-- The query asks for a size that the type has. -/
def SizeQuery.Fits : SizeQuery → Ty → Prop
  | dimension, ty => ty.isVector
  | rows, ty | cols, ty => ty.isMatrix

/-! ## Names -/

/-- The text is read as one identifier. -/
def Check.IsName (name : String) : Prop :=
  ∃ c cs, name.toList = c :: cs ∧ isIdentStart c = true ∧ ∀ d ∈ cs, isIdentChar d = true

/-- The text is an identifier that is no truth value. -/
structure Check.IsReference (name : String) : Prop where
  isName : IsName name
  ne_true : name ≠ "true"
  ne_false : name ≠ "false"

/-- The value, or its field with the label. -/
def Expr.labelled (source : Expr) : Option String → Expr
  | none => source
  | some label => .field source label

/-! ## The judgment -/

/-- The expression has the type and may stand at the level. -/
inductive Expr.HasType (scope : Scope) (records : Registry) : Level → Expr → Ty → Prop
  | lift {level tighter : Level} {x : Expr} {ty : Ty} : level.tighter? = some tighter →
      HasType scope records tighter x ty → HasType scope records level x ty
  | bool (value : Bool) : HasType scope records .atom (.bool value) .bool
  | int {value : Nat} : Fits128 value → HasType scope records .atom (.int value) .int
  | float (parts : Nat) : HasType scope records .atom (.float parts) .float
  | string {content : String} : '"' ∉ content.toList → HasType scope records .atom (.string content) .string
  | list {items : List Expr} {item ty : Ty} : (∀ x ∈ items, HasType scope records .select x item) →
      listTy (items.map fun _ => item) = .ok ty → HasType scope records .atom (.list items) ty
  | record {id : String} {values : List Expr} {fields : List Field} : Check.IsName id →
      records.fields? id = some fields → values.length = fields.length →
      (∀ part ∈ values.zip fields, HasType scope records .select part.1 part.2.ty) →
      HasType scope records .atom (.record id values) (.record id)
  | name {id : String} {b : Binding} {ty : Ty} (label : Option String) : Check.IsReference id →
      (∀ l ∈ label, Check.IsName l) → scope.lookup? id = some b → b.isFunction = false →
      labelledTy records b.ty label = .ok ty → HasType scope records .atom ((Expr.name id).labelled label) ty
  | call {id : String} {b : Binding} {args : List Expr} {ty : Ty} (label : Option String) :
      Check.IsReference id → (∀ l ∈ label, Check.IsName l) → scope.lookup? id = some b → b.isFunction = true →
      args.length = b.params.length →
      (∀ part ∈ args.zip b.params, HasType scope records .select part.1 part.2) →
      labelledTy records b.ty label = .ok ty → HasType scope records .atom ((Expr.call id args).labelled label) ty
  | group {x : Expr} {ty : Ty} : HasType scope records .select x ty → HasType scope records .atom (.group x) ty
  | entry {source index : Expr} {kind : Kind} {length : Nat} :
      HasType scope records .atom source (.vector kind length) → HasType scope records .select index .int →
      HasType scope records .element (.entry source index) (.ofKind kind)
  | row {source index : Expr} {kind : Kind} {rows cols : Nat} :
      HasType scope records .atom source (.matrix kind rows cols) → HasType scope records .select index .int →
      HasType scope records .element (.row source index) (.vector kind cols)
  | slice {source step : Expr} {lo hi : ConstExpr} {kind : Kind} {length count : Nat} {a b : Int} :
      HasType scope records .element source (.vector kind length) → lo.Denotes .sum a →
      HasType scope records .select step .int → hi.Denotes .sum b → indexCount a b = .ok count →
      HasType scope records .slice (.slice source lo step hi) (sliceTy kind count)
  | window {source rowStep colStep : Expr} {rowLo rowHi colLo colHi : ConstExpr} {kind : Kind}
      {rows cols height width : Nat} {a b c d : Int} :
      HasType scope records .element source (.matrix kind rows cols) → rowLo.Denotes .sum a →
      HasType scope records .select rowStep .int → rowHi.Denotes .sum b → indexCount a b = .ok height →
      colLo.Denotes .sum c → HasType scope records .select colStep .int → colHi.Denotes .sum d →
      indexCount c d = .ok width →
      HasType scope records .slice (.window source rowLo rowStep rowHi colLo colStep colHi)
        (windowTy kind height width)
  | query {source : Expr} {query : SizeQuery} {ty : Ty} : HasType scope records .dot source ty → query.Fits ty →
      HasType scope records .query (.query source query) .int
  | binary {op : BinaryOp} {left right : Expr} {l r ty : Ty} : HasType scope records op.leftLevel left l →
      HasType scope records op.rightLevel right r → op.Joins l r ty →
      HasType scope records op.level (.binary op left right) ty
  | negate {x : Expr} {ty : Ty} : HasType scope records .negate x ty → ty.isNumber →
      HasType scope records .negate (.negate x) ty
  | not {x : Expr} : HasType scope records .compare x .bool → HasType scope records .not (.not x) .bool
  | select {condition yes no : Expr} {ty : Ty} : HasType scope records .or condition .bool →
      HasType scope records .or yes ty → HasType scope records .or no ty →
      HasType scope records .select (.select condition yes no) ty

theorem Expr.HasType.loosen {scope : Scope} {records : Registry} {level level' : Level} {x : Expr} {ty : Ty}
    (h : x.HasType scope records level ty) (hle : Check.levelRank level ≤ Check.levelRank level') :
    x.HasType scope records level' ty :=
  Check.loosen (P := fun level => x.HasType scope records level ty) (fun _ _ => .lift) hle h

/-- A complete operand is a selection. -/
theorem Expr.HasType.of_whole {scope : Scope} {records : Registry} {level : Level} {x : Expr} {ty : Ty}
    (h : x.HasType scope records level ty) (hlevel : level = .whole) : x.HasType scope records .select ty := by
  cases h with
  | lift htighter h =>
    subst hlevel
    cases htighter
    exact h
  | @binary op => cases op <;> cases hlevel
  | _ => cases hlevel

end TensorFuzz
