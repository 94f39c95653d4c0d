/-!
# Constant expressions

The syntax of constant expressions: literals, sums, differences, products, exact quotients, powers,
negations and parentheses, with the text of each.
-/

namespace TensorFuzz

inductive ConstExpr
  | literal (value : Nat)
  | sum (left right : ConstExpr)
  | difference (left right : ConstExpr)
  | product (left right : ConstExpr)
  | quotient (left right : ConstExpr)
  | power (base exponent : ConstExpr)
  | negation (operand : ConstExpr)
  | group (inner : ConstExpr)
  deriving DecidableEq, Repr

namespace ConstExpr

/-- The text of a constant expression. Parentheses stand only where the tree has a group. -/
def text : ConstExpr → String
  | literal value => toString value
  | sum left right => left.text ++ " + " ++ right.text
  | difference left right => left.text ++ " - " ++ right.text
  | product left right => left.text ++ " * " ++ right.text
  | quotient left right => left.text ++ " / " ++ right.text
  | power base exponent => base.text ++ " ^ " ++ exponent.text
  | negation operand => "-" ++ operand.text
  | group inner => "(" ++ inner.text ++ ")"

end ConstExpr

end TensorFuzz
