import TensorFuzz.Constant.Expr
import TensorFuzz.Ty

/-!
# Expressions

The syntax of expressions, and the text of each. Operators are written without parentheses of their
own: those stand only where the tree has a group, so a tree has to respect the levels of precedence for
its text to be read back as the same tree.
-/

namespace TensorFuzz

/-- The levels of the expression grammar, loosest first. `whole` is a complete operand. Operands of an
operator stand at tighter levels, except where the operator groups to one side. -/
inductive Level
  | whole
  | select
  | or
  | and
  | not
  | compare
  | sum
  | product
  | negate
  | power
  | query
  | dot
  | matmul
  | slice
  | element
  | atom
  deriving DecidableEq, Repr

inductive BinaryOp
  | or
  | and
  | equal
  | atMost
  | atLeast
  | unequal
  | greater
  | less
  | add
  | subtract
  | multiply
  | divide
  | power
  | dot
  | matmul
  deriving DecidableEq, Repr

def BinaryOp.text : BinaryOp → String
  | or => "|"
  | and => "&"
  | equal => "=="
  | atMost => "<="
  | atLeast => ">="
  | unequal => "!="
  | greater => ">"
  | less => "<"
  | add => "+"
  | subtract => "-"
  | multiply => "*"
  | divide => "/"
  | power => "^"
  | dot => ".*"
  | matmul => "#"

inductive SizeQuery
  | dimension
  | rows
  | cols
  deriving DecidableEq, Repr

def SizeQuery.text : SizeQuery → String
  | dimension => ".dimension"
  | rows => ".rows"
  | cols => ".cols"

inductive Expr
  | nothing
  | bool (value : Bool)
  | int (value : Nat)
  /-- A float with five decimal places, counted in hundred-thousandths. -/
  | float (parts : Nat)
  | string (content : String)
  | list (items : List Expr)
  | record (id : String) (values : List Expr)
  | name (id : String)
  | call (function : String) (args : List Expr)
  | field (source : Expr) (name : String)
  | group (inner : Expr)
  | entry (source index : Expr)
  | row (source index : Expr)
  /-- The entries of a vector from `lo` to `hi`. -/
  | slice (source : Expr) (lo : ConstExpr) (step : Expr) (hi : ConstExpr)
  /-- The entries of a matrix in some rows and some columns. -/
  | window (source : Expr) (rowLo : ConstExpr) (rowStep : Expr) (rowHi : ConstExpr)
      (colLo : ConstExpr) (colStep : Expr) (colHi : ConstExpr)
  | query (source : Expr) (query : SizeQuery)
  | binary (op : BinaryOp) (left right : Expr)
  | negate (operand : Expr)
  | not (operand : Expr)
  | select (condition yes no : Expr)
  deriving Repr

namespace Expr

/-- A count of hundred-thousandths as a decimal number with five places. -/
def floatText (parts : Nat) : String :=
  let places := toString (parts % 100000)
  toString (parts / 100000) ++ "." ++ "".pushn '0' (5 - places.length) ++ places

mutual

def text : Expr → String
  | nothing => ""
  | bool true => "true"
  | bool false => "false"
  | int value => toString value
  | float parts => floatText parts
  | string content => "\"" ++ content ++ "\""
  | list items => "[" ++ commaText items ++ "]"
  | record id values => "@ " ++ id ++ " [" ++ commaText values ++ "]"
  | name id => id
  | call function args => function ++ "(" ++ commaText args ++ ")"
  | field source label => source.text ++ " @ " ++ label
  | group inner => "( " ++ inner.text ++ " )"
  | entry source index => source.text ++ " [" ++ index.text ++ "]"
  | row source index => source.text ++ "[" ++ index.text ++ "]"
  | slice source lo step hi =>
    source.text ++ " \x7b" ++ lo.text ++ " : " ++ step.text ++ " : " ++ hi.text ++ "\x7d"
  | window source rowLo rowStep rowHi colLo colStep colHi =>
    source.text ++ " \x7b" ++ rowLo.text ++ " : " ++ rowStep.text ++ " : " ++ rowHi.text ++
      " \x7d\x7b " ++ colLo.text ++ " : " ++ colStep.text ++ " : " ++ colHi.text ++ "\x7d"
  | query source size => source.text ++ " " ++ size.text
  | binary op left right => left.text ++ " " ++ op.text ++ " " ++ right.text
  | negate operand => "- " ++ operand.text
  | not operand => "! " ++ operand.text
  | select condition yes no => condition.text ++ " ? " ++ yes.text ++ " : " ++ no.text

/-- The texts of expressions with a comma and a space between any two. -/
def commaText : List Expr → String
  | [] => ""
  | [e] => e.text
  | e :: es => e.text ++ ", " ++ commaText es

end

end Expr

end TensorFuzz
