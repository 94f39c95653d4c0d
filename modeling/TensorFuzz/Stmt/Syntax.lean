import TensorFuzz.Expr.Syntax
import TensorFuzz.Ty.Spelled

/-!
# Statements

The syntax of statements, and the text of each.
-/

namespace TensorFuzz

/-- What an assignment assigns to. -/
inductive Target
  | variable (name : String)
  | field (name label : String)
  | entry (name : String) (index : Expr)
  | cell (name : String) (row col : Expr)
  deriving Repr

def Target.text : Target → String
  | .variable name => name
  | .field name label => name ++ " @ " ++ label
  | .entry name index => name ++ "[" ++ index.text ++ "]"
  | .cell name row col => name ++ "[" ++ row.text ++ "][" ++ col.text ++ "]"

structure Assignment where
  target : Target
  value : Expr
  deriving Repr

def Assignment.text (a : Assignment) : String := a.target.text ++ " = " ++ a.value.text

inductive CaseLabel
  | case (value : ConstExpr)
  | default
  deriving DecidableEq, Repr

def CaseLabel.text : CaseLabel → String
  | case value => "case " ++ value.text
  | default => "default"

mutual

inductive Stmt
  | declareValue (ty : SpelledTy) (name : String) (init : Expr)
  /-- A variable without an initial value. -/
  | declareVariable (ty : SpelledTy) (name : String)
  | assign (assignment : Assignment)
  | call (function : String) (args : List Expr)
  | conditional (condition : Expr) (yes : Stmt)
  | alternative (condition : Expr) (yes no : Stmt)
  | block (body : List Stmt)
  | switch (scrutinee : Expr) (cases : List Case)
  | loop (init : Assignment) (condition : Expr) (step : Assignment) (body : Stmt)
  | foreach (isVariable : Bool) (ty : SpelledTy) (name : String) (collection : Expr) (body : Stmt)

inductive Case
  | mk (label : CaseLabel) (body : Stmt)

end

def declarationWord (isVariable : Bool) : String := if isVariable then "var" else "val"

def spaced (texts : List String) : String := " ".intercalate texts

namespace Stmt

mutual

def text : Stmt → String
  | declareValue ty name init => "val " ++ ty.text ++ " " ++ name ++ " = " ++ init.text ++ " ;"
  | declareVariable ty name => "var " ++ ty.text ++ " " ++ name ++ " ;"
  | assign assignment => assignment.text ++ " ;"
  | call function args => (Expr.call function args).text ++ " ;"
  | conditional condition yes => "if (" ++ condition.text ++ ") " ++ yes.text
  | alternative condition yes no =>
    "if (" ++ condition.text ++ ") " ++ yes.text ++ " else " ++ no.text
  | block body => " \x7b " ++ spaced (texts body) ++ " \x7d "
  | switch scrutinee cases =>
    "switch (" ++ scrutinee.text ++ ") \x7b " ++ spaced (caseTexts cases) ++ " \x7d "
  | loop init condition step body =>
    "for(" ++ init.text ++ "; " ++ condition.text ++ "; " ++ step.text ++ ") " ++ body.text
  | foreach isVariable ty name collection body =>
    "foreach(" ++ declarationWord isVariable ++ " " ++ ty.text ++ " " ++ name ++ " : " ++
      collection.text ++ ") " ++ body.text

def texts : List Stmt → List String
  | [] => []
  | stmt :: stmts => stmt.text :: texts stmts

def caseTexts : List Case → List String
  | [] => []
  | .mk label body :: cases => (label.text ++ " : " ++ body.text) :: caseTexts cases

end

end Stmt

end TensorFuzz
