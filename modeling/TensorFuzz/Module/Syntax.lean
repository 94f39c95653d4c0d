import TensorFuzz.Stmt.Syntax

/-!
# Modules

The syntax of modules: functions and record declarations, among them the entry function, and the text of
each. Items are written on one line.
-/

namespace TensorFuzz

structure Parameter where
  ty : SpelledTy
  name : String
  deriving DecidableEq, Repr

def Parameter.text (param : Parameter) : String := param.ty.text ++ " " ++ param.name

structure Function where
  ty : SpelledTy
  name : String
  params : List Parameter
  body : List Stmt
  /-- What the function returns, unless it returns nothing. -/
  result : Option Expr

def returnText (result : Expr) : String := "return " ++ result.text ++ " ;"

def Function.text (f : Function) : String :=
  "function " ++ f.ty.text ++ " " ++ f.name ++ "(" ++ ", ".intercalate (f.params.map (·.text)) ++
    ") \x7b " ++ spaced (Stmt.texts f.body ++ (f.result.map returnText).toList) ++ " \x7d "

structure FieldDecl where
  isMutable : Bool
  ty : SpelledTy
  name : String
  deriving DecidableEq, Repr

def FieldDecl.text (field : FieldDecl) : String :=
  declarationWord field.isMutable ++ " " ++ field.ty.text ++ " " ++ field.name ++ " ;"

inductive Item
  | function (declaration : Function)
  | record (id : String) (fields : List FieldDecl)

def Item.isFunction : Item → Bool
  | function _ => true
  | record .. => false

def Item.text : Item → String
  | function declaration => declaration.text
  | record id fields => "record " ++ id ++ " \x7b " ++ spaced (fields.map (·.text)) ++ " \x7d "

def moduleText (items : List Item) : String := spaced (items.map (·.text))

end TensorFuzz
