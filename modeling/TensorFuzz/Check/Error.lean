import TensorFuzz.Check.Token

/-!
# Errors of checking

The causes for which an expression text is rejected. The wording is in `Error.message` only.
-/

namespace TensorFuzz.Check

inductive Error
  | integerTooLarge
  | unterminated (text : String)
  | unexpectedChar (c : Char) (text : String)
  | trailing (rest : List Token) (text : String)
  | unexpectedEnd
  | unexpected (found : Token)
  | expectedSymbol (symbol : Symbol) (found : Option Token)
  | expectedIdent (found : Option Token)
  | mismatch (part : String) (expected found : Ty)
  | division (ty : Ty)
  | operands (symbol : Symbol) (left right : Ty)
  | comparison (ty : Ty)
  | negation (ty : Ty)
  | query (name : String) (ty : Ty)
  | boundsNotConstant
  | emptySlice (lo hi : Int)
  | sliceOf (ty : Ty)
  | indexing (ty : Ty)
  | unknownRecord (id : String)
  | literalSize (id : String) (values : Nat)
  | fieldOf (ty : Ty)
  | noField (id name : String)
  | notInScope (name : String)
  | functionNotCalled (name : String)
  | notFunction (name : String)
  | argumentCount (name : String) (args : Nat)
  | emptyList
  | mixedList (first other : Ty)
  | listOf (ty : Ty)
  | fault (cause : Fault)
  | tooDeep
  deriving DecidableEq, Repr

def Error.message : Error → String
  | integerTooLarge => "number too large to fit in target type"
  | unterminated text => "unterminated string in " ++ Text.quoted text
  | unexpectedChar c text =>
    "unexpected character " ++ Text.quotedChar c ++ " in " ++ Text.quoted text
  | trailing rest text => "trailing " ++ Token.listText rest ++ " in " ++ Text.quoted text
  | unexpectedEnd => "unexpected end of expression"
  | unexpected found => "unexpected " ++ found.text
  | expectedSymbol symbol found =>
    "expected " ++ Text.quoted symbol.text ++ ", found " ++ Token.optionText found
  | expectedIdent found => "expected identifier, found " ++ Token.optionText found
  | mismatch part expected found =>
    part ++ ": expected " ++ expected.text ++ ", found " ++ found.text
  | division ty => "division of " ++ ty.text
  | operands symbol left right => left.text ++ " " ++ symbol.text ++ " " ++ right.text
  | comparison ty => "comparison of " ++ ty.text
  | negation ty => "negation of " ++ ty.text
  | query name ty => "." ++ name ++ " of " ++ ty.text
  | boundsNotConstant => "subrange bounds are not constant"
  | emptySlice lo hi => "empty subrange " ++ toString lo ++ " : " ++ toString hi
  | sliceOf ty => "subrange of " ++ ty.text
  | indexing ty => "indexing " ++ ty.text
  | unknownRecord id => "unknown record " ++ id
  | literalSize id values => id ++ " literal with " ++ toString values ++ " values"
  | fieldOf ty => "field access on " ++ ty.text
  | noField id name => id ++ " has no field " ++ name
  | notInScope name => name ++ " is not in scope"
  | functionNotCalled name => "function " ++ name ++ " used without a call"
  | notFunction name => name ++ " is not a function"
  | argumentCount name args => name ++ " called with " ++ toString args ++ " arguments"
  | emptyList => "empty list literal"
  | mixedList first other => "list mixes " ++ first.text ++ " and " ++ other.text
  | listOf ty => "list of " ++ ty.text
  | fault cause => cause.message
  | tooDeep => "expression nested too deeply"

end TensorFuzz.Check
