import TensorFuzz.Check.Scan
import TensorFuzz.Expr.Syntax
import TensorFuzz.Scope

/-!
# Types of expressions

An expression text is read level by level of the grammar, and its type is computed on the way against a
scope and a registry of records. Integer constants are folded, so that the bounds of slices can be
measured.

The readers of the levels are functions of the readers for nested parts (`inner`), which are called
only after a token was taken; `readers` ties them by recursion on a bound of the nesting, which the
number of tokens provides.
-/

namespace TensorFuzz.Check

/-- The type of a part, and its value if it is an integer constant. -/
structure Typed where
  ty : Ty
  value : Option Int
  deriving DecidableEq, Repr

def Typed.of (ty : Ty) : Typed := ⟨ty, none⟩

/-! ## Rules -/

def require (found expected : Ty) (part : String) : Except Error Unit :=
  if found = expected then .ok () else .error (.mismatch part expected found)

/-- One operand is a vector or matrix and the other a number of the same kind, where the operator
allows that: on either side of a sum or product, and for the exponent of a power. -/
def broadcasts (op : Symbol) (left right : Ty) : Bool :=
  match op with
  | .plus | .star =>
    (left.isTensor && right == left.elementTy) || (right.isTensor && left == right.elementTy)
  | .caret => left.isTensor && right == left.elementTy
  | _ => false

def arithmetic (op : Symbol) (left right : Ty) : Except Error Ty :=
  if left = right ∧ left.isArithmetic then
    if op = .slash ∧ !left.isNumber then .error (.division left) else .ok left
  else if broadcasts op left right then
    .ok (if left.isTensor then left else right)
  else .error (.operands op left right)

def dotProduct : Ty → Ty → Except Error Ty
  | .vector k n, .vector l m =>
    if k = l ∧ n = m then .ok (.ofKind k) else .error (.operands .dot (.vector k n) (.vector l m))
  | left, right => .error (.operands .dot left right)

def matrixProduct (left right : Ty) : Except Error Ty :=
  let result := match left, right with
    | .vector k n, .vector l m => if k = l ∧ n = m then some (Ty.ofKind k) else none
    | .vector k n, .matrix l rows cols => if k = l ∧ n = rows then some (.vector k cols) else none
    | .matrix k rows cols, .vector l n => if k = l ∧ cols = n then some (.vector k rows) else none
    | .matrix k rows shared, .matrix l shared' cols =>
      if k = l ∧ shared = shared' then some (.matrix k rows cols) else none
    | _, _ => none
  match result with
  | some ty => .ok ty
  | none => .error (.operands .hash left right)

/-- The value of an operation on two constants, if it has one. -/
def fold (op : Symbol) (left right : Option Int) : Except Error (Option Int) :=
  match left, right with
  | some a, some b =>
    match op with
    | .plus => .ok (checked128 (a + b))
    | .minus => .ok (checked128 (a - b))
    | .star => .ok (checked128 (a * b))
    | .slash =>
      if b = 0 then .ok none
      else if a = least128 ∧ b = -1 then .error (.fault .remainderOverflow)
      else .ok (if a.tmod b = 0 then some (a.tdiv b) else none)
    | .caret => .ok (if 0 ≤ b ∧ b < limit32 then checkedPow128 a b.toNat else none)
    | _ => .ok none
  | _, _ => .ok none

def operate (op : Symbol) (left right : Typed) : Except Error Typed := do
  let ty ← arithmetic op left.ty right.ty
  return ⟨ty, ← fold op left.value right.value⟩

def sizeQuery (name : String) (ty : Ty) : Except Error Typed :=
  if name = "dimension" ∧ ty.isVector ∨ (name = "rows" ∨ name = "cols") ∧ ty.isMatrix then
    .ok (.of .int)
  else .error (.query name ty)

/-- The number of indices from `lo` to `hi`, where signed 128-bit words hold it and what it is computed from. -/
def indexCount (lo hi : Int) : Except Error Nat :=
  if ¬ Fits128 (hi - lo) then .error (.fault .subtractOverflow)
  else if ¬ Fits128 (hi - lo + 1) then .error (.fault .addOverflow)
  else if 1 ≤ hi - lo + 1 ∧ hi - lo + 1 < limit64 then .ok (hi - lo + 1).toNat
  else .error (.emptySlice lo hi)

/-- The vector that a number of entries makes up; a single entry is a number. -/
def sliceTy (kind : Kind) (count : Nat) : Ty :=
  if count = 1 then .ofKind kind else .vector kind count

/-- The matrix that a window makes up; a single row is a vector. -/
def windowTy (kind : Kind) (rows cols : Nat) : Ty :=
  if rows = 1 then sliceTy kind cols else .matrix kind rows cols

def entryTy : Ty → Except Error Ty
  | .vector kind _ => .ok (.ofKind kind)
  | .matrix kind _ cols => .ok (.vector kind cols)
  | ty => .error (.indexing ty)

/-- The type of a list literal: a vector of numbers, or a matrix of vectors of one length. -/
def listTy (items : List Ty) : Except Error Ty :=
  match items with
  | [] => .error .emptyList
  | first :: _ =>
    match items.find? (· ≠ first) with
    | some other => .error (.mixedList first other)
    | none =>
      match first with
      | .int => .ok (.vector .int items.length)
      | .float => .ok (.vector .float items.length)
      | .vector kind cols => .ok (.matrix kind items.length cols)
      | ty => .error (.listOf ty)

def requireFields : List Field → List Ty → Except Error Unit
  | field :: fields, ty :: tys => do
    require ty field.ty field.name
    requireFields fields tys
  | _, _ => .ok ()

def recordTy (records : Registry) (id : String) (values : List Ty) : Except Error Ty :=
  match records.fields? id with
  | none => .error (.unknownRecord id)
  | some fields =>
    if fields.length ≠ values.length then .error (.literalSize id values.length)
    else do
      requireFields fields values
      return .record id

def fieldTy (records : Registry) (ty : Ty) (name : String) : Except Error Ty :=
  match ty.recordId? with
  | none => .error (.fieldOf ty)
  | some id =>
    match records.fieldNamed? id name with
    | none => .error (.noField id name)
    | some field => .ok field.ty

def requireArgs (function : String) : List Ty → List Ty → Except Error Unit
  | param :: params, arg :: args => do
    require arg param function
    requireArgs function params args
  | _, _ => .ok ()

def callTy (binding : Binding) (args : List Ty) : Except Error Ty :=
  if args.length ≠ binding.params.length then .error (.argumentCount binding.name args.length)
  else do
    requireArgs binding.name binding.params args
    return binding.ty

/-! ## Readers -/

/-- What is read off the front of a list of tokens, and what is left. -/
abbrev Reader := StateT (List Token) (Except Error)

abbrev Readers := Level → Reader Typed

def peek : Reader (Option Token) := do return (← get).head?

def eat (symbol : Symbol) : Reader Bool := do
  match ← get with
  | .symbol s :: rest => if s = symbol then set rest; return true else return false
  | _ => return false

def eatOneOf (symbols : List Symbol) : Reader (Option Symbol) := do
  match ← get with
  | .symbol s :: rest => if s ∈ symbols then set rest; return some s else return none
  | _ => return none

def expect (symbol : Symbol) : Reader Unit := do
  if !(← eat symbol) then
    throw (.expectedSymbol symbol (← peek))

def ident : Reader String := do
  match ← get with
  | .ident name :: rest => set rest; return name
  | found => throw (.expectedIdent found.head?)

def comparisons : List Symbol := [.equal, .unequal, .atMost, .atLeast, .less, .greater]

section
variable (scope : Scope) (records : Registry) (inner : Readers)

/-- Further parts of a list up to the closing symbol, at most `fuel` of them. -/
def listTail (close : Symbol) : Nat → Reader (List Ty)
  | 0 => throw .tooDeep
  | fuel + 1 => do
    let item ← inner .select
    if ← eat close then return [item.ty]
    expect .comma
    return item.ty :: (← listTail close fuel)

def list (close : Symbol) : Reader (List Ty) := do
  if ← eat close then return []
  listTail inner close ((← get).length + 1)

def reference (name : String) : Reader Ty := do
  match scope.lookup? name with
  | none => throw (.notInScope name)
  | some binding =>
    if ← eat .openParen then
      if !binding.isFunction then throw (.notFunction name)
      callTy binding (← list inner .closeParen)
    else
      if binding.isFunction then throw (.functionNotCalled name)
      return binding.ty

/-- A literal, a parenthesized expression, an identifier, a call, or a field of one of these two. -/
def atom : Reader Typed := do
  match ← get with
  | [] => throw .unexpectedEnd
  | token :: rest =>
    set rest
    match token with
    | .int value => return ⟨.int, some value⟩
    | .float => return .of .float
    | .string => return .of .string
    | .symbol .openParen =>
      let typed ← inner .select
      expect .closeParen
      return typed
    | .symbol .openBracket => return .of (← listTy (← list inner .closeBracket))
    | .symbol .at =>
      let id ← ident
      expect .openBracket
      let values ← list inner .closeBracket
      return .of (← recordTy records id values)
    | .ident name =>
      if name = "true" ∨ name = "false" then return .of .bool
      let ty ← reference scope inner name
      if ← eat .at then
        return .of (← fieldTy records ty (← ident))
      return .of ty
    | token => throw (.unexpected token)

def element : Reader Typed := do
  let source ← atom scope records inner
  if ← eat .openBracket then
    let index ← inner .select
    expect .closeBracket
    require index.ty .int "index"
    return .of (← entryTy source.ty)
  return source

/-- The bounds of a slice; gives the number of indices between them. -/
def bounds : Reader Nat := do
  let lo ← inner .select
  expect .colon
  let step ← inner .select
  expect .colon
  let hi ← inner .select
  require lo.ty .int "subrange bound"
  require step.ty .int "subrange bound"
  require hi.ty .int "subrange bound"
  match lo.value, hi.value with
  | some lo, some hi => indexCount lo hi
  | _, _ => throw .boundsNotConstant

def slice : Reader Typed := do
  let source ← element scope records inner
  if ← eat .openBrace then
    match source.ty with
    | .vector kind _ =>
      let count ← bounds inner
      expect .closeBrace
      return .of (sliceTy kind count)
    | .matrix kind _ _ =>
      let rows ← bounds inner
      expect .closeBrace
      expect .openBrace
      let cols ← bounds inner
      expect .closeBrace
      return .of (windowTy kind rows cols)
    | ty => throw (.sliceOf ty)
  return source

/-- Further factors of a matrix product, at most `fuel` of them. -/
def matmulTail : Nat → Typed → Reader Typed
  | 0, left => return left
  | fuel + 1, left => do
    if ← eat .hash then
      let right ← slice scope records inner
      matmulTail fuel (.of (← matrixProduct left.ty right.ty))
    else return left

def matmul : Reader Typed := do
  let left ← slice scope records inner
  matmulTail scope records inner (← get).length left

/-- Further factors of a dot product, at most `fuel` of them. -/
def dotTail : Nat → Typed → Reader Typed
  | 0, left => return left
  | fuel + 1, left => do
    if ← eat .dot then
      let right ← matmul scope records inner
      dotTail fuel (.of (← dotProduct left.ty right.ty))
    else return left

def dot : Reader Typed := do
  let left ← matmul scope records inner
  dotTail scope records inner (← get).length left

/-- A dot product, or a question about its size. -/
def query : Reader Typed := do
  let operand ← dot scope records inner
  match ← get with
  | .query name :: rest =>
    set rest
    sizeQuery name operand.ty
  | _ => return operand

/-- A power, which groups to the right. -/
def power : Reader Typed := do
  let base ← query scope records inner
  if ← eat .caret then
    operate .caret base (← inner .power)
  else return base

def negate : Reader Typed := do
  if ← eat .minus then
    let operand ← inner .negate
    if !operand.ty.isNumber then throw (.negation operand.ty)
    return ⟨operand.ty, operand.value.bind fun v => checked128 (-v)⟩
  else power scope records inner

/-- Further factors and divisors, at most `fuel` of them. -/
def productTail : Nat → Typed → Reader Typed
  | 0, left => return left
  | fuel + 1, left => do
    match ← eatOneOf [.star, .slash] with
    | some op => productTail fuel (← operate op left (← negate scope records inner))
    | none => return left

def product : Reader Typed := do
  let left ← negate scope records inner
  productTail scope records inner (← get).length left

/-- Further summands, at most `fuel` of them. -/
def sumTail : Nat → Typed → Reader Typed
  | 0, left => return left
  | fuel + 1, left => do
    match ← eatOneOf [.plus, .minus] with
    | some op => sumTail fuel (← operate op left (← product scope records inner))
    | none => return left

def sum : Reader Typed := do
  let left ← product scope records inner
  sumTail scope records inner (← get).length left

def compare : Reader Typed := do
  let left ← sum scope records inner
  match ← eatOneOf comparisons with
  | none => return left
  | some op =>
    let right ← sum scope records inner
    if !left.ty.isNumber then throw (.comparison left.ty)
    require right.ty left.ty op.text
    return .of .bool

def not : Reader Typed := do
  if ← eat .bang then
    let operand ← compare scope records inner
    require operand.ty .bool "!"
    return .of .bool
  else compare scope records inner

/-- A conjunction, which groups to the right. -/
def and : Reader Typed := do
  let left ← not scope records inner
  if ← eat .ampersand then
    let right ← inner .and
    require left.ty .bool "&"
    require right.ty .bool "&"
    return .of .bool
  else return left

/-- A disjunction, which groups to the right. -/
def or : Reader Typed := do
  let left ← and scope records inner
  if ← eat .bar then
    let right ← inner .or
    require left.ty .bool "|"
    require right.ty .bool "|"
    return .of .bool
  else return left

def select : Reader Typed := do
  let condition ← or scope records inner
  if ← eat .question then
    require condition.ty .bool "select condition"
    let yes ← or scope records inner
    expect .colon
    let no ← or scope records inner
    require no.ty yes.ty "select branches"
    return .of yes.ty
  else return condition

/-- The readers, given those of nested parts. -/
def grammar : Readers
  | .whole | .select => select scope records inner
  | .or => or scope records inner
  | .and => and scope records inner
  | .not => not scope records inner
  | .compare => compare scope records inner
  | .sum => sum scope records inner
  | .product => product scope records inner
  | .negate => negate scope records inner
  | .power => power scope records inner
  | .query => query scope records inner
  | .dot => dot scope records inner
  | .matmul => matmul scope records inner
  | .slice => slice scope records inner
  | .element => element scope records inner
  | .atom => atom scope records inner

end

/-- The readers for expressions nested less than `fuel` deep. -/
def readers (scope : Scope) (records : Registry) : Nat → Readers
  | 0, _ => throw .tooDeep
  | fuel + 1, level => grammar scope records (readers scope records fuel) level

/-- The type of the expression that a list of tokens begins with, and the tokens after it. -/
def typeOf (scope : Scope) (records : Registry) (tokens : List Token) :
    Except Error (Typed × List Token) :=
  (readers scope records (tokens.length + 1) .select).run tokens

/-- The type of an expression text. -/
def check (scope : Scope) (records : Registry) (text : String) : Except Error Ty := do
  let (typed, rest) ← typeOf scope records (← tokens text)
  if rest.isEmpty then return typed.ty
  throw (.trailing rest text)

end TensorFuzz.Check
