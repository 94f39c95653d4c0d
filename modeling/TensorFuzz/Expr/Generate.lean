import TensorFuzz.Engine
import TensorFuzz.Expr.Syntax

/-!
# Expression generation

An expression of a required type is generated level by level of the grammar, from the loosest operator
to the atoms. A level either combines operands by an operator that gives that type, or hands the type
down to the next level. A combination spends one node of the expression and leaves its operands one
level of depth less; where no depth or no node is left, only literals remain.

Each level is a function of the levels one step deeper (`deeper`); `levels` ties them by recursion on
the depth that is left. Behind the last depth only literals nest, and a word must still hold their depth:
how often it can grow there is the `room`.
-/

namespace TensorFuzz

/-- A generator for each level and type. -/
abbrev Levels (σ : Type) := Level → Ty → Gen σ Expr

namespace Expr

open Gen

variable {σ : Type} [RandomSource σ]

/-! ## Literals -/

def strings : List String :=
  ["fizz", "buzz", "foo", "bar", "Hello World!", "localhost", "127.0.0.1", "@tu-darmstadt.de"]

def intLiteral : Gen σ Expr := do return .int (← draw (Draw.below .short 1000))

def floatLiteral : Gen σ Expr := do return .float (← draw Draw.hundredThousandths)

/-- An entry of a vector or matrix literal. A float may be any float expression. -/
def entryLiteral (inner : Ty → Gen σ Expr) : Kind → Gen σ Expr
  | .int => intLiteral
  | .float => do if ← chance (.ratio 8 10) then floatLiteral else inner .float

def vectorLiteral (inner : Ty → Gen σ Expr) (kind : Kind) (length : Nat) : Gen σ Expr := do
  return .list (← times (entryLiteral inner kind) length)

/-- A literal of a type, whose parts are generated by `inner` where they may be any expression. -/
def drawLiteral (inner : Ty → Gen σ Expr) : Ty → Gen σ Expr
  | .bool => do return .bool (← coin)
  | .int => intLiteral
  | .float => floatLiteral
  | .string => do return .string ((← pick? strings).getD "foo")
  | .void => return .nothing
  | .vector kind length => vectorLiteral inner kind length
  | .matrix kind rows cols => do return .list (← times (vectorLiteral inner kind cols) rows)
  | .record id => do
    let fields := ((← get).records.fields? id).getD []
    return .record id (← fields.mapM fun field => inner field.ty)

/-- A literal whose parts are literals, each one step deeper than what it is a part of. -/
def closedLiteral : Nat → Ty → Gen σ Expr
  | 0, _ => throw .depthOverflow
  | room + 1, ty => drawLiteral (closedLiteral room) ty

/-- Where no depth is left, every operand is a literal. -/
def closed (room : Nat) : Levels σ := fun _ ty => closedLiteral room ty

/-! ## Combinations -/

/-- Whether a level combines operands here: with the given probability, as long as there is depth and a
node left. The combination spends the node. -/
def combine (hasDepth : Bool) (p : Probability) : Gen σ Bool := do
  if !hasDepth || (← get).nodesLeft == 0 then
    return false
  if ← chance p then
    modify fun e => { e with nodesLeft := e.nodesLeft - 1 }
    return true
  return false

/-- The operand types of comparisons are numbers of either kind. -/
def comparisons : List BinaryOp := [.equal, .atMost, .atLeast, .unequal, .greater, .less]

section
variable (p : Profile) (hasDepth : Bool) (deeper : Levels σ)

/-! ## Atoms -/

def drawCall (function : String) (params : List Ty) : Gen σ Expr := do
  return .call function (← params.mapM fun param => deeper .whole param)

/-- A use of a binding: its name, a call of it, or a field of either. A function is called only if a
node can be spent on it. -/
def drawUse (binding : Binding) (ty : Ty) : Gen σ (Option Expr) := do
  match ty.recordId?, binding.ty.recordId? with
  | none, some id =>
    match (← get).records.fieldOfTy? id ty with
    | none => return none
    | some found =>
      if binding.isFunction then
        if ← combine hasDepth .certain then
          return some (.field (← drawCall deeper binding.name binding.params) found.name)
        return none
      return some (.field (.name binding.name) found.name)
  | _, _ =>
    if binding.isFunction then
      if ← combine hasDepth (.ratio 4 10) then
        return some (← drawCall deeper binding.name binding.params)
      return none
    return some (.name binding.name)

def drawReference (ty : Ty) : Gen σ (Option Expr) := do
  let e ← get
  match ← pick? (e.scope.ofTy e.records ty) with
  | none => return none
  | some binding => drawUse hasDepth deeper binding ty

def drawAtom (ty : Ty) : Gen σ Expr := do
  if ← combine hasDepth (.ratio 5 100) then
    return .group (← deeper .whole ty)
  if ← coin then
    if let some expr ← drawReference hasDepth deeper ty then
      return expr
  drawLiteral (deeper .whole) ty

/-! ## Vectors and matrices -/

/-- An entry of a vector for a number; a row of a matrix for a vector of more than one entry. -/
def drawElement (ty : Ty) : Gen σ Expr := do
  match ty with
  | .int | .float =>
    if ← combine hasDepth (.ratio 2 10) then
      let source ← orFault (ty.asVector (← dimension p))
      let source ← deeper .atom source
      return .entry source (← deeper .whole .int)
  | .vector _ length =>
    if 1 < length then
      if ← combine hasDepth (.ratio 2 10) then
        let source ← orFault (ty.asMatrix (← dimension p) length)
        let source ← deeper .atom source
        return .row source (← deeper .whole .int)
  | _ => pure ()
  drawAtom hasDepth deeper ty

/-- A slice of `source` from `lo` to `hi`. -/
def drawSliceOf (source : Expr) (lo hi : Int) : Gen σ Expr := do
  let first ← constant p lo
  let step ← deeper .whole .int
  return .slice source first step (← constant p hi)

/-- A window of `source` over the given rows and columns. -/
def drawWindowOf (source : Expr) (rowLo rowHi colLo colHi : Int) : Gen σ Expr := do
  let firstRow ← constant p rowLo
  let rowStep ← deeper .whole .int
  let lastRow ← constant p rowHi
  let firstCol ← constant p colLo
  let colStep ← deeper .whole .int
  return .window source firstRow rowStep lastRow firstCol colStep (← constant p colHi)

/-- The last index of `length` entries from `start` on. -/
def lastIndex (start : Int) (length : Nat) : Except Fault Int :=
  let next := start + signed64 length
  if ¬ Fits64 next then .error .addOverflow
  else if ¬ Fits64 (next - 1) then .error .subtractOverflow
  else .ok (next - 1)

/-- The size of a source to slice `length` entries from. -/
def sourceSize (length : Nat) : Gen σ Nat := do
  let size := length + (← draw (Draw.sizeIn 0 5))
  if size < limit64 then return size else throw .addOverflow

def drawNumberSlice (ty : Ty) : Gen σ Expr := do
  if ← chance (.ratio 75 100) then
    let size ← dimension p
    let offset ← draw (Draw.centeredOffset size)
    let source ← deeper .element (← orFault (ty.asVector size))
    drawSliceOf p deeper source offset offset
  else
    let rows ← dimension p
    let cols ← dimension p
    let row ← draw (Draw.centeredOffset rows)
    let col ← draw (Draw.centeredOffset cols)
    let source ← deeper .element (← orFault (ty.asMatrix rows cols))
    drawWindowOf p deeper source row row col col

/-- A slice of a vector, or a window of one row of a matrix, for a vector. -/
def drawVectorSlice (kind : Kind) (length : Nat) : Gen σ Expr := do
  let start ← draw (Draw.intIn (-5) 5)
  let last ← orFault (lastIndex start length)
  if ← chance (.ratio 75 100) then
    let size ← sourceSize length
    let source ← deeper .element (← orFault (Ty.vectorOf kind size))
    drawSliceOf p deeper source start last
  else
    let row ← draw (Draw.intIn (-5) 5)
    let rows ← dimension p
    let cols ← sourceSize length
    let source ← deeper .element (← orFault (Ty.matrixOf kind rows cols))
    drawWindowOf p deeper source row row start last

def drawMatrixSlice (kind : Kind) (rows cols : Nat) : Gen σ Expr := do
  let row ← draw (Draw.intIn (-5) 5)
  let lastRow ← orFault (lastIndex row rows)
  let col ← draw (Draw.intIn (-5) 5)
  let lastCol ← orFault (lastIndex col cols)
  let sourceRows ← sourceSize rows
  let sourceCols ← sourceSize cols
  let source ← deeper .element (← orFault (Ty.matrixOf kind sourceRows sourceCols))
  drawWindowOf p deeper source row lastRow col lastCol

/-- A slice with constant bounds that leaves the required shape. One entry is a number, so vectors
and matrices of a single row are not sliced. -/
def drawSlice (ty : Ty) : Gen σ Expr := do
  match ty with
  | .int | .float =>
    if ← combine hasDepth (.ratio 1 10) then
      return ← drawNumberSlice p deeper ty
  | .vector kind length =>
    if 1 < length then
      if ← combine hasDepth (.ratio 1 10) then
        return ← drawVectorSlice p deeper kind length
  | .matrix kind rows cols =>
    if 1 < rows then
      if ← combine hasDepth (.ratio 1 10) then
        return ← drawMatrixSlice p deeper kind rows cols
  | _ => pure ()
  drawElement p hasDepth deeper ty

def matmulChance : Ty → Probability
  | .vector .. => .ratio 4 10
  | .matrix .. => .ratio 3 10
  | _ => .ratio 2 10

def drawMatmul (ty : Ty) : Gen σ Expr := do
  let shared ← dimension p
  let vectorOnLeft ← coin
  if let some (left, right) ← orFault (ty.productOperands shared vectorOnLeft) then
    if ← combine hasDepth (matmulChance ty) then
      let left ← deeper .matmul left
      return .binary .matmul left (← deeper .slice right)
  drawSlice p hasDepth deeper ty

def drawDot (ty : Ty) : Gen σ Expr := do
  if ty.isNumber then
    if ← combine hasDepth (.ratio 15 100) then
      let operand ← orFault (ty.asVector (← dimension p))
      let left ← deeper .dot operand
      return .binary .dot left (← deeper .matmul operand)
  drawMatmul p hasDepth deeper ty

def drawQuery (ty : Ty) : Gen σ Expr := do
  if ty.isInt then
    if ← combine hasDepth (.ratio 1 10) then
      let kind ← kind
      let rows ← dimension p
      let cols ← dimension p
      if ← coin then
        let source ← deeper .dot (← orFault (Ty.vectorOf kind rows))
        return .query source .dimension
      let query := if ← coin then SizeQuery.rows else SizeQuery.cols
      let source ← deeper .dot (← orFault (Ty.matrixOf kind rows cols))
      return .query source query
  drawDot p hasDepth deeper ty

/-! ## Arithmetic -/

/-- A power; a vector or matrix may be raised to a number. -/
def drawPower (ty : Ty) : Gen σ Expr := do
  if ty.isArithmetic then
    if ← combine hasDepth (.ratio 3 10) then
      let base ← deeper .query ty
      return .binary .power base (← deeper .power ty)
  if ty.isTensor then
    if ← combine hasDepth (.ratio 3 10) then
      let base ← deeper .query ty
      return .binary .power base (← deeper .power ty.elementTy)
  drawQuery p hasDepth deeper ty

def drawNegate (ty : Ty) : Gen σ Expr := do
  if ty.isNumber then
    if ← combine hasDepth (.ratio 2 10) then
      return .negate (← deeper .power ty)
  drawPower p hasDepth deeper ty

/-- A product or quotient; a vector or matrix may have a number for one factor. -/
def drawProduct (ty : Ty) : Gen σ Expr := do
  if ty.isArithmetic then
    if ← combine hasDepth (.ratio 3 10) then
      let op ← if ty.isNumber then (do return if ← coin then BinaryOp.divide else .multiply)
        else pure .multiply
      let left ← deeper .product ty
      return .binary op left (← deeper .negate ty)
  if ty.isTensor then
    if ← combine hasDepth (.ratio 2 10) then
      if ← coin then
        let left ← deeper .product ty.elementTy
        return .binary .multiply left (← deeper .negate ty)
      else
        let left ← deeper .product ty
        return .binary .multiply left (← deeper .negate ty.elementTy)
  drawAtom hasDepth deeper ty

/-- A sum or difference; a vector or matrix may have a number for one summand. -/
def drawSum (ty : Ty) : Gen σ Expr := do
  if ty.isArithmetic then
    if ← combine hasDepth (.ratio 3 10) then
      let op := if ← coin then BinaryOp.add else .subtract
      let left ← deeper .sum ty
      return .binary op left (← deeper .product ty)
  if ty.isTensor then
    if ← combine hasDepth (.ratio 2 10) then
      if ← coin then
        let left ← deeper .sum ty.elementTy
        return .binary .add left (← deeper .product ty)
      else
        let left ← deeper .sum ty
        return .binary .add left (← deeper .product ty.elementTy)
  drawAtom hasDepth deeper ty

/-! ## Truth values -/

def drawCompare (ty : Ty) : Gen σ Expr := do
  if ty.isBool then
    if ← combine hasDepth (.ratio 3 10) then
      let operand := Ty.ofKind (← kind)
      let op := (← pick? comparisons).getD .equal
      let left ← deeper .sum operand
      return .binary op left (← deeper .sum operand)
  drawSum hasDepth deeper ty

def drawNot (ty : Ty) : Gen σ Expr := do
  if ty.isBool then
    if ← combine hasDepth (.ratio 3 10) then
      return .not (← deeper .compare ty)
  drawCompare hasDepth deeper ty

def drawAnd (ty : Ty) : Gen σ Expr := do
  if ty.isBool then
    if ← combine hasDepth (.ratio 2 10) then
      let left ← deeper .not ty
      return .binary .and left (← deeper .and ty)
  drawNot hasDepth deeper ty

def drawOr (ty : Ty) : Gen σ Expr := do
  if ty.isBool then
    if ← combine hasDepth (.ratio 3 10) then
      let left ← deeper .and ty
      return .binary .or left (← deeper .or ty)
  drawAnd hasDepth deeper ty

def drawSelect (ty : Ty) : Gen σ Expr := do
  if ← combine hasDepth (.ratio 1 10) then
    let condition ← deeper .or .bool
    let yes ← deeper .or ty
    return .select condition yes (← deeper .or ty)
  drawOr hasDepth deeper ty

/-- A complete operand: a literal once the depth or the nodes are spent. -/
def drawWhole (ty : Ty) : Gen σ Expr := do
  if !hasDepth || (← get).nodesLeft == 0 then
    drawLiteral (deeper .whole) ty
  else
    drawSelect hasDepth deeper ty

/-- The levels, given those one step deeper. -/
def grammar : Levels σ
  | .whole => drawWhole hasDepth deeper
  | .select => drawSelect hasDepth deeper
  | .or => drawOr hasDepth deeper
  | .and => drawAnd hasDepth deeper
  | .not => drawNot hasDepth deeper
  | .compare => drawCompare hasDepth deeper
  | .sum => drawSum hasDepth deeper
  | .product => drawProduct hasDepth deeper
  | .negate => drawNegate p hasDepth deeper
  | .power => drawPower p hasDepth deeper
  | .query => drawQuery p hasDepth deeper
  | .dot => drawDot p hasDepth deeper
  | .matmul => drawMatmul p hasDepth deeper
  | .slice => drawSlice p hasDepth deeper
  | .element => drawElement p hasDepth deeper
  | .atom => drawAtom hasDepth deeper

end

/-! ## The levels tied together -/

/-- The levels where the given depth is left, with the room behind it. -/
def levels (p : Profile) (room : Nat) : Nat → Levels σ
  | 0, level, ty => grammar p false (closed room) level ty
  | depth + 1, level, ty => grammar p true (levels p room depth) level ty

/-- What an operand is generated by where the given depth is left. -/
def deeperThan (p : Profile) (room : Nat) : Nat → Levels σ
  | 0 => closed room
  | depth + 1 => levels p room depth

/-- How often the depth of what begins at a nesting depth can grow behind the last depth that combines. -/
def roomAt (p : Profile) (depth : Nat) : Nat := limit64 - 1 - max p.maxExprDepth depth

/-- The levels at a nesting depth. -/
def atDepth (p : Profile) (depth : Nat) : Levels σ := levels p (roomAt p depth) (p.maxExprDepth - depth)

def refill (p : Profile) : Gen σ Unit := modify fun e => { e with nodesLeft := p.maxExprNodes }

def generate (p : Profile) (ty : Ty) : Gen σ Expr := do
  refill p
  atDepth p 0 .whole ty

/-- An operand at a nesting depth; at depth zero it is a new expression. -/
def operand (p : Profile) (ty : Ty) (depth : Nat) : Gen σ Expr :=
  if depth = 0 then generate p ty else atDepth p depth .whole ty

def literalAt (p : Profile) (depth : Nat) (ty : Ty) : Gen σ Expr :=
  drawLiteral (deeperThan p (roomAt p depth) (p.maxExprDepth - depth) .whole) ty

def callAt (p : Profile) (depth : Nat) (function : String) (params : List Ty) : Gen σ Expr :=
  drawCall (deeperThan p (roomAt p depth) (p.maxExprDepth - depth)) function params

end Expr

end TensorFuzz
