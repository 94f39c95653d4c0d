import TensorFuzz.Expr.Generate
import TensorFuzz.Stmt.Syntax

/-!
# Statement generation

Statements are generated against the scope as it stands, and each declaration is added to the scope
after the expressions in it are generated. A body is generated in a frame of its own, one statement
level deeper; at the deepest level only statements without bodies are drawn.
-/

namespace TensorFuzz

inductive StmtKind
  | value
  | variable
  | conditional
  | block
  | assignOrCall
  | switch
  | loop
  | foreach
  deriving DecidableEq, Repr

inductive SwitchLabel
  | case (value : Int)
  | default
  deriving DecidableEq, Repr

namespace Stmt

open Gen

variable {σ : Type} [RandomSource σ]

/-! ## Kinds -/

/-- The kinds of statements that have no body, as often as they are drawn. -/
def flatKinds : List StmtKind := [.value, .value, .variable, .variable, .assignOrCall]

/-- All kinds of statements, as often as they are drawn. Two declarations of each sort keep the
expected number of nested statements below one. -/
def allKinds : List StmtKind :=
  [.value, .value, .variable, .variable, .conditional, .block, .assignOrCall, .switch, .loop,
    .foreach]

/-- A kind of statement; one that has a body only if there is a level left for it. -/
def drawKind (canNest : Bool) : Gen σ StmtKind := do
  return (← pick? (if canNest then allKinds else flatKinds)).getD .value

section
variable (p : Profile)

/-! ## Declarations -/

/-- A value of the given type. Its name enters the scope after its initial value is generated. -/
def drawValueOf (ty : Ty) : Gen σ Stmt := do
  let init ← Expr.generate p ty
  let name ← freeName ty
  let spelled ← spell p ty
  modifyScope (·.defineValue name ty)
  return .declareValue spelled name init

def drawValue : Gen σ Stmt := do drawValueOf p (← Gen.ty p true)

def drawVariable : Gen σ Stmt := do
  let ty ← Gen.ty p true
  let name ← freeName ty
  let spelled ← spell p ty
  modifyScope (·.defineVariable name ty)
  return .declareVariable spelled name

/-! ## Assignments and calls -/

/-- An assignment to a field, an entry or a cell of a variable, now and then. -/
def drawProjection (name : String) (ty : Ty) : Gen σ (Option Assignment) := do
  match ty with
  | .record id =>
    if ← chance (.ratio 3 10) then
      if let some found ← draw ((← get).records.drawMutableField id) then
        return some ⟨.field name found.name, ← Expr.generate p found.ty⟩
    return none
  | .vector .. =>
    if ← chance (.ratio 1 10) then
      let index ← Expr.generate p .int
      return some ⟨.entry name index, ← Expr.generate p ty.elementTy⟩
    return none
  | .matrix .. =>
    if ← chance (.ratio 1 10) then
      let row ← Expr.generate p .int
      let col ← Expr.generate p .int
      return some ⟨.cell name row col, ← Expr.generate p ty.elementTy⟩
    return none
  | _ => return none

/-- An assignment to a variable; to a part of it only if projections are allowed. -/
def drawAssignment (name : String) (ty : Ty) (projections : Bool) : Gen σ Assignment := do
  if projections then
    if let some assignment ← drawProjection p name ty then
      return assignment
  return ⟨.variable name, ← Expr.generate p ty⟩

/-- An assignment to a visible variable or a call of a visible function; a variable declaration if
there is neither. -/
def drawAssignOrCall : Gen σ Stmt := do
  match ← pick? (← get).scope.variablesAndFunctions with
  | none =>
    report .noTarget
    drawVariable p
  | some binding =>
    if binding.isFunction then
      match ← Expr.callAt p 0 binding.name binding.params with
      | .call function args => return .call function args
      | _ => return .call binding.name []
    else
      return .assign (← drawAssignment p binding.name binding.ty true)

/-! ## Statements with bodies -/

section
variable (deeper : Gen σ Stmt)

/-- A conditional statement, with or without an alternative. -/
def drawConditional : Gen σ Stmt := do
  let condition ← Expr.generate p .bool
  let yes ← nested deeper
  if ← chance (.ratio 6 10) then
    return .conditional condition yes
  return .alternative condition yes (← nested deeper)

def drawBlock : Gen σ Stmt := do
  return .block (← nested (do times deeper (← countIn p.blockBody)))

/-- The labels with the given values still to come: each is the default with a small probability, but
only one of them. -/
def drawLabels (hasDefault : Bool) : List Int → Gen σ (List SwitchLabel)
  | [] => return []
  | value :: values => do
    if !hasDefault then
      if ← chance (.ratio 1 10) then
        return .default :: (← drawLabels true values)
    return .case value :: (← drawLabels hasDefault values)

/-- The labels of a switch: evenly spaced values from a random base on, and at most one default. -/
def drawSwitchLabels : Gen σ (List SwitchLabel) := do
  let count ← countIn p.switchCases
  let base ← draw (Draw.intIn (-100) 100)
  let stride ← draw (Draw.intIn 1 9)
  drawLabels false ((List.range (signed64 count).toNat).map fun i : Nat => signed64 (base + i * stride))

def spellLabel : SwitchLabel → Gen σ CaseLabel
  | .case value => do return .case (← constant p value)
  | .default => return .default

def drawCase (label : SwitchLabel) : Gen σ Case := do
  let label ← spellLabel p label
  return .mk label (← nested deeper)

def drawSwitch : Gen σ Stmt := do
  let scrutinee ← Expr.generate p .int
  let labels ← drawSwitchLabels p
  return .switch scrutinee (← labels.mapM (drawCase p deeper))

/-- A loop over two visible variables; a variable declaration if there are none. -/
def drawLoop : Gen σ Stmt := do
  let counter ← pick? (← get).scope.visibleVariables
  let update ← pick? (← get).scope.visibleVariables
  match counter, update with
  | some counter, some update =>
    let init ← drawAssignment p counter.name counter.ty false
    let condition ← Expr.generate p .bool
    let step ← drawAssignment p update.name update.ty false
    return .loop init condition step (← nested deeper)
  | _, _ =>
    report .noLoopVariable
    drawVariable p

/-- What a loop over entries iterates: the loop name is a variable or not, the type of the entries and
the collection. -/
structure Iteration where
  isVariable : Bool
  entryTy : Ty
  collection : Expr

/-- Iterates the given binding most of the time, and otherwise a new collection. Only the entries of a
variable can be variables. -/
def drawIteration (existing : Option Binding) : Gen σ Iteration := do
  if let some source := existing then
    if ← chance (.ratio 7 10) then
      let isVariable ← if source.kind = .variable then chance (.ratio 7 10) else pure false
      return ⟨isVariable, source.ty.elementTy, .name source.name⟩
  let ty ← tensorTy p (.ratio 7 10)
  let collection ← Expr.generate p ty
  return ⟨false, ty.elementTy, collection⟩

def defineEntry (isVariable : Bool) (name : String) (ty : Ty) : Gen σ Unit :=
  modifyScope fun scope =>
    if isVariable then scope.defineVariable name ty else scope.defineValue name ty

/-- A loop over the entries of a vector or matrix. Its name is bound in the frame of its body. -/
def drawForeach : Gen σ Stmt := do
  let existing ← pick? (← get).scope.tensors
  nested do
    let ⟨isVariable, ty, collection⟩ ← drawIteration p existing
    let name ← freeName ty
    let spelled ← spell p ty
    defineEntry isVariable name ty
    return .foreach isVariable spelled name collection (← deeper)

def ofKind : StmtKind → Gen σ Stmt
  | .value => drawValue p
  | .variable => drawVariable p
  | .conditional => drawConditional p deeper
  | .block => drawBlock p deeper
  | .assignOrCall => drawAssignOrCall p
  | .switch => drawSwitch p deeper
  | .loop => drawLoop p deeper
  | .foreach => drawForeach p deeper

end

/-! ## The kinds tied together -/

/-- A statement where the given number of statement levels is left. At the last level no kind with a
body is drawn. -/
def withLevels : Nat → Gen σ Stmt
  | 0 => do ofKind p (drawVariable p) (← drawKind false)
  | levels + 1 => do ofKind p (withLevels levels) (← drawKind true)

def generate : Gen σ Stmt := do
  withLevels p (p.maxStmtDepth - (← get).stmtDepth)

def several (range : Range) : Gen σ (List Stmt) := do
  times (generate p) (← countIn range)

end

end Stmt

end TensorFuzz
