import TensorFuzz.Scope
import TensorFuzz.Profile
import TensorFuzz.Journal
import TensorFuzz.Ty.Spelled

/-!
# The engine

The state that expression and statement generation share: the supply of random words, the scope, the
registered records, how deep statements are nested, how many combinations the current expression may
still make, and the journal. `Gen` is a computation on that state.
-/

namespace TensorFuzz

/-- The state of a generation run. -/
structure Engine (σ : Type) where
  supply : Supply σ
  scope : Scope
  records : Registry
  /-- How many blocks are open around the current statement. -/
  stmtDepth : Nat
  /-- How many combinations are left to the current expression. -/
  nodesLeft : Nat
  /-- What was reported so far, newest first. -/
  journal : List Event

def Engine.start {σ : Type} (p : Profile) (supply : Supply σ) : Engine σ :=
  { supply, scope := .empty, records := .empty, stmtDepth := 0, nodesLeft := p.maxExprNodes,
    journal := [] }

/-- The state in a new frame, one statement level deeper. -/
def Engine.enter {σ : Type} (e : Engine σ) : Except Fault (Engine σ) :=
  if e.stmtDepth + 1 < limit64 then .ok { e with scope := e.scope.descend, stmtDepth := e.stmtDepth + 1 }
  else .error .addOverflow

/-- The state without the innermost frame, back at the statement level around it. -/
def Engine.leave {σ : Type} (e : Engine σ) : Except Fault (Engine σ) :=
  if e.stmtDepth = 0 then .error .subtractOverflow
  else e.scope.exit.map fun scope => { e with scope, stmtDepth := e.stmtDepth - 1 }

/-- A computation that generates a part of a program: the tree of its looks at the state and of the states it
goes on with. -/
inductive Gen (σ α : Type)
  | done (result : α)
  | stop (fault : Fault)
  /-- Looks at the state. -/
  | look (next : Engine σ → Gen σ α)
  /-- Goes on with another state. -/
  | move (state : Engine σ) (next : Gen σ α)

namespace Gen

variable {σ : Type} {α β : Type}

/-- What a computation comes to from a state, and the state after it. -/
def run : Gen σ α → Engine σ → Except Fault (α × Engine σ)
  | done a, e => .ok (a, e)
  | stop fault, _ => .error fault
  | look next, e => (next e).run e
  | move e next, _ => next.run e

protected def bind : Gen σ α → (α → Gen σ β) → Gen σ β
  | done a, f => f a
  | stop fault, _ => stop fault
  | look next, f => look fun e => (next e).bind f
  | move e next, f => move e (next.bind f)

/-- A computation for the faults of another one, from the state that a fault leaves. -/
protected def catching : Gen σ α → (Fault → Gen σ α) → Gen σ α
  | done a, _ => done a
  | stop fault, f => f fault
  | look next, f => look fun e => (next e).catching f
  | move e next, f => move e (next.catching f)

instance : Monad (Gen σ) where
  pure := done
  bind := Gen.bind

instance : MonadStateOf (Engine σ) (Gen σ) where
  get := look done
  set e := move e (done ())
  modifyGet f := look fun e => move (f e).2 (done (f e).1)

instance : MonadExceptOf Fault (Gen σ) where
  throw := stop
  tryCatch := Gen.catching

/-- Draws from the supply. -/
def draw (act : Draw σ α) : Gen σ α :=
  look fun e =>
    match act e.supply with
    | .ok (a, supply) => move { e with supply } (done a)
    | .error fault => stop fault

def orFault : Except Fault α → Gen σ α
  | .ok a => done a
  | .error fault => stop fault

def report (event : Event) : Gen σ Unit :=
  modify fun e => { e with journal := event :: e.journal }

def modifyScope (f : Scope → Scope) : Gen σ Unit :=
  modify fun e => { e with scope := f e.scope }

def openBlock : Gen σ Unit := do
  set (← orFault (← get).enter)

def closeBlock : Gen σ Unit := do
  set (← orFault (← get).leave)

/-- Runs a computation inside a frame of its own, one statement level deeper. -/
def nested (act : Gen σ α) : Gen σ α := do
  openBlock
  let a ← act
  closeBlock
  return a

def times (act : Gen σ α) : Nat → Gen σ (List α)
  | 0 => return []
  | n + 1 => do
    let a ← act
    return a :: (← times act n)

def defineRecord (id : String) (fields : List Field) : Gen σ Unit := do
  let e ← get
  let records ← orFault (e.records.define id fields)
  set { e with records }
  report (.defineRecord id fields.length)

/-! ## Draws -/

variable [RandomSource σ]

def chance (p : Probability) : Gen σ Bool := draw (Draw.chance p)

def coin : Gen σ Bool := chance (.ratio 1 2)

def pick? {β : Type} (xs : List β) : Gen σ (Option β) := draw (Draw.pick? xs)

def pick {β : Type} (first : β) (others : List β) : Gen σ β := draw (Draw.pick first others)

def countIn (range : Range) : Gen σ Nat := draw (Draw.sizeIn range.min range.max)

def dimension (p : Profile) : Gen σ Nat := draw (Draw.sizeIn 1 (max p.maxDimension 1))

def kind : Gen σ Kind := do return if ← draw (Draw.event 1 2) then .int else .float

def vectorTy (p : Profile) : Gen σ Ty := do
  let kind ← kind
  orFault (Ty.vectorOf kind (← dimension p))

def matrixTy (p : Profile) : Gen σ Ty := do
  let kind ← kind
  let rows ← dimension p
  orFault (Ty.matrixOf kind rows (← dimension p))

/-- A type for a declaration: a scalar, truth value or string, a vector, a registered record if they
are allowed, or a matrix. -/
def ty (p : Profile) (allowRecords : Bool) : Gen σ Ty := do
  if ← chance (.ratio 6 10) then
    return ← pick .int [.int, .float, .bool, .string]
  if ← coin then
    return ← vectorTy p
  if ← chance (.ratio 4 10) then
    if allowRecords then
      if let some record ← draw (← get).records.drawTy then
        return record
  matrixTy p

/-- A vector type with the given probability, and otherwise a matrix type. -/
def tensorTy (p : Profile) (vector : Probability) : Gen σ Ty := do
  let kind ← kind
  if ← chance vector then
    orFault (Ty.vectorOf kind (← dimension p))
  else
    let rows ← dimension p
    orFault (Ty.matrixOf kind rows (← dimension p))

def constant (p : Profile) (value : Int) : Gen σ ConstExpr :=
  draw (Constant.synthesize p.maxConstDepth value)

def spell (p : Profile) (ty : Ty) : Gen σ SpelledTy := draw (ty.spell p.maxConstDepth)

/-- A name for a value of the type, free in the innermost frame. -/
def freeName (ty : Ty) : Gen σ String := do draw ((← get).scope.freeName ty)

/-- A name for a function of the return type, free in the innermost frame. -/
def freeFunctionName (ty : Ty) : Gen σ String := do draw ((← get).scope.freeFunctionName ty)

end Gen

end TensorFuzz
