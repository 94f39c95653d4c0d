import TensorFuzz.Stmt.Generate
import TensorFuzz.Module.Syntax

/-!
# Module generation

A module is a number of functions and records, and one entry function at a random place. A function
enters the scope before its body is generated, so that it may call itself; a record is registered when
it is complete.
-/

namespace TensorFuzz.Module

open Gen

variable {σ : Type} [RandomSource σ] (p : Profile)

def entryName : String := "main"

def drawMain : Gen σ Item := do
  report .declareMain
  modifyScope (·.defineFunction entryName .void [])
  nested do
    return .function ⟨.plain .void, entryName, [], ← Stmt.several p p.functionBody, none⟩

/-- Names a parameter and binds it as a variable. -/
def drawParameter (ty : Ty) : Gen σ Parameter := do
  let name ← freeName ty
  let spelled ← spell p ty
  modifyScope (·.defineVariable name ty)
  return ⟨spelled, name⟩

def drawResult (ty : Ty) : Gen σ (Option Expr) := do
  if ty.isVoid then return none else return some (← Expr.generate p ty)

def drawFunction : Gen σ Item := do
  let ty ← if ← chance (.ratio 7 10) then Gen.ty p true else pure .void
  let name ← freeFunctionName ty
  let paramTys ← times (Gen.ty p true) (← countIn p.functionParams)
  report (.declareFunction name ty paramTys.length)
  modifyScope (·.defineFunction name ty paramTys)
  let spelled ← spell p ty
  nested do
    let params ← paramTys.mapM (drawParameter p)
    let body ← Stmt.several p p.functionBody
    return .function ⟨spelled, name, params, body, ← drawResult p ty⟩

/-- A field of a record, with its declaration. Its name is bound, so that no later field takes it. -/
def drawField : Gen σ (Field × FieldDecl) := do
  let ty ← Gen.ty p false
  let name ← freeName ty
  modifyScope (·.defineVariable name ty)
  let isMutable ← coin
  let spelled ← spell p ty
  return (⟨ty, name, isMutable⟩, ⟨isMutable, spelled, name⟩)

/-- A name for a record that is neither registered nor declared in the innermost frame. -/
def freeRecordName : Gen σ String := do
  let e ← get
  draw (Name.unique (Name.drawVariable (.record "")) (e.records.ids ++ e.scope.currentNames))

/-- A record. Its fields are never records, and are named in a frame that is dropped again. -/
def drawRecord : Gen σ Item := do
  let id ← freeRecordName
  let count ← countIn p.recordFields
  modifyScope (·.descend)
  let fields ← times (drawField p) count
  let scope ← orFault (← get).scope.exit
  modifyScope fun _ => scope
  defineRecord id (fields.map (·.1))
  return .record id (fields.map (·.2))

/-- The entry function, now and then, if there is none yet. -/
def drawEarlyMain (hasMain : Bool) : Gen σ (List Item) := do
  if hasMain then return []
  if ← chance (.ratio 2 10) then return [← drawMain p]
  return []

/-- The items of a module: `count` functions and records, and the entry function at the latest after
them. -/
def drawItems (hasMain : Bool) : Nat → Gen σ (List Item)
  | 0 => do if hasMain then return [] else return [← drawMain p]
  | count + 1 => do
    let early ← drawEarlyMain p hasMain
    let item ← if ← chance (.ratio 7 10) then drawFunction p else drawRecord p
    return early ++ item :: (← drawItems (hasMain || !early.isEmpty) count)

def generate : Gen σ (List Item) := do
  let items ← drawItems p false (← countIn p.moduleItems)
  let functions := items.countP (·.isFunction) - 1
  report (.generatedModule items.length functions (← get).records.size)
  return items

/-- The items of the module that a profile and a supply of random words determine, with the state at
its end. -/
def run (p : Profile) (supply : Supply σ) : Except Fault (List Item × Engine σ) :=
  (generate p).run (Engine.start p supply)

end TensorFuzz.Module
