import TensorFuzz.Ty
import TensorFuzz.Random.Draw

/-!
# Records

The registry of declared record shapes. A shape never changes once it is registered, and the registry
only grows; it keeps the order of declaration.
-/

namespace TensorFuzz

structure Field where
  ty : Ty
  name : String
  isMutable : Bool
  deriving DecidableEq, Repr

structure Shape where
  id : String
  fields : List Field
  deriving DecidableEq, Repr

/-- The registered shapes, in order of declaration. -/
structure Registry where
  shapes : List Shape
  deriving DecidableEq, Repr

namespace Registry

def empty : Registry := ⟨[]⟩

def ids (records : Registry) : List String := records.shapes.map (·.id)

def size (records : Registry) : Nat := records.shapes.length

def contains (records : Registry) (id : String) : Bool := records.shapes.any (·.id == id)

/-- Registers a shape under an identifier that is not in use. -/
def define (records : Registry) (id : String) (fields : List Field) : Except Fault Registry :=
  if records.contains id then .error (.duplicateRecord id)
  else .ok ⟨records.shapes ++ [⟨id, fields⟩]⟩

def fields? (records : Registry) (id : String) : Option (List Field) :=
  (records.shapes.find? (·.id == id)).map (·.fields)

def fieldOfTy? (records : Registry) (id : String) (ty : Ty) : Option Field := do
  (← records.fields? id).find? (·.ty == ty)

def fieldNamed? (records : Registry) (id name : String) : Option Field := do
  (← records.fields? id).find? (·.name == name)

def mutableFields (records : Registry) (id : String) : List Field :=
  ((records.fields? id).getD []).filter (·.isMutable)

variable {σ : Type} [RandomSource σ]

def drawMutableField (records : Registry) (id : String) : Draw σ (Option Field) :=
  Draw.pick? (records.mutableFields id)

def drawTy (records : Registry) : Draw σ (Option Ty) := do
  return (← Draw.pick? records.ids).map Ty.record

end Registry

end TensorFuzz
