import TensorFuzz.Record
import TensorFuzz.Name.Draw

/-!
# Scopes

A scope is a stack of frames. A block opens a frame and closes it again; the bindings of a frame go
with it. Lookups see all frames, and a binding hides those of the same name that are older or further
out.
-/

namespace TensorFuzz

inductive BindingKind
  /-- A value that cannot be assigned to. -/
  | value
  | variable
  /-- A function; its type is the return type. -/
  | function
  deriving DecidableEq, Repr

structure Binding where
  kind : BindingKind
  name : String
  ty : Ty
  params : List Ty
  deriving DecidableEq, Repr

def Binding.isFunction (b : Binding) : Bool := b.kind == .function

/-- The bindings of one block, newest first. -/
abbrev Frame := List Binding

/-- The innermost frame and the frames around it, from the inside out. The outermost frame is that of
the module. -/
structure Scope where
  current : Frame
  outer : List Frame
  deriving DecidableEq, Repr

namespace Scope

def empty : Scope := ⟨[], []⟩

def depth (scope : Scope) : Nat := scope.outer.length

def descend (scope : Scope) : Scope := ⟨[], scope.current :: scope.outer⟩

/-- Closes the innermost frame, which must not be that of the module. -/
def exit (scope : Scope) : Except Fault Scope :=
  match scope.outer with
  | [] => .error .exitWithoutDescend
  | frame :: outer => .ok ⟨frame, outer⟩

def define (scope : Scope) (binding : Binding) : Scope :=
  { scope with current := binding :: scope.current }

def defineValue (scope : Scope) (name : String) (ty : Ty) : Scope :=
  scope.define ⟨.value, name, ty, []⟩

def defineVariable (scope : Scope) (name : String) (ty : Ty) : Scope :=
  scope.define ⟨.variable, name, ty, []⟩

def defineFunction (scope : Scope) (name : String) (ty : Ty) (params : List Ty) : Scope :=
  scope.define ⟨.function, name, ty, params⟩

def currentNames (scope : Scope) : List String := scope.current.map (·.name)

/-! ## Lookups -/

/-- The bindings that are not hidden by an earlier one of the same name. -/
def unhidden : List Binding → List Binding
  | [] => []
  | b :: bs => b :: (unhidden bs).filter (·.name != b.name)

/-- The visible bindings, innermost frame first and newest first in a frame, one for each name. -/
def visible (scope : Scope) : List Binding := unhidden (scope.current ++ scope.outer.flatten)

/-- The visible binding of a name. -/
def lookup? (scope : Scope) (name : String) : Option Binding :=
  scope.visible.find? (·.name == name)

/-- The visible bindings of a type, and those of a record with a field of that type. -/
def ofTy (scope : Scope) (records : Registry) (ty : Ty) : List Binding :=
  scope.visible.filter fun b =>
    b.ty == ty || b.ty.recordId?.any fun id => (records.fieldOfTy? id ty).isSome

def variablesAndFunctions (scope : Scope) : List Binding :=
  scope.visible.filter (·.kind != .value)

def visibleVariables (scope : Scope) : List Binding := scope.visible.filter (·.kind == .variable)

def tensors (scope : Scope) : List Binding :=
  scope.visible.filter fun b => !b.isFunction && b.ty.isTensor

/-! ## Free names -/

variable {σ : Type} [RandomSource σ]

/-- A name for a value of the type, not yet declared in the innermost frame. -/
def freeName (scope : Scope) (ty : Ty) : Draw σ String :=
  Name.unique (Name.drawVariable ty) scope.currentNames

/-- A name for a function of the return type, not yet declared in the innermost frame. -/
def freeFunctionName (scope : Scope) (ty : Ty) : Draw σ String :=
  Name.unique (Name.drawFunction ty) scope.currentNames

end Scope

end TensorFuzz
