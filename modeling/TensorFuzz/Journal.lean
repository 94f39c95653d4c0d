import TensorFuzz.Ty

/-!
# The journal

What a run reports about itself while it generates: the items it declares and the fallbacks it takes. An event is
written on a line: how much detail it is, which part of the generator it comes from, a message and its fields.
-/

namespace TensorFuzz

/-- Something a run reports. -/
inductive Event
  | declareMain
  /-- A function is declared with a return type and a number of parameters. -/
  | declareFunction (name : String) (ty : Ty) (params : Nat)
  | defineRecord (id : String) (fields : Nat)
  /-- There was nothing to assign to or to call. -/
  | noTarget
  /-- There was no variable for a loop. -/
  | noLoopVariable
  /-- A module is complete; the entry function counts as an item but not as a function. -/
  | generatedModule (items functions records : Nat)
  deriving DecidableEq, Repr

/-! ## Lines -/

inductive Detail
  | off
  | error
  | warn
  | info
  | debug
  | trace
  deriving DecidableEq, Repr

namespace Detail

/-- The position of a level of detail, least detail first. -/
def rank : Detail → Nat
  | off => 0
  | error => 1
  | warn => 2
  | info => 3
  | debug => 4
  | trace => 5

/-- The levels of detail with their names, each at the position of its rank. -/
def named : List (String × Detail) := [
  ("off", off), ("error", error), ("warn", warn), ("info", info), ("debug", debug), ("trace", trace)]

/-- The name of a level of detail at the beginning of a line, in five columns. -/
def column : Detail → String
  | off => "  OFF"
  | error => "ERROR"
  | warn => " WARN"
  | info => " INFO"
  | debug => "DEBUG"
  | trace => "TRACE"

end Detail

namespace Event

def detail : Event → Detail
  | generatedModule .. => .debug
  | _ => .trace

def target : Event → String
  | defineRecord .. => "mavl_stress::records"
  | _ => "mavl_stress::stmt"

def message : Event → String
  | declareMain => "declare main"
  | declareFunction .. => "declare function"
  | defineRecord .. => "define record"
  | noTarget => "no assignment or call target, declaring a variable"
  | noLoopVariable => "no loop variables in scope, declaring a variable"
  | generatedModule .. => "generated module"

def fields : Event → List (String × String)
  | declareFunction name ty params =>
    [("function", name), ("return_type", ty.text), ("params", toString params)]
  | defineRecord id fields => [("record", id), ("fields", toString fields)]
  | generatedModule items functions records =>
    [("items", toString items), ("functions", toString functions), ("records", toString records)]
  | declareMain | noTarget | noLoopVariable => []

def line (e : Event) : String :=
  e.detail.column ++ " " ++ e.target ++ ": " ++
    " ".intercalate (e.message :: e.fields.map fun (name, text) => name ++ "=" ++ text)

end Event

end TensorFuzz
