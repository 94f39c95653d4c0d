import TensorFuzz.Ty

/-!
# Words for names

A name is built by a pattern: one word per slot, joined in camel case. Each category of types has a
table of patterns.
-/

namespace TensorFuzz.Name

/-- The words that may stand in one slot of a name. -/
abbrev Slot := List String

/-- The slots of a name, in order. -/
abbrev Pattern := List Slot

def integers : List Pattern := [
  [["i", "j", "k", "l", "m", "n", "res", "value", "arg"]],
  [["stack", "system", "process", "event", "queue", "list"],
    ["count", "counter", "amount", "depth"]]]

def floats : List Pattern := [
  [["w", "x", "y", "z", "res", "arg", "value"]],
  [["calculated", "random", "data", "precise", "sin", "cos", "pow"],
    ["amount", "frac", "flt", "value"]]]

def truthValues : List Pattern := [
  [["is", "can", "will"], ["load", "save", "read", "write", "exec"]],
  [["config", "system", "send", "read", "write", "exec", "restore", "ready", "pause", "state",
      "process", "storage"],
    ["toggle", "flag", "enabled", "override"]],
  [["is", "has"], ["loaded", "saved", "done", "ready"]]]

def strings : List Pattern := [
  [["customer", "object", "target", "uri", "service", "storage"],
    ["name", "data", "value", "location", "address", "properties"]],
  [["match", "regex", "search", "query"], ["type", "pattern", "name", "term"]]]

def vectors : List Pattern := [
  [["shift", "scale", "bit", "data"], ["vector", "list", "array"]]]

def matrices : List Pattern := [
  [["rotation", "transformation", "affine", "data", "bit", "translation"],
    ["matrix", "field", "array"]]]

def records : List Pattern := [
  [["data", "client", "server", "packet", "io"],
    ["object", "representation", "struct", "unit", "node"]],
  [["packet", "person", "message", "tree", "node"]]]

def procedures : List Pattern := [
  [["apply", "trigger", "flush", "reset"], ["changes", "updates", "reload", "state"]],
  [["call", "visit", "trigger"], ["listener", "external", "visitor", "modifier"]]]

def verbs : List String :=
  ["read", "get", "calculate", "fetch", "retrieve", "update", "refresh", "construct", "build"]

/-- The patterns for what holds a value of a type, and for records of that type. -/
def patterns : Ty → List Pattern
  | .vector .. => vectors
  | .matrix .. => matrices
  | .bool => truthValues
  | .int => integers
  | .float => floats
  | .record _ => records
  | .string | .void => strings

end TensorFuzz.Name
