import TensorFuzz.Profile
import TensorFuzz.Toml.Read

/-!
# Embedded profiles and profiles in documents

The profiles that can be asked for by name, and those that a document gives. A document gives the sizes of a
profile by name too: sizes that it does not name keep their default, and names that are no sizes are ignored.
-/

namespace TensorFuzz.Profile

/-! ## By name -/

def small : Profile :=
  { maxDimension := 3, maxExprDepth := 8, maxExprNodes := 12, maxConstDepth := 8, maxStmtDepth := 3,
    moduleItems := ⟨1, 4⟩, recordFields := ⟨1, 2⟩, functionParams := ⟨0, 2⟩,
    functionBody := ⟨0, 3⟩, blockBody := ⟨0, 2⟩, switchCases := ⟨0, 3⟩ }

def deep : Profile :=
  { maxExprDepth := 32, maxExprNodes := 96, maxStmtDepth := 16, moduleItems := ⟨4, 12⟩,
    functionBody := ⟨3, 10⟩, blockBody := ⟨1, 5⟩, switchCases := ⟨1, 5⟩ }

def embedded : List (String × Profile) := [("default", {}), ("small", small), ("deep", deep)]

def available : List String := embedded.map (·.1)

def named? (name : String) : Option Profile :=
  (embedded.find? (·.1 == name)).map (·.2)

theorem invalid?_of_mem_embedded {entry : String × Profile} (h : entry ∈ embedded) :
    entry.2.invalid? = none := by
  simp only [embedded, List.mem_cons, List.not_mem_nil, or_false] at h
  rcases h with rfl | rfl | rfl <;> decide

/-! ## In a document -/

def size? : Toml.Item → Option Nat
  | .value (.integer n) => if 0 ≤ n then some n.toNat else none
  | _ => none

/-- A range: a list whose first two items are sizes. -/
def range? : Toml.Item → Option Range
  | .value (.list (min :: max :: _)) => do
    return ⟨← size? (.value min), ← size? (.value max)⟩
  | _ => none

def entryOr {α : Type} (entries : Toml.Entries) (read : Toml.Item → Option α) (key : String)
    (default : α) : Option α :=
  match Toml.find? entries key with
  | some item => read item
  | none => some default

def ofEntries? (entries : Toml.Entries) : Option Profile := do
  let d : Profile := {}
  return {
    maxDimension := ← entryOr entries size? "max_dimension" d.maxDimension
    maxExprDepth := ← entryOr entries size? "max_expr_depth" d.maxExprDepth
    maxExprNodes := ← entryOr entries size? "max_expr_nodes" d.maxExprNodes
    maxConstDepth := ← entryOr entries size? "max_const_depth" d.maxConstDepth
    maxStmtDepth := ← entryOr entries size? "max_stmt_depth" d.maxStmtDepth
    moduleItems := ← entryOr entries range? "module_items" d.moduleItems
    recordFields := ← entryOr entries range? "record_fields" d.recordFields
    functionParams := ← entryOr entries range? "function_params" d.functionParams
    functionBody := ← entryOr entries range? "function_body" d.functionBody
    blockBody := ← entryOr entries range? "block_body" d.blockBody
    switchCases := ← entryOr entries range? "switch_cases" d.switchCases }

def parse? (text : String) : Option Profile := do ofEntries? (← Toml.parse? text)

end TensorFuzz.Profile
