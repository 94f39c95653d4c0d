/-!
# Profiles

A profile fixes the tunable sizes of a run: the bound of dimensions, the budgets of recursion and the
ranges of counts. `Profile.invalid?` says what is wrong with a profile that the generator cannot use.
-/

namespace TensorFuzz

/-- The counts from `min` to `max`, both included. -/
structure Range where
  min : Nat
  max : Nat
  deriving DecidableEq, Repr

/-- The sizes of a run. The values given here are those of the default profile. -/
structure Profile where
  maxDimension : Nat := 6
  /-- How deep expressions nest; at the limit only literals are left. -/
  maxExprDepth : Nat := 24
  /-- How many operators, calls and parentheses one expression may hold. -/
  maxExprNodes : Nat := 48
  maxConstDepth : Nat := 32
  /-- How deep statements nest; at the limit only flat statements are left. -/
  maxStmtDepth : Nat := 10
  /-- Items of a module, a forced entry function not counted. -/
  moduleItems : Range := ⟨1, 10⟩
  recordFields : Range := ⟨1, 4⟩
  functionParams : Range := ⟨0, 3⟩
  functionBody : Range := ⟨0, 7⟩
  blockBody : Range := ⟨0, 5⟩
  switchCases : Range := ⟨0, 5⟩
  deriving DecidableEq, Repr

namespace Profile

inductive Invalid
  | noDimension
  | emptyRange (field : String) (range : Range)
  | noRecordFields
  | noModuleItems
  deriving DecidableEq, Repr

def Invalid.message : Invalid → String
  | noDimension => "max_dimension must be at least 1"
  | emptyRange field range =>
    field ++ " has min " ++ toString range.min ++ " greater than max " ++ toString range.max
  | noRecordFields => "record_fields min must be at least 1"
  | noModuleItems => "module_items min must be at least 1"

def ranges (p : Profile) : List (String × Range) := [
  ("module_items", p.moduleItems),
  ("record_fields", p.recordFields),
  ("function_params", p.functionParams),
  ("function_body", p.functionBody),
  ("block_body", p.blockBody),
  ("switch_cases", p.switchCases)]

/-- The first thing that makes a profile unusable. -/
def invalid? (p : Profile) : Option Invalid :=
  if p.maxDimension = 0 then some .noDimension
  else match p.ranges.find? fun (_, range) => range.max < range.min with
    | some (field, range) => some (.emptyRange field range)
    | none =>
      if p.recordFields.min = 0 then some .noRecordFields
      else if p.moduleItems.min = 0 then some .noModuleItems
      else none

/-- The ranges of a usable profile are not empty. -/
theorem range_of_valid {p : Profile} (h : p.invalid? = none) {range : Range}
    (hrange : range ∈ p.ranges.map Prod.snd) : range.min ≤ range.max := by
  obtain ⟨_, hmem, rfl⟩ := List.mem_map.mp hrange
  unfold invalid? at h
  split at h
  · cases h
  · split at h
    · cases h
    · next hfind => exact Nat.not_lt.mp fun hlt => List.find?_eq_none.mp hfind _ hmem (decide_eq_true hlt)

theorem maxDimension_of_valid {p : Profile} (h : p.invalid? = none) : 1 ≤ p.maxDimension := by
  unfold invalid? at h
  split at h
  · cases h
  · omega

end Profile

end TensorFuzz
