import TensorFuzz.Profile
import TensorFuzz.Json

/-!
# Manifests

The record of a run: its seed, the profile it asked for and the sizes that were in effect. A manifest is
written as an indented JSON object, and read from an object or a list.
-/

namespace TensorFuzz

structure Manifest where
  seed : Nat
  profile : String
  settings : Profile
  version : String
  deriving DecidableEq, Repr

namespace Manifest

def currentVersion : String := "0.1.0"

def ofRun (seed : Nat) (profile : String) (settings : Profile) : Manifest :=
  ⟨seed, profile, settings, currentVersion⟩

/-! ## Writing -/

def rangeText (range : Range) : String :=
  "[\n      " ++ toString range.min ++ ",\n      " ++ toString range.max ++ "\n    ]"

def settingTexts (p : Profile) : List (String × String) := [
  ("max_dimension", toString p.maxDimension),
  ("max_expr_depth", toString p.maxExprDepth),
  ("max_expr_nodes", toString p.maxExprNodes),
  ("max_const_depth", toString p.maxConstDepth),
  ("max_stmt_depth", toString p.maxStmtDepth),
  ("module_items", rangeText p.moduleItems),
  ("record_fields", rangeText p.recordFields),
  ("function_params", rangeText p.functionParams),
  ("function_body", rangeText p.functionBody),
  ("block_body", rangeText p.blockBody),
  ("switch_cases", rangeText p.switchCases)]

def memberLines (indent : String) (members : List (String × String)) : String :=
  ",\n".intercalate (members.map fun (name, text) => indent ++ "\"" ++ name ++ "\": " ++ text)

def text (m : Manifest) : String :=
  "\x7b\n" ++ memberLines "  " [
    ("seed", toString m.seed),
    ("profile", Json.quote m.profile),
    ("settings", "\x7b\n" ++ memberLines "    " (settingTexts m.settings) ++ "\n  \x7d"),
    ("generator_version", Json.quote m.version)] ++ "\n\x7d"

/-! ## Reading -/

def readRange : Json.Reader Range := do
  let (min, max) ← Json.pair Json.natural
  return ⟨min, max⟩

def settingMembers : List (Json.Member Profile) := [
  ⟨"max_dimension", fun p => do return { p with maxDimension := ← Json.natural }⟩,
  ⟨"max_expr_depth", fun p => do return { p with maxExprDepth := ← Json.natural }⟩,
  ⟨"max_expr_nodes", fun p => do return { p with maxExprNodes := ← Json.natural }⟩,
  ⟨"max_const_depth", fun p => do return { p with maxConstDepth := ← Json.natural }⟩,
  ⟨"max_stmt_depth", fun p => do return { p with maxStmtDepth := ← Json.natural }⟩,
  ⟨"module_items", fun p => do return { p with moduleItems := ← readRange }⟩,
  ⟨"record_fields", fun p => do return { p with recordFields := ← readRange }⟩,
  ⟨"function_params", fun p => do return { p with functionParams := ← readRange }⟩,
  ⟨"function_body", fun p => do return { p with functionBody := ← readRange }⟩,
  ⟨"block_body", fun p => do return { p with blockBody := ← readRange }⟩,
  ⟨"switch_cases", fun p => do return { p with switchCases := ← readRange }⟩]

/-- A profile; sizes that are not given keep their default. -/
def readSettings : Json.Reader Profile := Json.structured settingMembers {} .ok

structure Draft where
  seed : Option Nat := none
  profile : Option String := none
  settings : Option Profile := none
  version : Option String := none

/-- The members of a manifest, in the order in which a list gives them. -/
def members : List (Json.Member Draft) := [
  ⟨"seed", fun d => do return { d with seed := some (← Json.natural) }⟩,
  ⟨"profile", fun d => do return { d with profile := some (← Json.string) }⟩,
  ⟨"settings", fun d => do return { d with settings := some (← readSettings) }⟩,
  ⟨"generator_version", fun d => do return { d with version := some (← Json.string) }⟩]

/-- The manifest of a draft that lacks nothing. -/
def Draft.finish : Draft → Except Json.Failure Manifest
  | ⟨some seed, some profile, some settings, some version⟩ => .ok ⟨seed, profile, settings, version⟩
  | _ => .error .unfit

def parse (text : String) : Except Json.Failure Manifest :=
  Json.document (Json.structured members {} Draft.finish) text

end Manifest

end TensorFuzz
