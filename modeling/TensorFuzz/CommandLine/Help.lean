import TensorFuzz.CommandLine.Arguments

/-!
# Help

The text that explains the command line: what a run does, and each option with what it is for. Explanations
begin in one column and are broken between words.
-/

namespace TensorFuzz.CommandLine.Help

/-- An option as it is written, with a name for its value, and what it is for. -/
structure Entry where
  spelled : String
  about : List String
  deriving DecidableEq, Repr

def entries : List Entry := [
  ⟨"      --pretty", ["Re-indent", "the", "program,", "one", "statement", "per", "line"]⟩,
  ⟨"      --maxdim <MAX_DIMENSION>",
    ["Maximum", "vector", "and", "matrix", "dimension", "(overrides", "the", "profile)"]⟩,
  ⟨"      --seed <SEED>", ["Random", "seed", "for", "reproducibility"]⟩,
  ⟨"      --profile <PROFILE>",
    ["Generation", "profile:", "an", "embedded", "name", "or", "a", "path", "to", "a", "TOML",
      "file", "[default:", ({} : Arguments).profile ++ "]"]⟩,
  ⟨"      --output <OUTPUT>",
    ["Write", "the", "program", "to", "this", "file", "instead", "of", "stdout"]⟩,
  ⟨"      --manifest <MANIFEST>",
    ["Write", "a", "JSON", "record", "of", "the", "run", "to", "this", "file"]⟩,
  ⟨"  -h, --help", ["Print", "help"]⟩]

def lineWidth : Nat := 100

/-- The column in which explanations begin: two blanks after the longest option. -/
def column : Nat := (entries.map (·.spelled.length)).foldl max 0 + 2

/-- The lines that words fill, after the words already on the first one. -/
def fill (width : Nat) (line : String) : List String → List String
  | [] => [line]
  | word :: words =>
    if line.length + 1 + word.length ≤ width then fill width (line ++ " " ++ word) words
    else line :: fill width word words

def blanks (count : Nat) : String := String.ofList (List.replicate count ' ')

def Entry.text (entry : Entry) : String :=
  let lines := match entry.about with
    | [] => []
    | word :: words => fill (lineWidth - column) word words
  entry.spelled ++ blanks (column - entry.spelled.length) ++
    ("\n" ++ blanks column).intercalate lines ++ "\n"

def text : String :=
  "Generate random, well-typed MAVL programs\n\nUsage: mavl-stress [OPTIONS]\n\nOptions:\n" ++
    String.join (entries.map Entry.text)

end TensorFuzz.CommandLine.Help
