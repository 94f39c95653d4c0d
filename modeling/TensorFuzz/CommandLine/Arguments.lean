import TensorFuzz.Word
import TensorFuzz.Text.Digits

/-!
# Arguments

What a run is asked for on the command line. Every option is given at most once, as `--option value` or
as `--option=value`; two hyphens may stand at the end. Where help is asked for, what comes after is not
looked at.
-/

namespace TensorFuzz.CommandLine

inductive Setting
  | pretty
  | maxDimension (bound : Nat)
  | seed (seed : Nat)
  | profile (name : String)
  | output (path : String)
  | manifest (path : String)
  deriving DecidableEq, Repr

structure Arguments where
  pretty : Bool := false
  maxDimension : Option Nat := none
  seed : Option Nat := none
  profile : String := "default"
  output : Option String := none
  manifest : Option String := none
  deriving DecidableEq, Repr

namespace Setting

def option : Setting → String
  | pretty => "--pretty"
  | maxDimension _ => "--maxdim"
  | seed _ => "--seed"
  | profile _ => "--profile"
  | output _ => "--output"
  | manifest _ => "--manifest"

/-- A number that an unsigned 64-bit word holds, in decimal digits with a plus sign or without. -/
def word? (text : String) : Option Nat :=
  let digits := if text.toList.head? = some '+' then text.toList.drop 1 else text.toList
  if digits.isEmpty ∨ !digits.all (·.isDigit) then none
  else
    let n := Text.digitsValue 10 digits
    if n < limit64 then some n else none

def path? (text : String) : Option String := if text.isEmpty then none else some text

def ofValue? (option value : String) : Option Setting :=
  match option with
  | "--maxdim" => (word? value).map maxDimension
  | "--seed" => (word? value).map seed
  | "--profile" => some (profile value)
  | "--output" => (path? value).map output
  | "--manifest" => (path? value).map manifest
  | _ => none

def apply (args : Arguments) : Setting → Arguments
  | pretty => { args with pretty := true }
  | maxDimension n => { args with maxDimension := some n }
  | seed n => { args with seed := some n }
  | profile p => { args with profile := p }
  | output path => { args with output := some path }
  | manifest path => { args with manifest := some path }

end Setting

namespace Arguments

/-- An option and the value attached to it, if there is one. -/
def splitValue (word : String) : String × Option String :=
  let letters := word.toList
  let option := letters.takeWhile (· != '=')
  match letters.drop option.length with
  | _ :: value => (String.ofList option, some (String.ofList value))
  | [] => (word, none)

/-- The word can be the value of the option before it: it does not begin with a hyphen, unless it is one. -/
def isValue (word : String) : Bool := word.toList.head? != some '-' || word == "-"

/-- The word asks for help. What is joined to the letter of the short form does not matter. -/
def isHelp (word : String) : Bool := word == "--help" || ['-', 'h'].isPrefixOf word.toList

/-- The settings that the words of a command line make up to a request for help, and whether there is one. -/
def settings? : List String → Option (List Setting × Bool)
  | [] => some ([], false)
  | ["--"] => some ([], false)
  | word :: words =>
    if isHelp word then some ([], true)
    else match splitValue word, words with
      | (option, some value), words => do
        let setting ← Setting.ofValue? option value
        let (settings, needsHelp) ← settings? words
        return (setting :: settings, needsHelp)
      | ("--pretty", none), words => do
        let (settings, needsHelp) ← settings? words
        return (.pretty :: settings, needsHelp)
      | (option, none), value :: words => do
        if !isValue value then none
        let setting ← Setting.ofValue? option value
        let (settings, needsHelp) ← settings? words
        return (setting :: settings, needsHelp)
      | _, [] => none

end Arguments

inductive Request
  | help
  | run (args : Arguments)
  deriving DecidableEq, Repr

/-- What a command line asks for, unless it has an option that is unknown, given twice or without a proper
value. -/
def Request.parse? (words : List String) : Option Request := do
  let (settings, needsHelp) ← Arguments.settings? words
  if (settings.map (·.option)).Nodup then
    some (if needsHelp then help else run (settings.foldl Setting.apply {}))
  else none

end TensorFuzz.CommandLine
