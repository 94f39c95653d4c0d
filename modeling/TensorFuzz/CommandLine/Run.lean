import TensorFuzz.CommandLine.Help
import TensorFuzz.Journal.Filter
import TensorFuzz.Layout
import TensorFuzz.Manifest
import TensorFuzz.Module.Generate
import TensorFuzz.Profile.Load
import TensorFuzz.Random.KeyStream

/-!
# Runs

A run loads a profile, generates the program of a seed, and writes it and, if asked to, a record of the
run. It stops at the first error, so that no record is left of a program that could not be written. The
messages of a run are its seed and profile, the events that a filter shows, and the error that it stopped
at.
-/

namespace TensorFuzz

structure Program where
  text : String
  /-- What was reported during generation, oldest first. -/
  events : List Event

namespace Program

/-- How many words a single draw may reject. -/
def patience : KeyStream → Nat := fun _ => limit64

/-- The random words of a seed. -/
def supply (seed : Nat) : Supply KeyStream := ⟨.ofSeed (UInt64.ofNat seed), patience⟩

def generate (p : Profile) (seed : Nat) : Except Fault Program := do
  let (items, engine) ← Module.run p (supply seed)
  return ⟨moduleText items, engine.journal.reverse⟩

end Program

namespace CommandLine

variable {m : Type → Type} [Monad m] [Host m]

/-- The profile in effect, with the bound of dimensions that the arguments give. -/
def effective (args : Arguments) (p : Profile) : Except RunError Profile :=
  match args.maxDimension with
  | none => .ok p
  | some bound => Profile.accept args.profile { p with maxDimension := bound }

/-- The text of a program as the arguments want it. -/
def laidOut (args : Arguments) (text : String) : String := if args.pretty then Layout.pretty text else text

def writeTo (path text : String) : ExceptT RunError m Unit := do
  let written ← ExceptT.lift (Host.writeFile path text)
  MonadExcept.ofExcept (written.mapError (.unwritable path))

/-- The stream for results, as errors name it. -/
def streamName : String := "<stdout>"

def printAll (text : String) : ExceptT RunError m Unit := do
  let printed ← ExceptT.lift (Host.print text)
  MonadExcept.ofExcept (printed.mapError (.unwritable streamName))

/-- Writes the program to its file, or to the stream for results with a line feed after it. -/
def writeProgram (args : Arguments) (text : String) : ExceptT RunError m Unit :=
  match args.output with
  | some path => writeTo path text
  | none => printAll (text ++ "\n")

def writeManifest (args : Arguments) (seed : Nat) (p : Profile) : ExceptT RunError m Unit :=
  match args.manifest with
  | some path => writeTo path (Manifest.ofRun seed args.profile p).text
  | none => return ()

def chooseSeed (args : Arguments) : m Nat :=
  match args.seed with
  | some seed => return seed
  | none => Host.now

def tellEvents : List Event → m Unit
  | [] => return ()
  | event :: events => do
    Host.tell event.line
    tellEvents events

/-- Generates and writes what the arguments ask for, with the generator that is given. -/
def run (generate : Profile → Nat → Except Fault Program) (args : Arguments) (filter : Filter) :
    ExceptT RunError m Unit := do
  let loaded ← Profile.load args.profile
  let p ← MonadExcept.ofExcept (effective args loaded)
  let seed ← ExceptT.lift (chooseSeed args)
  ExceptT.lift (Host.tell ("mavl-stress: seed " ++ toString seed ++ ", profile " ++ args.profile))
  let program ← MonadExcept.ofExcept ((generate p seed).mapError .stopped)
  ExceptT.lift (tellEvents (program.events.filter filter.shows))
  writeProgram args (laidOut args program.text)
  writeManifest args seed p

/-- Performs what the words of a command line and the text of a filter ask for, with the generator that is given, and
gives the number to end with. -/
def performWith (generate : Profile → Nat → Except Fault Program) (words : List String) (filter : Option String) :
    m Nat := do
  match Request.parse? words with
  | none => return 2
  | some .help =>
    -- whether the help arrives makes no difference
    let _ ← Host.print Help.text
    return 0
  | some (.run args) =>
    match ← (run generate args ((filter.bind Filter.parse?).getD [])).run with
    | .ok () => return 0
    | .error e =>
      Host.tell e.report
      return e.exitCode

def perform (words : List String) (filter : Option String) : m Nat := performWith Program.generate words filter

end CommandLine

end TensorFuzz
