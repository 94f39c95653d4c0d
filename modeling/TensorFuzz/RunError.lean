import TensorFuzz.Fault
import TensorFuzz.FileTree
import TensorFuzz.Json
import TensorFuzz.Profile.Embedded

/-!
# Run errors

What can go wrong around generation: a profile that cannot be found, read, parsed or used, a result that
cannot be written, a manifest that cannot be read back, and a generation that is stopped by a fault.
-/

namespace TensorFuzz

/-- Why a run fails. -/
inductive RunError
  | unknownProfile (name : String)
  | unreadableProfile (path : String) (cause : FileError)
  | unparsableProfile (name : String)
  | invalidProfile (name : String) (reason : Profile.Invalid)
  | unwritable (path : String) (cause : FileError)
  | manifest (cause : Json.Failure)
  | stopped (cause : Fault)
  deriving DecidableEq, Repr

namespace RunError

/-- The text reported for a failed run, without its cause. -/
def message : RunError → String
  | unknownProfile name =>
    "unknown profile '" ++ name ++ "', available profiles: " ++ ", ".intercalate Profile.available
  | unreadableProfile path _ => "failed to read profile file '" ++ path ++ "'"
  | unparsableProfile name => "failed to parse profile '" ++ name ++ "'"
  | invalidProfile name reason => "invalid profile '" ++ name ++ "': " ++ reason.message
  | unwritable path _ => "failed to write '" ++ path ++ "'"
  | manifest _ => "failed to serialize run manifest"
  | stopped cause => cause.message

def cause? : RunError → Option String
  | unreadableProfile _ cause => some cause.message
  | unwritable _ cause => some cause.message
  | _ => none

def report (e : RunError) : String :=
  match e.cause? with
  | some cause => "error: " ++ e.message ++ ": " ++ cause
  | none => "error: " ++ e.message

def exitCode : RunError → Nat
  | stopped _ => 101
  | _ => 1

end RunError

end TensorFuzz
