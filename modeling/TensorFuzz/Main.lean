import TensorFuzz.CommandLine.Run

/-!
# The program

Runs the command line on the files and streams of the system.
-/

namespace TensorFuzz

/-- The file error of a number of the system, which may be given with its sign changed. -/
def FileError.ofCode (code : UInt32) (reason : String) : FileError :=
  let code := if code < 0x80000000 then code else 0 - code
  if code = 2 then .notFound
  else if code = 20 then .notDirectory
  else if code = 21 then .isDirectory
  else if code = 36 then .nameTooLong
  else .other reason code.toNat

def FileError.ofSystem : IO.Error → FileError
  | .noFileOrDirectory .. => .notFound
  | .inappropriateType _ code reason => .ofCode code reason
  | .invalidArgument _ code reason => .ofCode code reason
  | .permissionDenied _ code reason => .ofCode code reason
  | .resourceExhausted _ code reason => .ofCode code reason
  | .alreadyExists _ code reason => .ofCode code reason
  | .otherError code reason => .ofCode code reason
  | e => .other (toString e) 0

/-- The result of an action, or why the system refuses it. -/
def attempt {α : Type} (act : IO α) : IO (Except FileError α) := do
  try
    return .ok (← act)
  catch e =>
    return .error (FileError.ofSystem e)

/-- The result of an action on the file at a path that the system can be given. -/
def attemptAt {α : Type} (path : String) (act : IO α) : IO (Except FileError α) := do
  match Path.read path with
  | .error e => return .error e
  | .ok _ => attempt act

/-- Writes a text to the stream for results, which fails now or never. -/
def printNow (text : String) : IO Unit := do
  let out ← IO.getStdout
  out.putStr text
  out.flush

instance : Host IO where
  readFile path := attemptAt path (IO.FS.readBinFile path)
  writeFile path text := attemptAt path (IO.FS.writeFile path text)
  print text := attempt (printNow text)
  tell line := IO.eprintln line
  now := do return (← IO.monoNanosNow) % limit64

end TensorFuzz

/-- Runs the command line. The filter of messages is taken from the environment. -/
def main (args : List String) : IO UInt32 := do
  let filter ← IO.getEnv "MAVL_LOG"
  return UInt32.ofNat (← TensorFuzz.CommandLine.perform args filter)
