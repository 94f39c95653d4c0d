import TensorFuzz.FileTree

/-!
# Hosts

What a run needs of its surroundings: files, two streams and a clock. Writing a result may fail, to a file
as to the stream for results; messages are taken to arrive. `Workplace` is a host without surroundings of
its own, in which a run can be reasoned about.
-/

namespace TensorFuzz

/-- Actions on files, streams and a clock. -/
class Host (m : Type → Type) where
  readFile : String → m (Except FileError ByteArray)
  writeFile : String → String → m (Except FileError Unit)
  print : String → m (Except FileError Unit)
  tell : String → m Unit
  now : m Nat

/-- How a stream takes a text behind what was written to it before: all of it, or a number of its
characters before it fails. -/
abbrev Sink := String → String → Except (Nat × FileError) Unit

/-- The stream that takes everything. -/
def Sink.all : Sink := fun _ _ => .ok ()

/-- The stream that takes nothing, as one to a device that is full. -/
def Sink.full (cause : FileError) : Sink := fun _ _ => .error (0, cause)

/-- A working directory, the stream for results, what was written to the two streams, and a time that stands
still. -/
structure Workplace where
  files : FileTree
  sink : Sink := .all
  printed : String := ""
  told : String := ""
  time : Nat := 0

namespace Workplace

def readFile (path : String) : StateM Workplace (Except FileError ByteArray) := fun w =>
  (w.files.read path, w)

/-- Makes a text the content of the file at a path, unless that fails. -/
def writeFile (path text : String) : StateM Workplace (Except FileError Unit) := fun w =>
  match w.files.write path text.toUTF8 with
  | .ok files => (.ok (), { w with files })
  | .error e => (.error e, w)

/-- Writes a text to the stream for results, or as much of it as the stream takes before it fails. -/
def print (text : String) : StateM Workplace (Except FileError Unit) := fun w =>
  match w.sink w.printed text with
  | .ok () => (.ok (), { w with printed := w.printed ++ text })
  | .error (taken, e) => (.error e, { w with printed := w.printed ++ String.ofList (text.toList.take taken) })

instance : Host (StateM Workplace) where
  readFile := readFile
  writeFile := writeFile
  print := print
  tell line := modify fun w => { w with told := w.told ++ line ++ "\n" }
  now := return (← get).time

end Workplace

end TensorFuzz
