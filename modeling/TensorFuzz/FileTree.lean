/-!
# File trees

A working directory as the files in it. A directory exists as long as a file is somewhere below it. Paths
are followed name by name, so that a path through a missing directory or through a file fails even if
it leads back out again. Outside of the working directory there are the directories around it, the root
and the standard directories in the root, without any file at first.
-/

namespace TensorFuzz

inductive FileError
  | notFound
  | notDirectory
  | isDirectory
  /-- The path or one of the names in it has too many bytes. -/
  | nameTooLong
  /-- The path holds the character zero, which ends paths. -/
  | nulInPath
  /-- The content of the file is no UTF-8 text. -/
  | notText
  /-- Another cause, with the number that the operating system gives it. -/
  | other (reason : String) (code : Nat)
  deriving DecidableEq, Repr

namespace FileError

def numbered (reason : String) (code : Nat) : String :=
  reason ++ " (os error " ++ toString code ++ ")"

def message : FileError → String
  | notFound => numbered "No such file or directory" 2
  | notDirectory => numbered "Not a directory" 20
  | isDirectory => numbered "Is a directory" 21
  | nameTooLong => numbered "File name too long" 36
  | nulInPath => "file name contained an unexpected NUL byte"
  | notText => "stream did not contain valid UTF-8"
  | other reason code => numbered reason code

end FileError

/-! ## Paths -/

/-- A path, taken apart at its slashes. -/
structure Path where
  isAbsolute : Bool
  names : List String
  endsInSlash : Bool
  deriving DecidableEq, Repr

/-- The pieces of a text between slashes, after the letters of a piece not yet ended, in reverse. -/
def Path.pieces (letters : List Char) : List Char → List (List Char)
  | [] => [letters.reverse]
  | c :: rest => if c = '/' then letters.reverse :: pieces [] rest else pieces (c :: letters) rest

def Path.ofText (text : String) : Path :=
  let pieces := Path.pieces [] text.toList
  { isAbsolute := text.toList.head? == some '/'
    names := (pieces.filter (! ·.isEmpty)).map String.ofList
    endsInSlash := text.toList.getLast? == some '/' }

def Path.maxNameSize : Nat := 255

def Path.maxSize : Nat := 4095

def Path.read (text : String) : Except FileError Path :=
  if text.toList.contains '\x00' then .error .nulInPath
  else if maxSize < text.utf8ByteSize then .error .nameTooLong
  else .ok (ofText text)

/-! ## Trees -/

/-- The files of a working directory and around it: the names that lead to each, and its content. The names
lead from the working directory, and first out of it where they begin with pairs of dots; or they lead from
the root, and then a slash comes before them. -/
structure FileTree where
  files : List (List String × ByteArray)

namespace FileTree

inductive Node
  | file (content : ByteArray)
  | directory

def root : List String := ["/"]

def rootDirectories : List String :=
  ["bin", "boot", "dev", "etc", "home", "lib", "media", "mnt", "opt", "proc", "root", "run", "sbin",
    "srv", "sys", "tmp", "usr", "var"]

/-- The names lead to the working directory or out of it to a directory around it. -/
def isAround (names : List String) : Bool := names.all (· == "..")

/-- The names lead to a directory that exists whatever files there are. -/
def isStanding (names : List String) : Bool :=
  isAround names || names == root || (rootDirectories.map (root ++ [·])).contains names

def isInside (names : List String) : Bool :=
  names.head? != some ".." && names.head? != root.head?

def file? (tree : FileTree) (names : List String) : Option ByteArray :=
  (tree.files.find? (·.1 == names)).map (·.2)

def node? (tree : FileTree) (names : List String) : Option Node :=
  match tree.file? names with
  | some content => some (.file content)
  | none =>
    if isStanding names || tree.files.any fun (file, _) => names.isPrefixOf file then some .directory
    else none

def put (tree : FileTree) (names : List String) (content : ByteArray) : FileTree :=
  if (tree.file? names).isSome then
    ⟨tree.files.map fun entry => if entry.1 == names then (names, content) else entry⟩
  else ⟨tree.files ++ [(names, content)]⟩

/-- The directory around a directory. The root is around itself. -/
def parent (place : List String) : List String :=
  if isAround place then place ++ [".."] else if place = root then root else place.dropLast

/-- The names that stand for a directory itself and for the one around it. -/
def isRelative (name : String) : Bool := name == "." || name == ".."

def enter (tree : FileTree) (place : List String) (name : String) :
    Except FileError (List String) :=
  if name = "." then .ok place
  else if name = ".." then .ok (parent place)
  else if Path.maxNameSize < name.utf8ByteSize then .error .nameTooLong
  else match tree.node? (place ++ [name]) with
    | some .directory => .ok (place ++ [name])
    | some (.file _) => .error .notDirectory
    | none => .error .notFound

/-- What a path leads to: a directory, or a name in a directory. -/
inductive Goal
  | directory
  | entry (place : List String) (name : String)
  deriving DecidableEq, Repr

def goal (tree : FileTree) (path : Path) : Except FileError Goal := do
  match path.names.getLast? with
  | none => if path.isAbsolute then return .directory else throw .notFound
  | some last =>
    let place ← path.names.dropLast.foldlM tree.enter (if path.isAbsolute then root else [])
    if isRelative last then return .directory else return .entry place last

def namesOf (place : List String) (name : String) : Except FileError (List String) :=
  if Path.maxNameSize < name.utf8ByteSize then .error .nameTooLong else .ok (place ++ [name])

def read (tree : FileTree) (path : String) : Except FileError ByteArray := do
  let path ← Path.read path
  match ← tree.goal path with
  | .directory => throw .isDirectory
  | .entry place name =>
    match tree.node? (← namesOf place name) with
    | none => throw .notFound
    | some .directory => throw .isDirectory
    | some (.file content) => if path.endsInSlash then throw .notDirectory else return content

def write (tree : FileTree) (path : String) (content : ByteArray) : Except FileError FileTree := do
  let path ← Path.read path
  match ← tree.goal path with
  | .directory => throw .isDirectory
  | .entry place name =>
    if path.endsInSlash then throw .isDirectory
    let names ← namesOf place name
    match tree.node? names with
    | some .directory => throw .isDirectory
    | _ => return tree.put names content

/-! ## Reading back -/

theorem file?_put_self (tree : FileTree) (names : List String) (content : ByteArray) :
    (tree.put names content).file? names = some content := by
  unfold put
  split
  · rename_i h
    simp only [file?, Option.isSome_map, List.find?_isSome] at h
    obtain ⟨entry, hmem, heq⟩ := h
    simp only [file?, List.find?_map, Option.map_map]
    have hfound : (tree.files.find? (fun entry => entry.1 == names)).isSome := by
      simp only [List.find?_isSome]
      exact ⟨entry, hmem, heq⟩
    obtain ⟨found, hf⟩ := Option.isSome_iff_exists.1 hfound
    have hcongr : ((fun entry : List String × ByteArray => entry.1 == names) ∘
        fun entry => if entry.1 == names then (names, content) else entry) =
        fun entry => entry.1 == names := by
      funext entry
      by_cases hn : entry.1 = names <;> simp [hn]
    rw [hcongr, hf]
    have hn : found.1 = names := by
      have := List.find?_some hf
      simpa using this
    simp [hn]
  · rename_i h
    have hnone : tree.files.find? (fun entry => entry.1 == names) = none := by
      rwa [file?, Option.isSome_map, Bool.not_eq_true, Option.isSome_eq_false_iff,
        Option.isNone_iff_eq_none] at h
    simp [file?, List.find?_append, hnone]

end FileTree

end TensorFuzz
