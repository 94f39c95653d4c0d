/-!
# Configuration documents

A document is a tree of tables. Tables are opened by a header, implied by the header of a table inside
them, or made by dotted keys, and the ways to add to a table depend on how it came about: a table opened
by a header is not opened again or added to by dotted keys, and one made by dotted keys is not opened
by a header.
-/

namespace TensorFuzz.Toml

inductive Form
  /-- By a header of its own, or by braces. -/
  | opened
  /-- By the header of a table inside it. -/
  | implied
  /-- By a dotted key. -/
  | dotted
  deriving DecidableEq, Repr

inductive Value
  | string (text : String)
  | integer (n : Int)
  | float
  | boolean (b : Bool)
  | dateTime
  | list (items : List Value)
  | table (form : Form) (entries : List (String × Value))
  deriving Repr

inductive Item
  | value (value : Value)
  | table (form : Form) (entries : List (String × Item))
  /-- The tables that repeated headers opened, newest last. -/
  | tables (members : List (List (String × Item)))
  deriving Repr

abbrev Entries := List (String × Item)

def find? {α : Type} (entries : List (String × α)) (key : String) : Option α :=
  (entries.find? (·.1 == key)).map (·.2)

/-- The entries with the given one in place of the one of that key, or after all others. -/
def put {α : Type} (entries : List (String × α)) (key : String) (a : α) : List (String × α) :=
  if (find? entries key).isSome then
    entries.map fun entry => if entry.1 == key then (key, a) else entry
  else entries ++ [(key, a)]

/-! ## Tables in braces -/

/-- Adds a value under a dotted key to the entries of a table in braces. -/
def addInline (entries : List (String × Value)) (path : List String) (key : String)
    (value : Value) : Option (List (String × Value)) :=
  match path with
  | [] => if (find? entries key).isSome then none else some (entries ++ [(key, value)])
  | name :: path =>
    match find? entries name with
    | none => do return put entries name (.table .dotted (← addInline [] path key value))
    | some (.table .dotted inner) => do
      return put entries name (.table .dotted (← addInline inner path key value))
    | some _ => none

/-! ## Documents -/

def changeLast {α : Type} (change : α → Option α) : List α → Option (List α)
  | [] => none
  | [a] => do return [← change a]
  | a :: others => do return a :: (← changeLast change others)

/-- Changes the table that a header path leads to; of repeated tables the newest is taken, and tables
that do not exist yet are implied. -/
def changeAt (change : Entries → Option Entries) : List String → Entries → Option Entries
  | [], entries => change entries
  | name :: path, entries =>
    match find? entries name with
    | none => do return put entries name (.table .implied (← changeAt change path []))
    | some (.table form inner) => do
      return put entries name (.table form (← changeAt change path inner))
    | some (.tables members) => do
      return put entries name (.tables (← changeLast (changeAt change path) members))
    | some (.value _) => none

def openTable (path : List String) (key : String) : Entries → Option Entries :=
  changeAt (fun entries =>
    match find? entries key with
    | none => some (put entries key (.table .opened []))
    | some (.table .implied inner) => some (put entries key (.table .opened inner))
    | some _ => none) path

def openMember (path : List String) (key : String) : Entries → Option Entries :=
  changeAt (fun entries =>
    match find? entries key with
    | none => some (put entries key (.tables [[]]))
    | some (.tables members) => some (put entries key (.tables (members ++ [[]])))
    | some _ => none) path

/-- Adds a value under a dotted key. `isDotted` says that the entries are those of a table that dotted
keys made, which is where the key must end unless its path is empty. -/
def addDotted (isDotted isTop : Bool) (entries : Entries) (path : List String) (key : String)
    (value : Value) : Option Entries :=
  match path with
  | [] =>
    if isDotted = isTop ∨ (find? entries key).isSome then none
    else some (entries ++ [(key, .value value)])
  | name :: path =>
    match find? entries name with
    | none => do
      return put entries name (.table .dotted (← addDotted true false [] path key value))
    | some (.table .opened _) => none
    | some (.table form inner) => do
      let inner ← addDotted (form == .dotted) false inner path key value
      return put entries name (.table form inner)
    | some (.tables members) => do
      let members ← changeLast (fun inner => addDotted false false inner path key value) members
      return put entries name (.tables members)
    | some (.value _) => none

def addValue (header path : List String) (key : String) (value : Value) :
    Entries → Option Entries :=
  changeAt (fun entries => addDotted false true entries path key value) header

end TensorFuzz.Toml
