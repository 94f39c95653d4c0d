import TensorFuzz.Name.Words
import TensorFuzz.Random.Draw

/-!
# Drawn names

Names drawn from the word tables, and the choice of a name that is not taken: a bounded number of
redraws, and then the smallest number from two on that makes the last draw free.
-/

namespace TensorFuzz.Name

/-! ## Names from the tables -/

variable {σ : Type} [RandomSource σ]

def drawWords : Pattern → Draw σ (List String)
  | [] => return []
  | slot :: slots => do
    let word := (← Draw.pick? slot).getD ""
    return word :: (← drawWords slots)

/-- The words as one name: every word but the first begins with a capital. -/
def camelCase : List String → String
  | [] => ""
  | first :: others => first ++ String.join (others.map String.capitalize)

def drawFrom (table : List Pattern) : Draw σ String := do
  return camelCase (← drawWords ((← Draw.pick? table).getD []))

def drawVariable (ty : Ty) : Draw σ String := drawFrom (patterns ty)

/-- A name for a function of the given return type: a verb and a name for the value, unless there is
no value. -/
def drawFunction (ty : Ty) : Draw σ String := do
  if ty.isVoid then drawFrom procedures
  else
    let verb := (← Draw.pick? verbs).getD "get"
    return verb ++ (← drawVariable ty).capitalize

/-! ## Free names -/

def maxRedraws : Nat := 32

/-- The name with the smallest number from two on that is not taken. Among one more candidates than
there are taken names, one is free. -/
def withSuffix (taken : List String) (name : String) : String :=
  let candidates := (List.range (taken.length + 1)).map fun n => name ++ toString (n + 2)
  (candidates.find? (· ∉ taken)).getD name

/-- Draws until a name is not taken, redrawing at most `redraws` times; then numbers the last one. -/
def redraw {m : Type → Type} [Monad m] (draw : m String) (taken : List String) : Nat → m String
  | 0 => do
    let name ← draw
    return if name ∈ taken then withSuffix taken name else name
  | redraws + 1 => do
    let name ← draw
    if name ∈ taken then redraw draw taken redraws else return name

def unique {m : Type → Type} [Monad m] (draw : m String) (taken : List String) : m String :=
  redraw draw taken maxRedraws

end TensorFuzz.Name
