import TensorFuzz.Host
import TensorFuzz.Profile.Embedded
import TensorFuzz.RunError

/-!
# Loading profiles

A profile is asked for by the name of an embedded profile or by the path of a document. A profile that
was loaded can be used.
-/

namespace TensorFuzz.Profile

/-- The name is the path of a document: it has a slash in it or ends in `.toml`. -/
def isPath (name : String) : Bool :=
  name.toList.contains '/' || ".toml".toList.isSuffixOf name.toList

def accept (name : String) (p : Profile) : Except RunError Profile :=
  match p.invalid? with
  | none => .ok p
  | some reason => .error (.invalidProfile name reason)

def ofContent (name : String) (content : Except FileError ByteArray) : Except RunError Profile :=
  match content with
  | .error e => .error (.unreadableProfile name e)
  | .ok bytes =>
    match String.fromUTF8? bytes with
    | none => .error (.unreadableProfile name .notText)
    | some text =>
      match parse? text with
      | none => .error (.unparsableProfile name)
      | some p => accept name p

def ofName (name : String) : Except RunError Profile :=
  match named? name with
  | none => .error (.unknownProfile name)
  | some p => .ok p

def load {m : Type → Type} [Monad m] [Host m] (name : String) : ExceptT RunError m Profile := do
  if isPath name then
    let content ← ExceptT.lift (Host.readFile name)
    MonadExcept.ofExcept (ofContent name content)
  else
    MonadExcept.ofExcept (ofName name)

/-! ## Loaded profiles can be used -/

theorem eq_of_accept {name : String} {p q : Profile} (h : accept name p = .ok q) :
    p = q ∧ q.invalid? = none := by
  unfold accept at h
  split at h
  · rename_i hp
    simp only [Except.ok.injEq] at h
    exact ⟨h, h ▸ hp⟩
  · simp at h

theorem invalid?_of_ofName {name : String} {p : Profile} (h : ofName name = .ok p) :
    p.invalid? = none := by
  unfold ofName named? at h
  cases hf : embedded.find? (·.1 == name) with
  | none => simp [hf] at h
  | some entry =>
    simp only [hf, Option.map_some, Except.ok.injEq] at h
    exact h ▸ invalid?_of_mem_embedded (List.mem_of_find?_eq_some hf)

end TensorFuzz.Profile
