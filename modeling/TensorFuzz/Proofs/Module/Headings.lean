import TensorFuzz.Proofs.Constant.Cutting
import TensorFuzz.Proofs.Module.Typing
import TensorFuzz.Proofs.Name.Words

/-!
# Headings

What the text of a declaration says: readers for the headings of values and variables, loops over entries, functions
and records. A dimension is what the evaluator of constants makes of its text. The heading of each declaration is read
back as the binding, the parameters or the shape that the declaration spells.
-/

namespace TensorFuzz

open Text (Reader Takes Stops Anything stops_mark stops_mark_append)
open Check (IsName isIdentChar)

/-! ## Readers -/

namespace Heading

def name : Reader String := .span isIdentChar

/-- The one of the choices that the next word is the text of. -/
def oneOf {α : Type} (text : α → String) (choices : List α) : Reader α := do
  let word ← name
  match choices.find? (text · == word) with
  | some a => return a
  | none => failure

def dimension : Reader Nat := do
  Reader.expect "["
  let text ← Reader.span (· != ']')
  Reader.expect "]"
  match Constant.evaluate text with
  | .ok (.ofNat n) => return n
  | _ => failure

/-- The kind of the entries of a vector or matrix. -/
def entryKind : Reader Kind := do
  Reader.expect " <"
  let kind ← oneOf Kind.text [.int, .float]
  Reader.expect "> "
  return kind

/-- The types that are written as one word each, records apart. -/
def plainTys : List Ty := [.bool, .int, .float, .string, .void]

/-- The words that types other than records begin with. -/
def tyWords : List String := "vector" :: "matrix" :: plainTys.map Ty.text

/-- A type behind its first word. -/
def tyAfter (word : String) : Reader Ty :=
  if word = "vector" then do
    let kind ← entryKind
    return .vector kind (← dimension)
  else if word = "matrix" then do
    let kind ← entryKind
    let rows ← dimension
    return .matrix kind rows (← dimension)
  else return (plainTys.find? (·.text == word)).getD (.record word)

def ty : Reader Ty := do tyAfter (← name)

/-- A type and a name of that type. -/
def typed (kind : BindingKind) : Reader Binding := do
  let ty ← ty
  Reader.expect " "
  return ⟨kind, ← name, ty, []⟩

/-- A typed name behind the word that says whether it is a variable. -/
def bound : Reader Binding := do
  let isVariable ← oneOf declarationWord [true, false]
  Reader.expect " "
  typed (if isVariable then .variable else .value)

/-- The declaration of a value, up to its initial value, or of a variable. -/
def declaration : Reader Binding := do
  let b ← bound
  Reader.expect (if b.kind = .variable then " ;" else " = ")
  return b

/-- A loop over entries, up to its collection. -/
def loop : Reader Binding := do
  Reader.expect "foreach("
  let b ← bound
  Reader.expect " : "
  return b

/-- A function, up to its body, with its parameters. -/
def function : Reader (Binding × List Binding) := do
  Reader.expect "function "
  let b ← typed .function
  Reader.expect "("
  let params ← Reader.separated (typed .variable) ", " ")"
  Reader.expect " \x7b "
  return ({ b with params := params.map (·.ty) }, params)

def field : Reader Field := do
  let b ← bound
  Reader.expect " ;"
  return ⟨b.ty, b.name, b.kind = .variable⟩

def record : Reader Shape := do
  Reader.expect "record "
  let id ← name
  Reader.expect " \x7b "
  return ⟨id, ← Reader.separated field " " " \x7d "⟩

end Heading

/-! ## Types -/

/-- The text of the type tells it from all others: words hold its dimensions, and its record has a name of its own. -/
def Ty.Legible : Ty → Prop
  | .vector _ length => Fits64 length
  | .matrix _ rows cols => Fits64 rows ∧ Fits64 cols
  | .record id => IsName id ∧ id ∉ Heading.tyWords
  | _ => True

namespace Heading

open Text.Takes (expect)

/-- No word goes on with the text. -/
abbrev EndsWord : List Char → Prop := Stops isIdentChar

theorem takes_name {word : String} (h : IsName word) : Takes EndsWord name word word := by
  obtain ⟨c, cs, hlist, hc, hcs⟩ := h
  refine .span (by simp [hlist]) ?_
  rw [hlist]
  exact List.forall_mem_cons.mpr ⟨Check.isIdentChar_of_isIdentStart hc, hcs⟩

theorem isName_of_isWord {word : String} (h : Name.IsWord word) : IsName word :=
  (Name.Led.self word).isName (List.forall_mem_singleton.mpr h)

theorem takes_oneOf {α : Type} {text : α → String} {choices : List α} {a : α} (hname : IsName (text a))
    (hfind : choices.find? (text · == text a) = some a) : Takes EndsWord (oneOf text choices) (text a) a :=
  (takes_name hname).last (by simp only [hfind])

/-- A dimension is read as the number that its text evaluates to. -/
theorem takes_dimension {text : String} {n : Nat} (h : Constant.evaluate text = .ok n) :
    Takes Anything dimension ("[" ++ (text ++ "]")) n := by
  obtain ⟨ts, htokens, -⟩ := exists_of_bind_ok h
  have hchars := Constant.isConstantChar_of_scan htokens
  have hne : text.toList ≠ [] := by
    intro hnil
    have hempty : text = "" := String.toList_injective hnil
    subst hempty
    cases h
  have htext : Takes (Stops (· != ']')) (Reader.span (· != ']')) text text := by
    refine .span hne fun c hc => bne_iff_ne.mpr ?_
    rintro rfl
    exact absurd (hchars _ hc) (by decide)
  have hvalue : (match Constant.evaluate text with
      | .ok (.ofNat n) => pure n
      | _ => failure : Reader Nat) = pure n := by rw [h]
  exact (expect "[").bind (fun _ _ => trivial)
    (htext.bind (fun rest _ => stops_mark (by decide) rest) ((expect "]").last hvalue))

theorem takes_entryKind (kind : Kind) : Takes Anything entryKind (" <" ++ (kind.text ++ "> ")) kind := by
  have hkind : Takes EndsWord (oneOf Kind.text [.int, .float]) kind.text kind := by
    cases kind with
    | int => exact takes_oneOf (isName_of_isWord (by decide)) rfl
    | float => exact takes_oneOf (isName_of_isWord (by decide)) rfl
  exact (expect " <").bind (fun _ _ => trivial)
    (hkind.bind (fun rest _ => stops_mark (by decide) rest) ((expect "> ").last rfl))

/-- The dimension of a legible type is read off its spelling. -/
theorem takes_spelled {c : ConstExpr} {n : Nat} (h : c.Denotes .sum (signed64 n)) (hn : Fits64 n) :
    Takes Anything dimension ("[" ++ (c.text ++ "]")) n := by
  rw [signed64_of_fits hn] at h
  exact takes_dimension (Constant.evaluate_text h)

theorem takes_plain {ty : Ty} (htensor : ty.isTensor = false) (hty : ty.Legible) :
    Takes EndsWord Heading.ty ty.text ty := by
  have hword {word : String} {ty : Ty} (hname : IsName word) (hvector : word ≠ "vector") (hmatrix : word ≠ "matrix")
      (hfind : (plainTys.find? (·.text == word)).getD (.record word) = ty) : Takes EndsWord Heading.ty word ty :=
    (takes_name hname).last (by rw [tyAfter, if_neg hvector, if_neg hmatrix, hfind])
  cases ty with
  | vector | matrix => cases htensor
  | record id =>
    obtain ⟨hname, hwords⟩ := hty
    have hne {word : String} (hword : word ∈ tyWords) : id ≠ word := fun heq => hwords (heq ▸ hword)
    refine hword hname (hne (by decide)) (hne (by decide)) ?_
    have hfind : plainTys.find? (·.text == id) = none := List.find?_eq_none.mpr fun ty hty heq =>
      hne (List.mem_cons_of_mem _ (List.mem_cons_of_mem _ (List.mem_map_of_mem hty))) (beq_iff_eq.mp heq).symm
    exact congrArg (·.getD (.record id)) hfind
  | bool => exact hword (isName_of_isWord (by decide)) (by decide) (by decide) rfl
  | int => exact hword (isName_of_isWord (by decide)) (by decide) (by decide) rfl
  | float => exact hword (isName_of_isWord (by decide)) (by decide) (by decide) rfl
  | string => exact hword (isName_of_isWord (by decide)) (by decide) (by decide) rfl
  | void => exact hword (isName_of_isWord (by decide)) (by decide) (by decide) rfl

/-- The type of a declaration is read off its spelling. -/
theorem takes_ty {spelled : SpelledTy} {ty : Ty} (h : spelled.Spells ty) (hty : ty.Legible) :
    Takes EndsWord Heading.ty spelled.text ty := by
  cases h with
  | plain htensor => exact takes_plain htensor hty
  | @vector kind c length hc =>
    have htext : SpelledTy.text (.vector kind c) =
        "vector" ++ ((" <" ++ (kind.text ++ "> ")) ++ ("[" ++ (c.text ++ "]"))) := by
      show "vector" ++ " <" ++ kind.text ++ ("> " ++ "[") ++ c.text ++ "]" = _
      simp only [String.append_assoc]
    rw [htext]
    refine (takes_name (isName_of_isWord (by decide))).bind (fun rest _ => ?_) ?_
    · rw [String.append_assoc]
      exact stops_mark_append (by decide) _ rest
    · exact (takes_entryKind kind).bind (fun _ _ => trivial) ((takes_spelled hc hty).anywhere.last rfl)
  | @matrix kind c d rows cols hc hd =>
    have htext : SpelledTy.text (.matrix kind c d) = "matrix" ++
        ((" <" ++ (kind.text ++ "> ")) ++ (("[" ++ (c.text ++ "]")) ++ ("[" ++ (d.text ++ "]")))) := by
      show "matrix" ++ " <" ++ kind.text ++ ("> " ++ "[") ++ c.text ++ ("]" ++ "[") ++ d.text ++ "]" = _
      simp only [String.append_assoc]
    rw [htext]
    refine (takes_name (isName_of_isWord (by decide))).bind (fun rest _ => ?_) ?_
    · rw [String.append_assoc]
      exact stops_mark_append (by decide) _ rest
    · exact (takes_entryKind kind).bind (fun _ _ => trivial) ((takes_spelled hc hty.1).bind (fun _ _ => trivial)
        ((takes_spelled hd hty.2).anywhere.last rfl))

/-! ## Declarations -/

variable {spelled : SpelledTy} {ty : Ty} {word : String}

theorem takes_typed (h : spelled.Spells ty) (hty : ty.Legible) (hname : IsName word) (kind : BindingKind) :
    Takes EndsWord (typed kind) (spelled.text ++ (" " ++ word)) ⟨kind, word, ty, []⟩ :=
  (takes_ty h hty).bind (fun rest _ => stops_mark_append (by decide) word rest)
    ((expect " ").bind (fun _ _ => trivial) ((takes_name hname).last rfl))

theorem takes_bound (h : spelled.Spells ty) (hty : ty.Legible) (hname : IsName word) (isVariable : Bool) :
    Takes EndsWord bound (declarationWord isVariable ++ (" " ++ (spelled.text ++ (" " ++ word))))
      ⟨if isVariable then .variable else .value, word, ty, []⟩ := by
  have hkeyword : Takes EndsWord (oneOf declarationWord [true, false]) (declarationWord isVariable) isVariable := by
    cases isVariable <;> exact takes_oneOf (isName_of_isWord (by decide)) rfl
  exact hkeyword.bind (fun rest _ => stops_mark_append (by decide) _ rest)
    ((expect " ").bind (fun _ _ => trivial) (takes_typed h hty hname _))

theorem takes_declaration (h : spelled.Spells ty) (hty : ty.Legible) (hname : IsName word) (isVariable : Bool) :
    Takes Anything declaration
      (declarationWord isVariable ++ (" " ++ (spelled.text ++ (" " ++ word))) ++ if isVariable then " ;" else " = ")
      ⟨if isVariable then .variable else .value, word, ty, []⟩ := by
  refine (takes_bound h hty hname isVariable).bind (fun rest _ => ?_) ?_
  · cases isVariable <;> exact stops_mark (by decide) rest
  · cases isVariable
    · exact (expect " = ").last rfl
    · exact (expect " ;").last rfl

theorem read_declareValue (h : spelled.Spells ty) (hty : ty.Legible) (hname : IsName word) (init : Expr) :
    declaration.read (Stmt.declareValue spelled word init).text = some ⟨.value, word, ty, []⟩ :=
  (takes_declaration h hty hname false).read_eq (init.text ++ " ;") (by
    show declarationWord false ++ " " ++ spelled.text ++ " " ++ word ++ " = " ++ init.text ++ " ;" = _
    simp only [String.append_assoc, Bool.false_eq_true, if_false])

theorem read_declareVariable (h : spelled.Spells ty) (hty : ty.Legible) (hname : IsName word) :
    declaration.read (Stmt.declareVariable spelled word).text = some ⟨.variable, word, ty, []⟩ :=
  (takes_declaration h hty hname true).read_eq "" (by
    show declarationWord true ++ " " ++ spelled.text ++ " " ++ word ++ " ;" = _
    simp only [String.append_assoc, String.append_empty, if_true])

theorem read_foreach (h : spelled.Spells ty) (hty : ty.Legible) (hname : IsName word) (isVariable : Bool)
    (collection : Expr) (body : Stmt) :
    loop.read (Stmt.foreach isVariable spelled word collection body).text =
      some ⟨if isVariable then .variable else .value, word, ty, []⟩ := by
  have hloop : Takes Anything loop _ _ := (expect "foreach(").bind (fun _ _ => trivial)
    ((takes_bound h hty hname isVariable).bind (fun rest _ => stops_mark (by decide) rest) ((expect " : ").last rfl))
  refine hloop.read_eq (collection.text ++ (") " ++ body.text)) ?_
  show "foreach(" ++ declarationWord isVariable ++ " " ++ spelled.text ++ " " ++ word ++ " : " ++ collection.text ++
    ") " ++ body.text = _
  simp only [String.append_assoc]

theorem takes_field {decl : FieldDecl} {field : Field} (h : decl.Declares field) (hty : field.ty.Legible)
    (hname : IsName field.name) : Takes Anything Heading.field decl.text field := by
  have htext : decl.text =
      declarationWord field.isMutable ++ (" " ++ (decl.ty.text ++ (" " ++ field.name))) ++ " ;" := by
    rw [FieldDecl.text, h.name, h.isMutable]
    simp only [String.append_assoc]
  have hfield : (⟨field.ty, field.name,
      (if field.isMutable then BindingKind.variable else .value) = .variable⟩ : Field) = field := by
    obtain ⟨_, _, isMutable⟩ := field
    cases isMutable <;> rfl
  rw [htext]
  exact (takes_bound h.ty hty hname field.isMutable).bind (fun rest _ => stops_mark (by decide) rest)
    ((expect " ;").last (congrArg _ hfield))

/-- A function is read back as its entry and its parameters, in order. -/
theorem read_function {f : Function} {parts : List (Parameter × Ty)} (h : f.ty.Spells ty) (hty : ty.Legible)
    (hname : IsName f.name) (hparams : f.params = parts.map (·.1))
    (hparts : ∀ part ∈ parts, part.1.ty.Spells part.2 ∧ part.2.Legible ∧ IsName part.1.name) :
    function.read f.text = some (⟨.function, f.name, ty, parts.map (·.2)⟩,
      parts.map fun part => ⟨.variable, part.1.name, part.2, []⟩) := by
  have htyped (part : Parameter × Ty) (hpart : part ∈ parts) : Takes EndsWord (typed .variable)
      (part.1.ty.text ++ (" " ++ part.1.name)) ⟨.variable, part.1.name, part.2, []⟩ := by
    obtain ⟨hspells, hlegible, hparam⟩ := hparts part hpart
    exact takes_typed hspells hlegible hparam .variable
  have hseparated : Takes Anything (Reader.separated (typed .variable) ", " ")") _ _ :=
    .separated htyped (by decide) (stops_mark (by decide)) (stops_mark (by decide)) (fun _ => rfl) fun _ => rfl
  have hfunction : Takes Anything function _ _ := (expect "function ").bind (fun _ _ => trivial)
    ((takes_typed h hty hname .function).bind (fun rest _ => stops_mark_append (by decide) _ rest)
      ((expect "(").bind (fun _ _ => trivial)
        (hseparated.bind (fun _ _ => trivial) ((expect " \x7b ").last rfl))))
  let body := spaced (Stmt.texts f.body ++ (f.result.map returnText).toList) ++ " \x7d "
  refine (hfunction.read_eq body ?_).trans ?_
  · show "function " ++ f.ty.text ++ " " ++ f.name ++ "(" ++ ", ".intercalate (f.params.map (·.text)) ++
      (")" ++ " \x7b ") ++ spaced (Stmt.texts f.body ++ (f.result.map returnText).toList) ++ " \x7d " = _
    rw [hparams, List.map_map]
    simp only [Function.comp_def, Parameter.text, String.append_assoc, body]
  · rw [List.map_map]
    rfl

/-- A record is read back as its shape. -/
theorem read_record {id : String} {parts : List (Field × FieldDecl)} (hid : IsName id)
    (hparts : ∀ part ∈ parts, part.2.Declares part.1 ∧ part.1.ty.Legible ∧ IsName part.1.name) :
    record.read (Item.record id (parts.map (·.2))).text = some ⟨id, parts.map (·.1)⟩ := by
  have hfields (part : Field × FieldDecl) (hpart : part ∈ parts) : Takes Anything field part.2.text part.1 := by
    obtain ⟨hdeclares, hlegible, hname⟩ := hparts part hpart
    exact takes_field hdeclares hlegible hname
  have hseparated : Takes Anything (Reader.separated field " " " \x7d ") _ _ :=
    .separated hfields (by decide) (fun _ => trivial) (fun _ => trivial) (fun _ => rfl) fun _ => rfl
  have hrecord : Takes Anything record _ _ := (expect "record ").bind (fun _ _ => trivial)
    ((takes_name hid).bind (fun rest _ => stops_mark_append (by decide) _ rest)
      ((expect " \x7b ").bind (fun _ _ => trivial) (hseparated.last rfl)))
  refine hrecord.read_eq "" ?_
  rw [Item.text, spaced, List.map_map, String.append_empty]
  simp only [Function.comp_def, String.append_assoc]

end Heading

end TensorFuzz
