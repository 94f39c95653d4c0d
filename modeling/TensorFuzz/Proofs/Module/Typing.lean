import TensorFuzz.Module.Syntax
import TensorFuzz.Proofs.Stmt.Typing

/-!
# Typing of modules

Items are typed in the scope and the registry before them, and leave those after them: a function is declared before
its body is typed, and a record is registered with the fields that its declaration lists.
-/

namespace TensorFuzz

section
variable (records : Registry) (holds : Holding)

/-- The parameters are variables of the given types, declared one after another. -/
inductive Parameter.AllTyped : Scope → List Parameter → List Ty → Scope → Prop
  | nil (scope : Scope) : AllTyped scope [] [] scope
  | cons {scope scope' : Scope} {param : Parameter} {params : List Parameter} {ty : Ty} {tys : List Ty} :
      param.ty.Spells ty → param.name ∉ scope.currentNames →
      AllTyped (scope.defineVariable param.name ty) params tys scope' →
      AllTyped scope (param :: params) (ty :: tys) scope'

/-- There is a result unless the type is that of no value, and it is a value of the type. -/
def ResultTyped (scope : Scope) (ty : Ty) (result : Option Expr) : Prop :=
  (result = none ↔ ty = .void) ∧ ∀ x ∈ result, holds scope ty x

/-- The parameters, the body and the result of a function are typed in the first scope, and leave the second one. -/
inductive Function.BodyTyped (scope : Scope) (f : Function) (ty : Ty) (paramTys : List Ty) : Scope → Prop
  | intro {inner inner' : Scope} : Parameter.AllTyped scope f.params paramTys inner →
      Stmt.AllTyped records holds inner f.body inner' → ResultTyped holds inner' ty f.result →
      BodyTyped scope f ty paramTys inner'

/-- The function is typed in the first scope, and leaves the second one. It is in scope in its own body. -/
inductive Function.Typed (scope : Scope) (f : Function) : Scope → Prop
  | declare {inner : Scope} {ty : Ty} {paramTys : List Ty} : f.ty.Spells ty →
      f.BodyTyped records holds (scope.defineFunction f.name ty paramTys).descend ty paramTys inner →
      Typed scope f (scope.defineFunction f.name ty paramTys)

end

/-- The declaration says what the field is. -/
structure FieldDecl.Declares (decl : FieldDecl) (field : Field) : Prop where
  ty : decl.ty.Spells field.ty
  name : decl.name = field.name
  isMutable : decl.isMutable = field.isMutable

/-- The item is typed in the first scope and registry, and leaves the second ones. -/
inductive Item.Typed (holds : Registry → Holding) : Scope → Registry → Item → Scope → Registry → Prop
  | function {scope scope' : Scope} {records : Registry} {f : Function} :
      f.Typed records (holds records) scope scope' → Typed holds scope records (.function f) scope' records
  | record {scope : Scope} {records : Registry} {id : String} {decls : List FieldDecl} {fields : List Field} :
      id ∉ records.ids → decls.length = fields.length → (∀ part ∈ decls.zip fields, part.1.Declares part.2) →
      Typed holds scope records (.record id decls) scope ⟨records.shapes ++ [⟨id, fields⟩]⟩

/-- The items are typed one after another. -/
inductive Item.AllTyped (holds : Registry → Holding) : Scope → Registry → List Item → Scope → Registry → Prop
  | nil (scope : Scope) (records : Registry) : AllTyped holds scope records [] scope records
  | cons {scope scope' scope'' : Scope} {records records' records'' : Registry} {item : Item} {items : List Item} :
      Item.Typed holds scope records item scope' records' →
      AllTyped holds scope' records' items scope'' records'' →
      AllTyped holds scope records (item :: items) scope'' records''

theorem Parameter.AllTyped.outer {scope scope' : Scope} {params : List Parameter} {tys : List Ty}
    (h : Parameter.AllTyped scope params tys scope') : scope'.outer = scope.outer := by
  induction h with
  | nil => rfl
  | cons _ _ _ ih => exact ih

theorem Function.BodyTyped.outer {records : Registry} {holds : Holding} {scope scope' : Scope} {f : Function}
    {ty : Ty} {paramTys : List Ty} (h : f.BodyTyped records holds scope ty paramTys scope') :
    scope'.outer = scope.outer := by
  obtain ⟨hparams, hbody, -⟩ := h
  exact hbody.outer.trans hparams.outer

theorem Item.AllTyped.append {holds : Registry → Holding} {scope scope' scope'' : Scope}
    {records records' records'' : Registry} {items items' : List Item}
    (h : Item.AllTyped holds scope records items scope' records')
    (h' : Item.AllTyped holds scope' records' items' scope'' records'') :
    Item.AllTyped holds scope records (items ++ items') scope'' records'' := by
  induction h with
  | nil => exact h'
  | cons hitem _ ih => exact .cons hitem (ih h')

end TensorFuzz
