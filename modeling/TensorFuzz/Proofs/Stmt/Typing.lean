import TensorFuzz.Stmt.Syntax
import TensorFuzz.Proofs.Engine.Valid
import TensorFuzz.Proofs.Ty.Sized

/-!
# Typing of statements

`Stmt.Typed` relates a statement to the scope before it and the scope after it. What an expression has to be to
stand where a value of a type is asked for is left open (`holds`): the judgment says which type each place asks for,
and in which scope.
-/

namespace TensorFuzz

/-- What an expression has to be, in a scope, where a value of a type is asked for. -/
abbrev Holding := Scope → Ty → Expr → Prop

/-- The arguments are values for the parameters, in order. -/
def Holding.All (holds : Holding) (scope : Scope) (args : List Expr) (tys : List Ty) : Prop :=
  args.length = tys.length ∧ ∀ part ∈ args.zip tys, holds scope part.2 part.1

section
variable (records : Registry) (holds : Holding)

/-- The assignment gives a variable, or a part of one that can be assigned to, a value of its type. -/
inductive Assignment.Typed (scope : Scope) : Assignment → Prop
  | variable {name : String} {b : Binding} {x : Expr} : scope.lookup? name = some b → b.kind = .variable →
      holds scope b.ty x → Typed scope ⟨.variable name, x⟩
  | field {name label id : String} {b : Binding} {found : Field} {x : Expr} : scope.lookup? name = some b →
      b.kind = .variable → b.ty = .record id → records.fieldNamed? id label = some found →
      found.isMutable = true → holds scope found.ty x → Typed scope ⟨.field name label, x⟩
  | entry {name : String} {b : Binding} {kind : Kind} {length : Nat} {index x : Expr} :
      scope.lookup? name = some b → b.kind = .variable → b.ty = .vector kind length → holds scope .int index →
      holds scope (.ofKind kind) x → Typed scope ⟨.entry name index, x⟩
  | cell {name : String} {b : Binding} {kind : Kind} {rows cols : Nat} {row col x : Expr} :
      scope.lookup? name = some b → b.kind = .variable → b.ty = .matrix kind rows cols → holds scope .int row →
      holds scope .int col → holds scope (.ofKind kind) x → Typed scope ⟨.cell name row col, x⟩

/-- The label is the default one, or its value is spelled out. -/
def CaseLabel.Spelled : CaseLabel → Prop
  | .case value => ∃ v, value.Denotes .sum v
  | .default => True

/-- What a loop over entries may do: its name is a variable only if the collection is one. -/
def LoopName (scope : Scope) (isVariable : Bool) (collection : Expr) : Prop :=
  isVariable = true → ∃ b, collection = .name b.name ∧ scope.lookup? b.name = some b ∧ b.kind = .variable

mutual

/-- The statement is typed in the first scope, and leaves the second one. -/
inductive Stmt.Typed : Scope → Stmt → Scope → Prop
  | declareValue {scope : Scope} {ty : Ty} {spelled : SpelledTy} {name : String} {init : Expr} : spelled.Spells ty →
      name ∉ scope.currentNames → holds scope ty init →
      Typed scope (.declareValue spelled name init) (scope.defineValue name ty)
  | declareVariable {scope : Scope} {ty : Ty} {spelled : SpelledTy} {name : String} : spelled.Spells ty →
      name ∉ scope.currentNames → Typed scope (.declareVariable spelled name) (scope.defineVariable name ty)
  | assign {scope : Scope} {assignment : Assignment} : assignment.Typed records holds scope →
      Typed scope (.assign assignment) scope
  | call {scope : Scope} {function : String} {b : Binding} {args : List Expr} : scope.lookup? function = some b →
      b.isFunction = true → holds.All scope args b.params → Typed scope (.call function args) scope
  | conditional {scope inner : Scope} {condition : Expr} {yes : Stmt} : holds scope .bool condition →
      Typed scope.descend yes inner → Typed scope (.conditional condition yes) scope
  | alternative {scope inner inner' : Scope} {condition : Expr} {yes no : Stmt} : holds scope .bool condition →
      Typed scope.descend yes inner → Typed scope.descend no inner' →
      Typed scope (.alternative condition yes no) scope
  | block {scope inner : Scope} {body : List Stmt} : AllTyped scope.descend body inner →
      Typed scope (.block body) scope
  | switch {scope : Scope} {scrutinee : Expr} {cases : List Case} : holds scope .int scrutinee →
      CasesTyped scope cases → Typed scope (.switch scrutinee cases) scope
  | loop {scope inner : Scope} {init step : Assignment} {condition : Expr} {body : Stmt} :
      init.Typed records holds scope → holds scope .bool condition → step.Typed records holds scope →
      Typed scope.descend body inner → Typed scope (.loop init condition step body) scope
  | foreach {scope inner : Scope} {isVariable : Bool} {collectionTy : Ty} {spelled : SpelledTy} {name : String}
      {collection : Expr} {body : Stmt} : collectionTy.isTensor = true →
      holds scope.descend collectionTy collection →
      LoopName scope isVariable collection → spelled.Spells collectionTy.elementTy →
      Typed (scope.descend.define ⟨if isVariable then .variable else .value, name, collectionTy.elementTy, []⟩) body
        inner →
      Typed scope (.foreach isVariable spelled name collection body) scope

/-- The statements are typed one after another. -/
inductive Stmt.AllTyped : Scope → List Stmt → Scope → Prop
  | nil (scope : Scope) : AllTyped scope [] scope
  | cons {scope scope' scope'' : Scope} {stmt : Stmt} {stmts : List Stmt} : Typed scope stmt scope' →
      AllTyped scope' stmts scope'' → AllTyped scope (stmt :: stmts) scope''

/-- The cases have labels, and their bodies are typed in frames of their own. -/
inductive Stmt.CasesTyped : Scope → List Case → Prop
  | nil (scope : Scope) : CasesTyped scope []
  | cons {scope inner : Scope} {label : CaseLabel} {body : Stmt} {cases : List Case} : label.Spelled →
      Typed scope.descend body inner → CasesTyped scope cases → CasesTyped scope (.mk label body :: cases)

end

end

/-! ## Frames -/

variable {records : Registry} {holds : Holding} {scope scope' : Scope}

/-- A statement adds to the innermost frame at most. -/
theorem Stmt.Typed.outer {stmt : Stmt} (h : stmt.Typed records holds scope scope') :
    scope'.outer = scope.outer := by
  cases h <;> rfl

theorem Stmt.AllTyped.outer : {scope : Scope} → {stmts : List Stmt} →
    Stmt.AllTyped records holds scope stmts scope' → scope'.outer = scope.outer
  | _, [], .nil _ => rfl
  | _, _ :: _, .cons h hs => hs.outer.trans h.outer

end TensorFuzz
