import TensorFuzz.Proofs.Module.Typing
import TensorFuzz.Proofs.Expr.Checking

/-!
# What modules contain

The expressions and the declared types of statements and of items, at any depth of statements. Every expression of a
typed statement stands where the typing asks for it, so what holds of all expressions that are asked for holds of all
that a module contains.
-/

namespace TensorFuzz

/-! ## Statements -/

def Target.expressions : Target → List Expr
  | .variable _ | .field .. => []
  | .entry _ index => [index]
  | .cell _ row col => [row, col]

def Assignment.expressions (a : Assignment) : List Expr := a.target.expressions ++ [a.value]

namespace Stmt

mutual

/-- The expressions of a statement that are not parts of others. -/
def expressions : Stmt → List Expr
  | declareValue _ _ init => [init]
  | declareVariable .. => []
  | assign assignment => assignment.expressions
  | call _ args => args
  | conditional condition yes => condition :: yes.expressions
  | alternative condition yes no => condition :: (yes.expressions ++ no.expressions)
  | block body => bodyExpressions body
  | switch scrutinee cases => scrutinee :: caseExpressions cases
  | loop init condition step body => init.expressions ++ condition :: (step.expressions ++ body.expressions)
  | foreach _ _ _ collection body => collection :: body.expressions

def bodyExpressions : List Stmt → List Expr
  | [] => []
  | stmt :: stmts => stmt.expressions ++ bodyExpressions stmts

def caseExpressions : List Case → List Expr
  | [] => []
  | .mk _ body :: cases => body.expressions ++ caseExpressions cases

end

mutual

/-- The types that a statement declares values and variables of. -/
def declaredTypes : Stmt → List SpelledTy
  | declareValue ty _ _ | declareVariable ty _ => [ty]
  | assign _ | call .. => []
  | conditional _ yes => yes.declaredTypes
  | alternative _ yes no => yes.declaredTypes ++ no.declaredTypes
  | block body => bodyTypes body
  | switch _ cases => caseTypes cases
  | loop _ _ _ body => body.declaredTypes
  | foreach _ ty _ _ body => ty :: body.declaredTypes

def bodyTypes : List Stmt → List SpelledTy
  | [] => []
  | stmt :: stmts => stmt.declaredTypes ++ bodyTypes stmts

def caseTypes : List Case → List SpelledTy
  | [] => []
  | .mk _ body :: cases => body.declaredTypes ++ caseTypes cases

end

end Stmt

/-! ## Items -/

def Item.expressions : Item → List Expr
  | function f => Stmt.bodyExpressions f.body ++ f.result.toList
  | record .. => []

/-- The types of the declarations of an item: what a function returns, its parameters and the declarations in its
body, or the fields of a record. -/
def Item.declaredTypes : Item → List SpelledTy
  | function f => f.ty :: (f.params.map (·.ty) ++ Stmt.bodyTypes f.body)
  | record _ fields => fields.map (·.ty)

/-! ## Expressions that are asked for -/

/-- The expression is what it has to be in some scope, for some type. -/
def Holding.Somewhere (holds : Holding) (x : Expr) : Prop := ∃ scope ty, holds scope ty x

section
variable {records : Registry} {holds : Holding}

theorem Assignment.Typed.expressions {scope : Scope} {a : Assignment} (h : a.Typed records holds scope) :
    ∀ x ∈ a.expressions, holds.Somewhere x := by
  cases h with
  | «variable» _ _ hx => exact List.forall_mem_singleton.mpr ⟨_, _, hx⟩
  | field _ _ _ _ _ hx => exact List.forall_mem_singleton.mpr ⟨_, _, hx⟩
  | entry _ _ _ hindex hx =>
    exact List.forall_mem_cons.mpr ⟨⟨_, _, hindex⟩, List.forall_mem_singleton.mpr ⟨_, _, hx⟩⟩
  | cell _ _ _ hrow hcol hx =>
    exact List.forall_mem_cons.mpr ⟨⟨_, _, hrow⟩,
      List.forall_mem_cons.mpr ⟨⟨_, _, hcol⟩, List.forall_mem_singleton.mpr ⟨_, _, hx⟩⟩⟩

-- Statements hold bodies, bodies hold statements and cases hold bodies: the three are one induction.
mutual

theorem Stmt.Typed.expressions {scope scope' : Scope} {stmt : Stmt} (h : stmt.Typed records holds scope scope') :
    ∀ x ∈ stmt.expressions, holds.Somewhere x := by
  cases h with
  | declareValue _ _ hinit => exact List.forall_mem_singleton.mpr ⟨_, _, hinit⟩
  | declareVariable => exact List.forall_mem_nil _
  | assign ha => exact ha.expressions
  | call _ _ hargs => exact Check.forall_of_zip hargs.1 fun part hpart => ⟨_, _, hargs.2 part hpart⟩
  | conditional hcondition hyes => exact List.forall_mem_cons.mpr ⟨⟨_, _, hcondition⟩, hyes.expressions⟩
  | alternative hcondition hyes hno =>
    have hbranches := List.forall_mem_append.mpr ⟨hyes.expressions, hno.expressions⟩
    exact List.forall_mem_cons.mpr ⟨⟨_, _, hcondition⟩, hbranches⟩
  | block hbody => exact hbody.expressions
  | switch hscrutinee hcases => exact List.forall_mem_cons.mpr ⟨⟨_, _, hscrutinee⟩, hcases.expressions⟩
  | loop hinit hcondition hstep hbody =>
    have hrest := List.forall_mem_append.mpr ⟨hstep.expressions, hbody.expressions⟩
    exact List.forall_mem_append.mpr ⟨hinit.expressions, List.forall_mem_cons.mpr ⟨⟨_, _, hcondition⟩, hrest⟩⟩
  | foreach _ hcollection _ _ hbody => exact List.forall_mem_cons.mpr ⟨⟨_, _, hcollection⟩, hbody.expressions⟩

theorem Stmt.AllTyped.expressions {scope scope' : Scope} {stmts : List Stmt}
    (h : Stmt.AllTyped records holds scope stmts scope') : ∀ x ∈ Stmt.bodyExpressions stmts, holds.Somewhere x := by
  cases h with
  | nil => exact List.forall_mem_nil _
  | cons hstmt hstmts => exact List.forall_mem_append.mpr ⟨hstmt.expressions, hstmts.expressions⟩

theorem Stmt.CasesTyped.expressions {scope : Scope} {cases : List Case}
    (h : Stmt.CasesTyped records holds scope cases) : ∀ x ∈ Stmt.caseExpressions cases, holds.Somewhere x := by
  cases h with
  | nil => exact List.forall_mem_nil _
  | cons _ hbody hcases => exact List.forall_mem_append.mpr ⟨hbody.expressions, hcases.expressions⟩

end

end

theorem Item.AllTyped.expressions {holds : Registry → Holding} {scope scope' : Scope} {records records' : Registry}
    {items : List Item} (h : Item.AllTyped holds scope records items scope' records') :
    ∀ item ∈ items, ∀ x ∈ item.expressions, ∃ records, (holds records).Somewhere x := by
  induction h with
  | nil => exact List.forall_mem_nil _
  | cons hitem _ ih =>
    refine List.forall_mem_cons.mpr ⟨?_, ih⟩
    cases hitem with
    | function hf =>
      obtain ⟨-, -, hbody, -, hresult⟩ := hf
      refine List.forall_mem_append.mpr ⟨fun x hx => ⟨_, hbody.expressions x hx⟩, fun x hx => ?_⟩
      exact ⟨_, _, _, hresult x (Option.mem_toList.mp hx)⟩
    | record => exact List.forall_mem_nil _

end TensorFuzz
