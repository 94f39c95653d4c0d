import TensorFuzz.Proofs.Expr.Drawn
import TensorFuzz.Proofs.Stmt.Generation

/-!
# What statements do to the frames

From every state, also one that no run leads to: a statement leaves the registry, the statement level and all frames
but the innermost, and declares one new name in that frame at most. Each body opens a frame and closes the same frame
again, however deep statements are nested in it.
-/

namespace TensorFuzz

open Gen

variable {σ : Type}

/-- The scope after one declaration at most, of a name that is new in the innermost frame. -/
def Scope.GrowsTo (scope scope' : Scope) : Prop :=
  scope' = scope ∨ ∃ b, b.name ∉ scope.currentNames ∧ scope' = scope.define b

theorem Scope.GrowsTo.outer {scope scope' : Scope} (h : scope.GrowsTo scope') : scope'.outer = scope.outer := by
  rcases h with rfl | ⟨b, -, rfl⟩
  · rfl
  · rfl

/-- Blocks go back to where they began, whatever the state is. -/
theorem Engine.framing : Framing .none (fun _ => True) fun _ : Engine σ => True where
  room hsafe _ := hsafe.elim
  agrees _ _ := trivial
  opened _ _ := trivial
  closed _ _ := trivial

variable [RandomSource σ]

namespace Stmt

variable {p : Profile} {e₀ : Engine σ} {deeper : Gen σ Stmt}

/-- The computation declares one new name at most, in the innermost frame. -/
abbrev Grows (e₀ : Engine σ) (g : Gen σ Stmt) : Prop :=
  Threads .none (fun _ => True) e₀ g fun _ scope => e₀.scope.GrowsTo scope

/-- A declaration of a name that was drawn for the innermost frame. -/
theorem declares_grows {b : Binding} (hfree : b.name ∉ e₀.scope.currentNames) (stmt : Stmt) :
    Grows e₀ (do modifyScope (·.define b); return stmt) :=
  Engine.framing.declare trivial fun _ _ _ _ hscope => Engine.framing.pure trivial (.inr ⟨b, hfree, hscope⟩)

theorem drawValueOf_grows (ty : Ty) : Grows e₀ (drawValueOf p ty) := by
  refine Engine.framing.quietly trivial (Expr.generate_quiet ty) fun init _ => ?_
  refine Engine.framing.quietly trivial (Keeps.freeName ty) fun name hname => ?_
  refine Engine.framing.quietly trivial (Keeps.spell p ty) fun spelled _ => ?_
  exact declares_grows hname.1 _

theorem drawVariable_grows : Grows e₀ (drawVariable p) := by
  refine Engine.framing.quietly trivial (Keeps.ty p true) fun ty _ => ?_
  refine Engine.framing.quietly trivial (Keeps.freeName ty) fun name hname => ?_
  refine Engine.framing.quietly trivial (Keeps.spell p ty) fun spelled _ => ?_
  exact declares_grows hname.1 _

/-! ## Assignments and calls -/

theorem drawProjection_quiet (name : String) (ty : Ty) : Keeps .none e₀ (drawProjection p name ty) fun _ => True := by
  have hint : Keeps .none e₀ (Expr.generate p .int) _ := Expr.generate_quiet .int
  have hentry : Keeps .none e₀ (Expr.generate p ty.elementTy) _ := Expr.generate_quiet ty.elementTy
  unfold drawProjection
  cases ty with
  | record id =>
    refine (Keeps.chance _).bind fun _ _ => .ite (fun _ => ?_) fun _ => .pure trivial
    refine Keeps.look fun e _ => (Keeps.anyDraw _).bind fun found _ => ?_
    cases found with
    | none => exact .pure trivial
    | some field => exact (Expr.generate_quiet field.ty).bind fun _ _ => .pure trivial
  | vector kind length =>
    refine (Keeps.chance _).bind fun _ _ => .ite (fun _ => ?_) fun _ => .pure trivial
    exact hint.bind fun _ _ => hentry.bind fun _ _ => .pure trivial
  | matrix kind rows cols =>
    refine (Keeps.chance _).bind fun _ _ => .ite (fun _ => ?_) fun _ => .pure trivial
    exact hint.bind fun _ _ => hint.bind fun _ _ => hentry.bind fun _ _ => .pure trivial
  | _ => exact .pure trivial

theorem drawAssignment_quiet (name : String) (ty : Ty) (projections : Bool) :
    Keeps .none e₀ (drawAssignment p name ty projections) fun _ => True := by
  have hplain : Keeps .none e₀ (do return ⟨.variable name, ← Expr.generate p ty⟩ : Gen σ Assignment) fun _ => True :=
    (Expr.generate_quiet ty).bind fun _ _ => .pure trivial
  refine .ite (fun _ => (drawProjection_quiet name ty).bind fun found _ => ?_) fun _ => hplain
  cases found with
  | none => exact hplain
  | some a => exact .pure trivial

/-- What declares nothing may end a statement. -/
theorem grows_of_quiet {α : Type} {g : Gen σ α} {P : α → Prop} (h : Keeps .none e₀ g P)
    (stmt : α → Stmt) : Grows e₀ (do return stmt (← g)) :=
  Engine.framing.quietly trivial h fun _ _ => Engine.framing.pure trivial (.inl rfl)

theorem drawAssignOrCall_grows : Grows e₀ (drawAssignOrCall p) := by
  refine .look fun e he => Engine.framing.quietly trivial (Keeps.pick? _) fun found _ => ?_
  cases found with
  | none => exact Engine.framing.quietly trivial Keeps.report fun _ _ => drawVariable_grows
  | some b =>
    refine .ite (fun _ => ?_) fun _ => grows_of_quiet (drawAssignment_quiet b.name b.ty true) _
    refine Engine.framing.quietly trivial (Expr.callAt_quiet 0 b.name b.params) fun x hx => ?_
    obtain ⟨args, rfl, -⟩ := hx
    exact Engine.framing.pure trivial (.inl rfl)

/-! ## Statements with bodies -/

/-- A generator of statements declares one new name at most, wherever it is called. -/
abbrev GrowsAnywhere (g : Gen σ Stmt) : Prop := ∀ e : Engine σ, Grows e g

theorem times_outer {g : Gen σ Stmt} (h : GrowsAnywhere g) (n : Nat) :
    Threads .none (fun _ => True) e₀ (times g n) fun _ scope => scope.outer = e₀.scope.outer := by
  induction n generalizing e₀ with
  | zero => exact Engine.framing.pure trivial rfl
  | succ n ih =>
    refine (h e₀).bind fun stmt e₁ h₁ _ _ hgrows => ?_
    refine ih.bind fun stmts e₂ h₂ _ _ houter => Engine.framing.pure trivial ?_
    rw [houter, hgrows.outer]

section
variable (h : GrowsAnywhere deeper)
include h

/-- A body leaves the scope. -/
theorem body_restores : Threads .none (fun _ => True) e₀ (nested deeper) fun _ scope => scope = e₀.scope ∧ True := by
  refine (Engine.framing.nested trivial trivial (h e₀.opened) fun _ _ hgrows => hgrows.outer).mono ?_
  exact fun _ _ hscope => ⟨hscope.1, trivial⟩

theorem drawConditional_grows : Grows e₀ (drawConditional p deeper) := by
  refine Engine.framing.quietly trivial (Expr.generate_quiet .bool) fun condition _ => ?_
  refine .restored (body_restores h) fun yes _ => Engine.framing.quietly trivial (Keeps.chance _) fun _ _ => ?_
  refine .ite (fun _ => Engine.framing.pure trivial (.inl rfl)) fun _ => ?_
  exact .restored (body_restores h) fun no _ => Engine.framing.pure trivial (.inl rfl)

theorem drawBlock_grows : Grows e₀ (drawBlock p deeper) := by
  have hbody : Threads .none (fun _ => True) e₀.opened (do times deeper (← countIn p.blockBody)) fun _ scope =>
      scope.outer = e₀.scope.descend.outer :=
    Engine.framing.quietly trivial (Keeps.countIn _) fun n _ => times_outer h n
  have hblock := Engine.framing.nested trivial trivial hbody fun _ _ houter => houter
  exact .restored (P := fun _ => True) (hblock.mono fun _ _ hscope => ⟨hscope.1, trivial⟩) fun _ _ =>
    Engine.framing.pure trivial (.inl rfl)

theorem drawCases_restore (labels : List SwitchLabel) :
    Threads .none (fun _ => True) e₀ (labels.mapM (drawCase p deeper)) fun _ scope => scope = e₀.scope ∧ True := by
  have hcase (label : SwitchLabel) :
      Threads .none (fun _ => True) e₀ (drawCase p deeper label) fun _ scope => scope = e₀.scope ∧ True := by
    have hspelled : Keeps .none e₀ (spellLabel p label : Gen σ CaseLabel) fun _ => True := by
      cases label with
      | default => exact .pure trivial
      | case v => exact (Keeps.anyDraw _).bind fun _ _ => .pure trivial
    refine Engine.framing.quietly trivial hspelled fun spelled _ => ?_
    exact .restored (body_restores h) fun body _ => Engine.framing.pure trivial ⟨rfl, trivial⟩
  induction labels with
  | nil =>
    rw [List.mapM_nil]
    exact Engine.framing.pure trivial ⟨rfl, trivial⟩
  | cons label labels ih =>
    rw [List.mapM_cons]
    exact .restored (hcase label) fun _ _ => .restored ih fun _ _ => Engine.framing.pure trivial ⟨rfl, trivial⟩

theorem drawSwitch_grows : Grows e₀ (drawSwitch p deeper) := by
  refine Engine.framing.quietly trivial (Expr.generate_quiet .int) fun scrutinee _ => ?_
  refine Engine.framing.quietly trivial (drawSwitchLabels_keeps p) fun labels _ => ?_
  exact .restored (drawCases_restore h labels) fun _ _ => Engine.framing.pure trivial (.inl rfl)

theorem drawLoop_grows : Grows e₀ (drawLoop p deeper) := by
  refine .look fun e _ => Engine.framing.quietly trivial (Keeps.pick? _) fun counter _ => ?_
  refine .look fun e' _ => Engine.framing.quietly trivial (Keeps.pick? _) fun update _ => ?_
  have hfallback : Grows e₀ (do report .noLoopVariable; drawVariable p) :=
    Engine.framing.quietly trivial Keeps.report fun _ _ => drawVariable_grows
  cases counter with
  | none => exact hfallback
  | some counter =>
    cases update with
    | none => exact hfallback
    | some update =>
      refine Engine.framing.quietly trivial (drawAssignment_quiet counter.name counter.ty false) fun init _ => ?_
      refine Engine.framing.quietly trivial (Expr.generate_quiet .bool) fun condition _ => ?_
      refine Engine.framing.quietly trivial (drawAssignment_quiet update.name update.ty false) fun step _ => ?_
      exact .restored (body_restores h) fun body _ => Engine.framing.pure trivial (.inl rfl)

omit h in
theorem drawIteration_quiet (existing : Option Binding) :
    Keeps .none e₀ (drawIteration p existing) fun _ => True := by
  have hnew : Keeps .none e₀
      (do
        let ty ← tensorTy p (.ratio 7 10)
        let collection ← Expr.generate p ty
        return (⟨false, ty.elementTy, collection⟩ : Iteration)) fun _ => True :=
    (Keeps.tensorTy p _ .empty).bind fun ty _ => (Expr.generate_quiet ty).bind fun _ _ => .pure trivial
  cases existing with
  | none => exact hnew
  | some b =>
    refine (Keeps.chance _).bind fun _ _ => .ite (fun _ => ?_) fun _ => hnew
    exact .ite (fun _ => (Keeps.chance _).bind fun _ _ => .pure trivial) fun _ => .pure trivial

/-- The name of a loop is declared in the frame of its body, which is closed again. -/
theorem drawForeach_grows : Grows e₀ (drawForeach p deeper) := by
  refine .look fun e _ => Engine.framing.quietly trivial (Keeps.pick? _) fun existing _ => ?_
  refine .mono (Engine.framing.nested trivial trivial (R := fun _ scope => scope.outer = e₀.scope.descend.outer) ?_
    fun _ _ houter => houter) fun _ _ hscope => .inl hscope.1
  refine Engine.framing.quietly trivial (drawIteration_quiet existing) fun it _ => ?_
  refine Engine.framing.quietly trivial (Keeps.freeName it.entryTy) fun name _ => ?_
  refine Engine.framing.quietly trivial (Keeps.spell p it.entryTy) fun spelled _ => ?_
  show Threads .none (fun _ => True) e₀.opened (defineEntry it.isVariable name it.entryTy >>= _) _
  rw [defineEntry_eq]
  refine Engine.framing.declare trivial fun e₁ h₁ _ _ hscope => ?_
  refine (h e₁).bind fun body e₂ h₂ _ _ hgrows => Engine.framing.pure trivial ?_
  rw [hgrows.outer, hscope]
  rfl

/-- Each kind declares one new name at most if the statements in its bodies do. -/
theorem ofKind_grows (kind : StmtKind) : Grows e₀ (ofKind p deeper kind) := by
  cases kind with
  | value => exact Engine.framing.quietly trivial (Keeps.ty p true) fun ty _ => drawValueOf_grows ty
  | «variable» => exact drawVariable_grows
  | conditional => exact drawConditional_grows h
  | block => exact drawBlock_grows h
  | assignOrCall => exact drawAssignOrCall_grows
  | switch => exact drawSwitch_grows h
  | loop => exact drawLoop_grows h
  | foreach => exact drawForeach_grows h

end

/-! ## The kinds tied together -/

theorem withLevels_grows (levels : Nat) : GrowsAnywhere (withLevels p levels : Gen σ Stmt) := by
  induction levels with
  | zero =>
    intro e
    refine Engine.framing.quietly trivial (Keeps.drawKind false) fun kind _ => ?_
    exact ofKind_grows (fun e => drawVariable_grows) kind
  | succ levels ih =>
    intro e
    exact Engine.framing.quietly trivial (Keeps.drawKind true) fun kind _ => ofKind_grows ih kind

theorem generate_grows : GrowsAnywhere (generate p : Gen σ Stmt) := fun _ =>
  .look fun _ _ => withLevels_grows _ _

theorem several_outer (range : Range) :
    Threads .none (fun _ => True) e₀ (several p range) fun _ scope => scope.outer = e₀.scope.outer :=
  Engine.framing.quietly trivial (Keeps.countIn range) fun n _ => times_outer generate_grows n

end Stmt

end TensorFuzz
