import TensorFuzz.Proofs.Expr.Ending
import TensorFuzz.Proofs.Stmt.Generation

/-!
# Statements end

Each body goes down one statement level, and at the last level only kinds without a body are drawn. So generating a
statement ends whatever is drawn.
-/

namespace TensorFuzz.Stmt

open Gen

variable {σ : Type} [RandomSource σ] (p : Profile)

/-! ## Declarations and assignments -/

theorem drawValueOf_ends (ty : Ty) : EndsFor p (drawValueOf p ty : Gen σ Stmt) :=
  (Expr.generate_endsFor p ty).andThen fun _ => (Ends.freeName ty).andThen fun _ => (Ends.spell p ty).andThen fun _ =>
    (Ends.modifyScope _).andThen fun _ => .pure trivial

theorem drawVariable_ends : EndsFor p (drawVariable p : Gen σ Stmt) :=
  (Ends.ty p true).andThen fun ty => (Ends.freeName ty).andThen fun _ => (Ends.spell p ty).andThen fun _ =>
    (Ends.modifyScope _).andThen fun _ => .pure trivial

theorem drawProjection_ends (name : String) (ty : Ty) :
    EndsFor p (drawProjection p name ty : Gen σ (Option Assignment)) := by
  unfold drawProjection
  cases ty with
  | record id =>
    refine (Ends.chance _).andThen fun _ => .ite (fun _ => ?_) fun _ => .pure trivial
    refine Ends.look fun e _ => (Ends.draw (Draw.pick?_yields _)).andThen fun found => ?_
    cases found with
    | none => exact .pure trivial
    | some field => exact (Expr.generate_endsFor p field.ty).andThen fun _ => .pure trivial
  | vector kind length =>
    refine (Ends.chance _).andThen fun _ => .ite (fun _ => ?_) fun _ => .pure trivial
    exact (Expr.generate_endsFor p _).andThen fun _ => (Expr.generate_endsFor p _).andThen fun _ => .pure trivial
  | matrix kind rows cols =>
    refine (Ends.chance _).andThen fun _ => .ite (fun _ => ?_) fun _ => .pure trivial
    exact (Expr.generate_endsFor p _).andThen fun _ => (Expr.generate_endsFor p _).andThen fun _ =>
      (Expr.generate_endsFor p _).andThen fun _ => .pure trivial
  | _ => exact .pure trivial

theorem drawAssignment_ends (name : String) (ty : Ty) (projections : Bool) :
    EndsFor p (drawAssignment p name ty projections : Gen σ Assignment) := by
  have hplain : EndsFor p (do return ⟨.variable name, ← Expr.generate p ty⟩ : Gen σ Assignment) :=
    (Expr.generate_endsFor p ty).andThen fun _ => .pure trivial
  refine .ite (fun _ => (drawProjection_ends p name ty).andThen fun found => ?_) fun _ => hplain
  cases found with
  | none => exact hplain
  | some a => exact .pure trivial

theorem drawAssignOrCall_ends : EndsFor p (drawAssignOrCall p : Gen σ Stmt) := by
  refine Ends.look fun e _ => (Ends.pick? _).andThen fun found => ?_
  cases found with
  | none => exact (Ends.report _).andThen fun _ => drawVariable_ends p
  | some b =>
    refine .ite (fun _ => (Expr.callAt_endsFor p _ _).andThen fun x => ?_) fun _ => ?_
    · split <;> exact .pure trivial
    · exact (drawAssignment_ends p _ _ true).andThen fun _ => .pure trivial

/-! ## Statements with bodies -/

section
variable {deeper : Gen σ Stmt} (h : EndsFor p deeper)
include h

theorem drawConditional_ends : EndsFor p (drawConditional p deeper) :=
  (Expr.generate_endsFor p .bool).andThen fun _ => (Ends.nested h).andThen fun _ => (Ends.chance _).andThen fun _ =>
    .ite (fun _ => .pure trivial) fun _ => (Ends.nested h).andThen fun _ => .pure trivial

theorem drawBlock_ends : EndsFor p (drawBlock p deeper) := by
  have hbody : EndsFor p (do times deeper (← countIn p.blockBody)) :=
    (Ends.countIn _).andThen fun n => (h.times n).mono fun _ _ => trivial
  exact (Ends.nested hbody).andThen fun _ => .pure trivial

theorem drawCase_ends {label : SwitchLabel} (hlabel : ∀ v, label = .case v → Fits64 v) :
    EndsFor p (drawCase p deeper label) := by
  have hspelled : EndsFor p (spellLabel p label : Gen σ CaseLabel) := by
    cases label with
    | default => exact .pure trivial
    | case v => exact (Ends.constant p (hlabel v rfl)).andThen fun _ => .pure trivial
  exact hspelled.andThen fun _ => (Ends.nested h).andThen fun _ => .pure trivial

theorem drawSwitch_ends : EndsFor p (drawSwitch p deeper) := by
  refine (Expr.generate_endsFor p .int).andThen fun _ => ?_
  refine (Ends.of_keeps fun _ => drawSwitchLabels_keeps p).bind fun labels hlabels => ?_
  exact (Ends.mapM fun label hlabel => drawCase_ends p h (hlabels label hlabel)).andThen fun _ => .pure trivial

theorem drawLoop_ends : EndsFor p (drawLoop p deeper) := by
  refine Ends.look fun e _ => (Ends.pick? _).andThen fun counter => ?_
  refine Ends.look fun e' _ => (Ends.pick? _).andThen fun update => ?_
  have hfallback : EndsFor p (do report .noLoopVariable; drawVariable p : Gen σ Stmt) :=
    (Ends.report _).andThen fun _ => drawVariable_ends p
  cases counter with
  | none => exact hfallback
  | some counter =>
    cases update with
    | none => exact hfallback
    | some update =>
      exact (drawAssignment_ends p _ _ false).andThen fun _ => (Expr.generate_endsFor p .bool).andThen fun _ =>
        (drawAssignment_ends p _ _ false).andThen fun _ => (Ends.nested h).andThen fun _ => .pure trivial

omit h in
theorem drawIteration_ends (existing : Option Binding) : EndsFor p (drawIteration p existing : Gen σ Iteration) := by
  have hnew : EndsFor p
      (do
        let ty ← tensorTy p (.ratio 7 10)
        let collection ← Expr.generate p ty
        return ⟨false, ty.elementTy, collection⟩ : Gen σ Iteration) :=
    (Ends.tensorTy p _).andThen fun ty => (Expr.generate_endsFor p ty).andThen fun _ => .pure trivial
  cases existing with
  | none => exact hnew
  | some b =>
    refine (Ends.chance _).andThen fun _ => .ite (fun _ => ?_) fun _ => hnew
    exact .ite (fun _ => (Ends.chance _).andThen fun _ => .pure trivial) fun _ => .pure trivial

theorem drawForeach_ends : EndsFor p (drawForeach p deeper) := by
  refine Ends.look fun e _ => (Ends.pick? _).andThen fun existing => .nested ?_
  refine (drawIteration_ends p existing).andThen fun it => ?_
  exact (Ends.freeName _).andThen fun _ => (Ends.spell p _).andThen fun _ => (Ends.modifyScope _).andThen fun _ =>
    h.andThen fun _ => .pure trivial

/-- Each kind ends if the bodies do. -/
theorem ofKind_ends (kind : StmtKind) : EndsFor p (ofKind p deeper kind) := by
  cases kind with
  | value => exact (Ends.ty p true).andThen fun ty => drawValueOf_ends p ty
  | «variable» => exact drawVariable_ends p
  | conditional => exact drawConditional_ends p h
  | block => exact drawBlock_ends p h
  | assignOrCall => exact drawAssignOrCall_ends p
  | switch => exact drawSwitch_ends p h
  | loop => exact drawLoop_ends p h
  | foreach => exact drawForeach_ends p h

end

/-! ## The kinds tied together -/

theorem withLevels_ends (levels : Nat) : EndsFor p (withLevels p levels : Gen σ Stmt) := by
  have hkind (canNest : Bool) : EndsFor p (drawKind canNest : Gen σ StmtKind) _ := .of_keeps fun _ => .drawKind canNest
  induction levels with
  | zero => exact (hkind false).andThen fun kind => ofKind_ends p (drawVariable_ends p) kind
  | succ levels ih => exact (hkind true).andThen fun kind => ofKind_ends p ih kind

theorem generate_ends : EndsFor p (generate p : Gen σ Stmt) := Ends.look fun _ _ => withLevels_ends p _

theorem several_ends (range : Range) : EndsFor p (several p range : Gen σ (List Stmt)) :=
  (Ends.countIn range).andThen fun n => ((generate_ends p).times n).mono fun _ _ => trivial

end TensorFuzz.Stmt
