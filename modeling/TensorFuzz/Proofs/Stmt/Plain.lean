import TensorFuzz.Proofs.Expr.Plain
import TensorFuzz.Proofs.Stmt.Generation

/-!
# Plain statements

Every name that is drawn is plain, so all declared names are plain throughout a run. So every statement that is drawn
consists of plain names and plain expressions, however deep statements are nested in it.
-/

namespace TensorFuzz

open Gen

variable {σ : Type}

/-! ## Trees -/

/-- The names in what is assigned to are plain, and so are the expressions in it. -/
inductive Target.Plain : Target → Prop
  | variable {name : String} : PlainName name → Plain (.variable name)
  | field {name label : String} : PlainName name → PlainName label → Plain (.field name label)
  | entry {name : String} {index : Expr} : PlainName name → index.Plain → Plain (.entry name index)
  | cell {name : String} {row col : Expr} : PlainName name → row.Plain → col.Plain → Plain (.cell name row col)

structure Assignment.Plain (a : Assignment) : Prop where
  target : a.target.Plain
  value : a.value.Plain

/-- All names and expressions in the statement are plain. -/
inductive Stmt.Plain : Stmt → Prop
  | declareValue {ty : SpelledTy} {name : String} {init : Expr} : ty.Plain → PlainName name → init.Plain →
      Plain (.declareValue ty name init)
  | declareVariable {ty : SpelledTy} {name : String} : ty.Plain → PlainName name → Plain (.declareVariable ty name)
  | assign {a : Assignment} : a.Plain → Plain (.assign a)
  | call {function : String} {args : List Expr} : PlainName function → (∀ x ∈ args, x.Plain) →
      Plain (.call function args)
  | conditional {condition : Expr} {yes : Stmt} : condition.Plain → Plain yes → Plain (.conditional condition yes)
  | alternative {condition : Expr} {yes no : Stmt} : condition.Plain → Plain yes → Plain no →
      Plain (.alternative condition yes no)
  | block {body : List Stmt} : (∀ stmt ∈ body, Plain stmt) → Plain (.block body)
  | switch {scrutinee : Expr} {cases : List Case} : scrutinee.Plain →
      (∀ label body, .mk label body ∈ cases → Plain body) → Plain (.switch scrutinee cases)
  | loop {init step : Assignment} {condition : Expr} {body : Stmt} : init.Plain → condition.Plain → step.Plain →
      Plain body → Plain (.loop init condition step body)
  | foreach {ty : SpelledTy} {name : String} {collection : Expr} {body : Stmt} (isVariable : Bool) : ty.Plain →
      PlainName name → collection.Plain → Plain body → Plain (.foreach isVariable ty name collection body)

/-! ## States with plain names -/

/-- The bindings in all frames have plain names. -/
def Scope.Plain (scope : Scope) : Prop := ∀ frame ∈ scope.frames, ∀ b ∈ frame, b.Plain

namespace Scope.Plain

variable {scope scope' : Scope}

theorem visible (h : scope.Plain) : ∀ b ∈ scope.visible, b.Plain := fun b hb => by
  obtain ⟨frame, hframe, hmem⟩ := Scope.exists_frame_of_mem_visible hb
  exact h frame hframe b hmem

theorem define (h : scope.Plain) {b : Binding} (hb : b.Plain) : (scope.define b).Plain := by
  obtain ⟨hcurrent, houter⟩ := List.forall_mem_cons.mp h
  exact List.forall_mem_cons.mpr ⟨List.forall_mem_cons.mpr ⟨hb, hcurrent⟩, houter⟩

theorem descend (h : scope.Plain) : scope.descend.Plain := List.forall_mem_cons.mpr ⟨List.forall_mem_nil _, h⟩

theorem exit (h : scope.Plain) (hexit : scope.exit = .ok scope') : scope'.Plain := by
  rw [Scope.exit] at hexit
  split at hexit
  · cases hexit
  · next frame outer houter =>
    cases hexit
    exact fun frame' hframe' => h frame' (List.mem_cons_of_mem _ (houter ▸ hframe'))

end Scope.Plain

/-- All declared names are plain. -/
structure Engine.Plain (e : Engine σ) : Prop where
  scope : e.scope.Plain
  shapes : ∀ shape ∈ e.records.shapes, shape.Plain

theorem Engine.Plain.agrees {e e' : Engine σ} (h : e.Plain) (he : e.Agrees e') : e'.Plain :=
  ⟨he.scope ▸ h.scope, he.records ▸ h.shapes⟩

theorem Engine.start_plain (p : Profile) (supply : Supply σ) : (Engine.start p supply).Plain :=
  ⟨List.forall_mem_singleton.mpr (List.forall_mem_nil _), List.forall_mem_nil _⟩

theorem Engine.Plain.visible {e : Engine σ} (h : e.Plain) : ∀ b ∈ e.scope.visible, b.Plain := h.scope.visible

theorem Ty.Sized.plain {records : Registry} {bound : Nat} {ty : Ty} (h : ty.Sized records bound)
    (hshapes : ∀ shape ∈ records.shapes, shape.Plain) : ty.Plain ∧ ty ≠ .void := by
  cases ty with
  | void => cases h
  | record id =>
    obtain ⟨shape, hshape, rfl⟩ := List.mem_map.mp h
    exact ⟨(hshapes shape hshape).id, nofun⟩
  | _ => exact ⟨trivial, nofun⟩

/-- From every state with plain names, the computation leads to such a state again, with a result that has the
property. -/
abbrev Gen.Plainly {α : Type} (g : Gen σ α) (P : α → Prop) : Prop := Upholds Engine.Plain g P

namespace Gen.Plainly

variable {α β : Type} {g : Gen σ α} {P : α → Prop} {Q : β → Prop}

theorem nested (h : Plainly g P) : Plainly (Gen.nested g) P := by
  intro e a e' he hrun
  obtain ⟨-, e₁, hg, hclose⟩ := exists_of_run_nested hrun
  obtain ⟨-, scope, hexit, rfl⟩ := run_closeBlock_iff.mp hclose
  have hopened : e.opened.Plain := ⟨he.scope.descend, he.shapes⟩
  obtain ⟨he₁, ha⟩ := h hopened hg
  exact ⟨⟨he₁.scope.exit hexit, he₁.shapes⟩, ha⟩

theorem rescope {f : Scope → Scope} (hf : ∀ scope : Scope, scope.Plain → (f scope).Plain) {rest : Gen σ α}
    (h : Plainly rest P) : Plainly (modifyScope f >>= fun _ => rest) P := by
  have hmodify : Plainly (modifyScope f : Gen σ Unit) fun _ => True :=
    Upholds.update fun e he => ⟨hf _ he.scope, he.shapes⟩
  exact hmodify.bind fun _ _ => h

theorem declare {b : Binding} (hb : b.Plain) {rest : Gen σ α} (h : Plainly rest P) :
    Plainly (modifyScope (·.define b) >>= fun _ => rest) P := rescope (fun _ hscope => hscope.define hb) h

variable [RandomSource σ] {p : Profile}

theorem quietly (h : ∀ e : Engine σ, e.Plain → Keeps .none e g P) : Plainly g P :=
  .of_keeps (fun _ _ => Engine.Plain.agrees) h

/-- The result of what declares nothing does not matter. -/
theorem after (h : ∀ e : Engine σ, Keeps .none e g fun _ => True) {f : α → Gen σ β} (hf : ∀ a, Plainly (f a) Q) :
    Plainly (g >>= f) Q := (quietly fun e _ => h e).bind fun a _ => hf a

theorem ty (allowRecords : Bool) : Plainly (Gen.ty p allowRecords : Gen σ Ty) fun ty => ty.Plain ∧ ty ≠ .void :=
  quietly fun e he => (Keeps.ty p allowRecords).mono fun ty hty => by
    cases allowRecords with
    | true => exact hty.plain he.shapes
    | false => exact hty.plain (List.forall_mem_nil _)

theorem freeName (ty : Ty) : Plainly (Gen.freeName ty : Gen σ String) PlainName :=
  quietly fun _ _ => (Keeps.freeName ty).mono fun _ h => .of_variable h.2

theorem spell {ty : Ty} (hty : ty.Plain ∧ ty ≠ .void) :
    Plainly (Gen.spell p ty : Gen σ SpelledTy) SpelledTy.Plain :=
  quietly fun _ _ => (Keeps.spell p ty).mono fun _ h => SpelledTy.plain_of_spells h hty.1 hty.2

theorem expr {ty : Ty} (hty : ty.Plain) : Plainly (Expr.generate p ty : Gen σ Expr) Expr.Plain :=
  quietly fun _ he => (Expr.generate_drawn ty).mono fun _ h => h.plain he.visible he.shapes hty

/-- A call of a function with plain names. -/
theorem call {b : Binding} (hb : b.Plain) : Plainly (Expr.callAt p 0 b.name b.params : Gen σ Expr) fun x =>
    ∃ args, x = .call b.name args ∧ ∀ y ∈ args, y.Plain := by
  refine quietly fun e he => (Expr.callAt_drawn 0 b.name b.params).mono fun x hx => ?_
  obtain ⟨args, rfl, hlength, hargs⟩ := hx
  exact ⟨args, rfl, Check.forall_of_zip hlength fun part hpart =>
    (hargs part hpart).plain he.visible he.shapes (hb.params _ (List.of_mem_zip hpart).2)⟩

end Gen.Plainly

/-! ## Declarations -/

namespace Stmt

open Gen.Plainly (quietly after)

variable [RandomSource σ] {p : Profile}

theorem drawValueOf_plain {ty : Ty} (hty : ty.Plain ∧ ty ≠ .void) :
    Plainly (drawValueOf p ty : Gen σ Stmt) Stmt.Plain := by
  refine (Plainly.expr hty.1).bind fun init hinit => (Plainly.freeName ty).bind fun name hname => ?_
  refine (Plainly.spell hty).bind fun spelled hspelled => Plainly.declare ⟨hname, hty.1, List.forall_mem_nil _⟩ ?_
  exact .pure (.declareValue hspelled hname hinit)

theorem drawVariable_plain : Plainly (drawVariable p : Gen σ Stmt) Stmt.Plain := by
  refine (Plainly.ty true).bind fun ty hty => (Plainly.freeName ty).bind fun name hname => ?_
  refine (Plainly.spell hty).bind fun spelled hspelled => Plainly.declare ⟨hname, hty.1, List.forall_mem_nil _⟩ ?_
  exact .pure (.declareVariable hspelled hname)

/-! ## Assignments and calls -/

theorem drawProjection_plain {b : Binding} (hb : b.Plain) :
    Plainly (drawProjection p b.name b.ty : Gen σ (Option Assignment)) fun found => ∀ a ∈ found, a.Plain := by
  have hnone : Plainly (Pure.pure none : Gen σ (Option Assignment)) fun found => ∀ a ∈ found, a.Plain := .pure nofun
  have hint : Plainly (Expr.generate p .int : Gen σ Expr) Expr.Plain := .expr trivial
  have hentry : Plainly (Expr.generate p b.ty.elementTy : Gen σ Expr) Expr.Plain := .expr hb.ty.elementTy
  unfold drawProjection
  split
  · refine after (fun _ => Keeps.chance _) fun _ => .ite (fun _ => ?_) fun _ => hnone
    refine .look fun e he => (quietly fun _ _ => Keeps.draw (Draw.pick?_yields _)).bind fun found hfound => ?_
    cases found with
    | none => exact hnone
    | some field =>
      obtain ⟨hmem, -⟩ := List.mem_filter.mp (hfound.2 field rfl)
      obtain ⟨hname, hty⟩ := Registry.plain_of_fields? he.shapes field hmem
      refine (Plainly.expr hty).bind fun x hx => .pure ?_
      rintro _ ⟨⟩
      exact ⟨.field hb.name hname, hx⟩
  · refine after (fun _ => Keeps.chance _) fun _ => .ite (fun _ => ?_) fun _ => hnone
    refine hint.bind fun index hindex => hentry.bind fun x hx => .pure ?_
    rintro _ ⟨⟩
    exact ⟨.entry hb.name hindex, hx⟩
  · refine after (fun _ => Keeps.chance _) fun _ => .ite (fun _ => ?_) fun _ => hnone
    refine hint.bind fun row hrow => hint.bind fun col hcol => hentry.bind fun x hx => .pure ?_
    rintro _ ⟨⟩
    exact ⟨.cell hb.name hrow hcol, hx⟩
  · exact hnone

theorem drawAssignment_plain {b : Binding} (hb : b.Plain) (projections : Bool) :
    Plainly (drawAssignment p b.name b.ty projections : Gen σ Assignment) Assignment.Plain := by
  have hplain : Plainly (do return ⟨.variable b.name, ← Expr.generate p b.ty⟩ : Gen σ Assignment) Assignment.Plain :=
    (Plainly.expr hb.ty).bind fun x hx => .pure ⟨.variable hb.name, hx⟩
  refine .ite (fun _ => (drawProjection_plain hb).bind fun found hfound => ?_) fun _ => hplain
  cases found with
  | none => exact hplain
  | some a => exact .pure (hfound a rfl)

theorem drawAssignOrCall_plain : Plainly (drawAssignOrCall p : Gen σ Stmt) Stmt.Plain := by
  refine .look fun e he => (quietly fun _ _ => Keeps.pick? _).bind fun found hfound => ?_
  cases found with
  | none => exact after (fun _ => Keeps.report) fun _ => drawVariable_plain
  | some b =>
    have hb := he.visible b (List.mem_filter.mp (hfound.2 b rfl)).1
    refine .ite (fun _ => ?_) fun _ => (drawAssignment_plain hb true).bind fun a ha => .pure (.assign ha)
    refine (Plainly.call hb).bind fun x hx => ?_
    obtain ⟨args, rfl, hargs⟩ := hx
    exact .pure (.call hb.name hargs)

/-! ## Statements with bodies -/

/-- What is iterated is plain, and its entries have values. -/
theorem drawIteration_plain {existing : Option Binding} (hexisting : ∀ b ∈ existing, b.Plain ∧ b.ty.isTensor = true) :
    Plainly (drawIteration p existing : Gen σ Iteration) fun it =>
      (it.entryTy.Plain ∧ it.entryTy ≠ .void) ∧ it.collection.Plain := by
  have helement {ty : Ty} (hty : ty.isTensor = true) : ty.elementTy.Plain ∧ ty.elementTy ≠ .void := by
    cases ty with
    | vector kind => cases kind <;> exact ⟨trivial, nofun⟩
    | matrix kind => cases kind <;> exact ⟨trivial, nofun⟩
    | _ => cases hty
  have hnew : Plainly (do
      let ty ← tensorTy p (.ratio 7 10)
      let collection ← Expr.generate p ty
      return ⟨false, ty.elementTy, collection⟩ : Gen σ Iteration) fun it =>
        (it.entryTy.Plain ∧ it.entryTy ≠ .void) ∧ it.collection.Plain := by
    refine (quietly fun _ _ => Keeps.tensorTy p _ .empty).bind fun ty ⟨htensor, hty⟩ => ?_
    exact (Plainly.expr (hty.plain (List.forall_mem_nil _)).1).bind fun x hx => .pure ⟨helement htensor, hx⟩
  cases existing with
  | none => exact hnew
  | some b =>
    obtain ⟨hb, htensor⟩ := hexisting b rfl
    have hresult (isVariable : Bool) : Plainly (Pure.pure ⟨isVariable, b.ty.elementTy, .name b.name⟩ : Gen σ Iteration)
        fun it => (it.entryTy.Plain ∧ it.entryTy ≠ .void) ∧ it.collection.Plain :=
      .pure ⟨helement htensor, .name hb.name⟩
    refine after (fun _ => Keeps.chance _) fun _ => .ite (fun _ => ?_) fun _ => hnew
    exact .ite (fun _ => after (fun _ => Keeps.chance _) fun _ => hresult _) fun _ => hresult _

section
variable {deeper : Gen σ Stmt} (hdeeper : Plainly deeper Stmt.Plain)
include hdeeper

theorem drawConditional_plain : Plainly (drawConditional p deeper) Stmt.Plain := by
  have hbool : Ty.bool.Plain := trivial
  refine (Plainly.expr hbool).bind fun condition hcondition => hdeeper.nested.bind fun yes hyes => ?_
  refine after (fun _ => Keeps.chance _) fun _ => .ite (fun _ => .pure (.conditional hcondition hyes)) fun _ => ?_
  exact hdeeper.nested.bind fun no hno => .pure (.alternative hcondition hyes hno)

theorem drawBlock_plain : Plainly (drawBlock p deeper) Stmt.Plain := by
  have hbody : Plainly (do times deeper (← countIn p.blockBody)) fun body => ∀ stmt ∈ body, stmt.Plain :=
    (quietly fun _ _ => Keeps.countIn _).bind fun n _ => (hdeeper.times n).mono fun _ h => h.2
  exact hbody.nested.bind fun body hbody => .pure (.block hbody)

theorem drawSwitch_plain : Plainly (drawSwitch p deeper) Stmt.Plain := by
  have hlabel (label : SwitchLabel) : Plainly (spellLabel p label : Gen σ CaseLabel) fun _ => True := by
    cases label with
    | default => exact .pure trivial
    | case v => exact after (fun _ => Keeps.anyDraw _) fun c => .pure trivial
  have hcase (label : SwitchLabel) : Plainly (drawCase p deeper label) fun case =>
      ∀ label body, case = .mk label body → body.Plain :=
    (hlabel label).bind fun spelled _ => hdeeper.nested.bind fun body hbody => .pure (by rintro _ _ ⟨⟩; exact hbody)
  have hint : Ty.int.Plain := trivial
  refine (Plainly.expr hint).bind fun scrutinee hscrutinee => ?_
  refine (quietly fun _ _ => drawSwitchLabels_keeps p).bind fun labels _ => ?_
  refine (Upholds.mapM fun label _ => hcase label).bind fun cases ⟨_, hcases⟩ => .pure ?_
  exact .switch hscrutinee fun label body hmem => hcases _ hmem label body rfl

theorem drawLoop_plain : Plainly (drawLoop p deeper) Stmt.Plain := by
  have hvariable {e : Engine σ} (he : e.Plain) {b : Binding} (hb : b ∈ e.scope.visibleVariables) : b.Plain :=
    he.visible b (List.mem_filter.mp hb).1
  refine .look fun e he => (quietly fun _ _ => Keeps.pick? _).bind fun counter hcounter => ?_
  refine .look fun e' he' => (quietly fun _ _ => Keeps.pick? _).bind fun update hupdate => ?_
  have hfallback : Plainly (do report .noLoopVariable; drawVariable p : Gen σ Stmt) Stmt.Plain :=
    after (fun _ => Keeps.report) fun _ => drawVariable_plain
  cases counter with
  | none => exact hfallback
  | some counter =>
    cases update with
    | none => exact hfallback
    | some update =>
      refine (drawAssignment_plain (hvariable he (hcounter.2 counter rfl)) false).bind fun init hinit => ?_
      have hbool : Ty.bool.Plain := trivial
      refine (Plainly.expr hbool).bind fun condition hcondition => ?_
      refine (drawAssignment_plain (hvariable he' (hupdate.2 update rfl)) false).bind fun step hstep => ?_
      exact hdeeper.nested.bind fun body hbody => .pure (.loop hinit hcondition hstep hbody)

theorem drawForeach_plain : Plainly (drawForeach p deeper) Stmt.Plain := by
  refine .look fun e he => (quietly fun _ _ => Keeps.pick? _).bind fun existing hexisting => Plainly.nested ?_
  have hsource : ∀ b ∈ existing, b.Plain ∧ b.ty.isTensor = true := fun b hb => by
    obtain ⟨hvisible, htensor⟩ := List.mem_filter.mp (hexisting.2 b hb)
    exact ⟨he.visible b hvisible, (Bool.and_eq_true_iff.mp htensor).2⟩
  refine (drawIteration_plain hsource).bind fun it ⟨hty, hcollection⟩ => ?_
  refine (Plainly.freeName it.entryTy).bind fun name hname => (Plainly.spell hty).bind fun spelled hspelled => ?_
  show Plainly (defineEntry it.isVariable name it.entryTy >>= _) _
  rw [defineEntry_eq]
  exact Plainly.declare ⟨hname, hty.1, List.forall_mem_nil _⟩
    (hdeeper.bind fun body hbody => .pure (.foreach it.isVariable hspelled hname hcollection hbody))

theorem ofKind_plain (kind : StmtKind) : Plainly (ofKind p deeper kind) Stmt.Plain := by
  cases kind with
  | value => exact (Plainly.ty true).bind fun ty hty => drawValueOf_plain hty
  | «variable» => exact drawVariable_plain
  | conditional => exact drawConditional_plain hdeeper
  | block => exact drawBlock_plain hdeeper
  | assignOrCall => exact drawAssignOrCall_plain
  | switch => exact drawSwitch_plain hdeeper
  | loop => exact drawLoop_plain hdeeper
  | foreach => exact drawForeach_plain hdeeper

end

/-! ## The kinds tied together -/

theorem withLevels_plain (levels : Nat) : Plainly (withLevels p levels : Gen σ Stmt) Stmt.Plain := by
  induction levels with
  | zero => exact (quietly fun _ _ => Keeps.drawKind false).bind fun kind _ => ofKind_plain drawVariable_plain kind
  | succ levels ih => exact (quietly fun _ _ => Keeps.drawKind true).bind fun kind _ => ofKind_plain ih kind

theorem generate_plain : Plainly (generate p : Gen σ Stmt) Stmt.Plain := .look fun _ _ => withLevels_plain _

theorem several_plain (range : Range) :
    Plainly (several p range : Gen σ (List Stmt)) fun body => ∀ stmt ∈ body, stmt.Plain :=
  (quietly fun _ _ => Keeps.countIn range).bind fun n _ => (generate_plain.times n).mono fun _ h => h.2

end Stmt

end TensorFuzz
