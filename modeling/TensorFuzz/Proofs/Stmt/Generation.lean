import TensorFuzz.Stmt.Generate
import TensorFuzz.Proofs.Engine.Drawn
import TensorFuzz.Proofs.Stmt.Typing

/-!
# Generated statements

Statements are typed in the scope they are generated in, and keep every invariant of the state that goes through
draws, fresh declarations and frames (`Setting`). One run of the argument serves all such invariants, and all
readings of what an expression has to be.
-/

namespace TensorFuzz

variable {σ : Type} {α β : Type}

/-- A number of blocks may be opened one inside the other at a statement level. -/
def CanNest (opens : Nat → Prop) : Nat → Nat → Prop
  | 0, _ => True
  | levels + 1, depth => opens depth ∧ CanNest opens levels (depth + 1)

theorem Stmt.defineEntry_eq (isVariable : Bool) (name : String) (ty : Ty) :
    (Stmt.defineEntry isVariable name ty : Gen σ Unit) =
      Gen.modifyScope (·.define ⟨if isVariable then .variable else .value, name, ty, []⟩) := by
  cases isVariable <;> rfl

variable [RandomSource σ]

/-- An invariant `I` of the state that goes through draws and frames, where blocks may be opened at the statement
levels in `opens`. -/
structure Framing (safe : Faults) (opens : Nat → Prop) (I : Engine σ → Prop) : Prop where
  room {depth : Nat} : safe .addOverflow → opens depth → depth + 1 < limit64
  agrees {e e' : Engine σ} : I e → e.Agrees e' → I e'
  opened {e : Engine σ} : I e → opens e.stmtDepth → I e.opened
  closed {e : Engine σ} {frame : Frame} {outer : List Frame} : I e → e.scope.outer = frame :: outer →
    I (e.closed ⟨frame, outer⟩)

/-- What the generation of typed statements rests on: an invariant `I` of the state that goes through fresh values and
variables as well, and expressions that hold where they are asked for. -/
structure Setting (p : Profile) (safe : Faults) (opens : Nat → Prop) (holds : Registry → Holding)
    (I : Engine σ → Prop) : Prop extends Framing safe opens I where
  valid {e : Engine σ} : I e → e.Valid p
  declared {e : Engine σ} {b : Binding} : I e → b.Valid e.records p.dimensionBound → b.isFunction = false →
    b.name ∉ e.scope.currentNames → I { e with scope := e.scope.define b }
  expr {e : Engine σ} {ty : Ty} : I e → ty.Sized e.records p.dimensionBound →
    Gen.Keeps safe e (Expr.generate p ty) (holds e.records e.scope ty)
  call {e : Engine σ} {b : Binding} : I e → b ∈ e.scope.visible → b.isFunction = true →
    Gen.Keeps safe e (Expr.callAt p 0 b.name b.params) fun x =>
      ∃ args, x = .call b.name args ∧ (holds e.records).All e.scope args b.params
  name {e : Engine σ} {b : Binding} : I e → b ∈ e.scope.visible → b.isFunction = false →
    holds e.records e.scope b.ty (.name b.name)

/-- From any state that agrees with `e₀`, the computation keeps the invariant, the records and the statement level,
and its result is related to the scope that it leaves. -/
def Gen.Threads (safe : Faults) (I : Engine σ → Prop) (e₀ : Engine σ) (g : Gen σ α) (R : α → Scope → Prop) : Prop :=
  ∀ e, e₀.Agrees e → Gives safe I g e fun a e' =>
    I e' ∧ e'.records = e₀.records ∧ e'.stmtDepth = e₀.stmtDepth ∧ R a e'.scope

/-- The statement is typed in the declarations of the state, and leaves the scope. -/
abbrev Stmt.TypedIn (holds : Registry → Holding) (e : Engine σ) (stmt : Stmt) (scope : Scope) : Prop :=
  stmt.Typed e.records (holds e.records) e.scope scope

/-! ## Kinds and labels -/

/-- Where no level is left, a kind without a body is drawn. -/
theorem Gen.Keeps.drawKind {safe : Faults} {e₀ : Engine σ} (canNest : Bool) :
    Gen.Keeps safe e₀ (Stmt.drawKind canNest : Gen σ StmtKind) fun kind =>
      kind ∈ if canNest then Stmt.allKinds else Stmt.flatKinds := by
  refine (Gen.Keeps.pick? _).bind fun found hfound => .pure ?_
  cases found with
  | none => cases canNest <;> exact absurd (hfound.1.mp rfl) (by decide)
  | some kind => exact hfound.2 kind rfl

/-- There is a label for each of the values, in their order. -/
theorem Stmt.drawLabels_keeps {safe : Faults} {e₀ : Engine σ} (hasDefault : Bool) (values : List Int) :
    Gen.Keeps safe e₀ (Stmt.drawLabels hasDefault values : Gen σ (List SwitchLabel)) fun labels =>
      labels.length = values.length ∧ ∀ (i : Nat) v, labels[i]? = some (SwitchLabel.case v) → values[i]? = some v := by
  induction values generalizing hasDefault with
  | nil => exact .pure ⟨rfl, by simp⟩
  | cons value values ih =>
    have hcase {hasDefault : Bool} : Gen.Keeps safe e₀
        (do return SwitchLabel.case value :: (← Stmt.drawLabels hasDefault values) : Gen σ (List SwitchLabel))
        fun labels => labels.length = values.length + 1 ∧
          ∀ (i : Nat) v, labels[i]? = some (SwitchLabel.case v) → (value :: values)[i]? = some v := by
      refine (ih hasDefault).bind fun labels ⟨hlength, hlabels⟩ => .pure ⟨congrArg (· + 1) hlength, ?_⟩
      rintro (_ | i) v hv
      · cases hv
        rfl
      · exact hlabels i v hv
    refine .ite (fun _ => (Gen.Keeps.chance _).bind fun _ _ => .ite (fun _ => ?_) fun _ => hcase) fun _ => hcase
    refine (ih true).bind fun labels ⟨hlength, hlabels⟩ => .pure ⟨congrArg (· + 1) hlength, ?_⟩
    rintro (_ | i) v hv
    · cases hv
    · exact hlabels i v hv

/-- The labels of a number in the range of the profile, evenly spaced from a base on, as words hold them. -/
def Stmt.Spaced (p : Profile) (labels : List SwitchLabel) : Prop :=
  ∃ (count : Nat) (base stride : Int),
    (p.switchCases.min ≤ count ∧ count ≤ max p.switchCases.min p.switchCases.max) ∧
    (-100 ≤ base ∧ base ≤ 100) ∧ (1 ≤ stride ∧ stride ≤ 9) ∧ labels.length = (signed64 count).toNat ∧
    ∀ (i : Nat) v, labels[i]? = some (.case v) → v = signed64 (base + i * stride)

theorem Stmt.drawSwitchLabels_spaced {safe : Faults} {e₀ : Engine σ} (p : Profile) :
    Gen.Keeps safe e₀ (Stmt.drawSwitchLabels p : Gen σ (List SwitchLabel)) (Stmt.Spaced p) := by
  refine (Gen.Keeps.countIn _).bind fun count hcount => ?_
  refine (Gen.Keeps.draw (Draw.intIn_yields (by decide) (by decide))).bind fun base hbase => ?_
  refine (Gen.Keeps.draw (Draw.intIn_yields (by decide) (by decide))).bind fun stride hstride => ?_
  generalize hvalues : (List.range (signed64 count).toNat).map (fun i : Nat => signed64 (base + i * stride)) = values
  refine (drawLabels_keeps false values).mono fun labels ⟨hlength, hlabels⟩ => ?_
  rw [← hvalues, List.length_map, List.length_range] at hlength
  refine ⟨count, base, stride, hcount, hbase.2 (by decide), hstride.2 (by decide), hlength, fun i v hv => ?_⟩
  have hvalue := hlabels i v hv
  rw [← hvalues, List.getElem?_map, Option.map_eq_some_iff] at hvalue
  obtain ⟨j, hj, rfl⟩ := hvalue
  obtain ⟨_, rfl⟩ := List.getElem?_eq_some_iff.mp hj
  rw [List.getElem_range]

/-- The values of the labels fit a signed word. -/
theorem Stmt.drawSwitchLabels_keeps {safe : Faults} {e₀ : Engine σ} (p : Profile) :
    Gen.Keeps safe e₀ (Stmt.drawSwitchLabels p : Gen σ (List SwitchLabel)) fun labels =>
      ∀ label ∈ labels, ∀ v, label = .case v → Fits64 v := by
  refine (drawSwitchLabels_spaced p).mono fun labels hspaced label hlabel v hv => ?_
  obtain ⟨count, base, stride, -, -, -, -, hlabels⟩ := hspaced
  obtain ⟨i, hi⟩ := List.mem_iff_getElem?.mp hlabel
  rw [hlabels i v (hv ▸ hi)]
  exact fits64_signed64 _

/-! ## Rules -/

namespace Gen.Threads

variable {safe : Faults} {I : Engine σ → Prop} {e₀ : Engine σ} {g g' : Gen σ α} {f : α → Gen σ β} {P : α → Prop}
  {R R' : α → Scope → Prop} {T : β → Scope → Prop}

theorem bind (h : Threads safe I e₀ g R)
    (hf : ∀ a e₁, I e₁ → e₁.records = e₀.records → e₁.stmtDepth = e₀.stmtDepth → R a e₁.scope →
      Threads safe I e₁ (f a) T) : Threads safe I e₀ (g >>= f) T := fun e he =>
  (h e he).bind fun a e₁ ⟨h₁, hrecords, hdepth, ha⟩ =>
    (hf a e₁ h₁ hrecords hdepth ha e₁ (.refl e₁)).post fun _ _ ⟨h₂, hrecords', hdepth', hb⟩ =>
      ⟨h₂, hrecords'.trans hrecords, hdepth'.trans hdepth, hb⟩

theorem look {f : Engine σ → Gen σ β} (hf : ∀ e, e₀.Agrees e → Threads safe I e₀ (f e) T) :
    Threads safe I e₀ (MonadState.get >>= f) T := fun e he => .get (hf e he e he)

theorem ite {c : Prop} [Decidable c] (h : c → Threads safe I e₀ g R)
    (h' : ¬ c → Threads safe I e₀ g' R) : Threads safe I e₀ (if c then g else g') R := by
  split
  · exact h ‹_›
  · exact h' ‹_›

theorem mono (h : Threads safe I e₀ g R) (hR : ∀ a scope, R a scope → R' a scope) :
    Threads safe I e₀ g R' := fun e he => (h e he).post fun a e' ⟨h₁, hrecords, hdepth, ha⟩ =>
  ⟨h₁, hrecords, hdepth, hR a e'.scope ha⟩

/-- What ends in the scope that it began in may be followed by anything that follows from there. -/
theorem restored (h : Threads safe I e₀ g fun a scope => scope = e₀.scope ∧ P a)
    (hf : ∀ a, P a → Threads safe I e₀ (f a) T) : Threads safe I e₀ (g >>= f) T := fun e he =>
  (h e he).bind fun a e₁ ⟨_, hrecords, hdepth, hscope, ha⟩ => hf a ha e₁ ⟨hscope, hrecords, hdepth⟩

end Gen.Threads

namespace Framing

open Gen
open Engine (opened_scope opened_stmtDepth)

variable {safe : Faults} {opens : Nat → Prop} {I : Engine σ → Prop} {e₀ : Engine σ} {g : Gen σ α} {f : α → Gen σ β}
  {P : α → Prop} {R : α → Scope → Prop} {T : β → Scope → Prop}

theorem pure (s : Framing safe opens I) (h₀ : I e₀) {a : α} (h : R a e₀.scope) :
    Threads safe I e₀ (Pure.pure a) R := fun _ he =>
  ⟨s.agrees h₀ he, he.records, he.stmtDepth, he.scope ▸ h⟩

/-- What declares nothing leaves the scope as it was. -/
theorem quietly (s : Framing safe opens I) (h₀ : I e₀) (h : Keeps safe e₀ g P)
    (hf : ∀ a, P a → Threads safe I e₀ (f a) T) : Threads safe I e₀ (g >>= f) T := fun e he =>
  ((h e he).mono (fun _ => s.agrees h₀) fun _ _ => id).bind fun a e' ha => hf a ha.1 e' ha.2

/-- What is declared is in scope for the rest. -/
theorem declare (s : Framing safe opens I) {b : Binding}
    (hdeclared : I { e₀ with scope := e₀.scope.define b }) {rest : Gen σ β}
    (hrest : ∀ e₁, I e₁ → e₁.records = e₀.records → e₁.stmtDepth = e₀.stmtDepth → e₁.scope = e₀.scope.define b →
      Threads safe I e₁ rest T) :
    Threads safe I e₀ (modifyScope (·.define b) >>= fun _ => rest) T := fun e he => by
  have hagrees : Engine.Agrees { e₀ with scope := e₀.scope.define b } { e with scope := e.scope.define b } :=
    ⟨by rw [he.scope], he.records, he.stmtDepth⟩
  have hdeclared := s.agrees hdeclared hagrees
  refine (Gives.update hdeclared rfl).bind fun _ e₁ heq => ?_
  subst heq
  refine (hrest _ hdeclared he.records he.stmtDepth hagrees.scope _ (.refl _)).post
    fun _ _ ⟨h₂, hrecords, hdepth, hb⟩ => ⟨h₂, hrecords.trans he.records, hdepth.trans he.stmtDepth, hb⟩

/-- A block ends in the scope that it began in. -/
theorem nested (s : Framing safe opens I) (h₀ : I e₀) (hopens : opens e₀.stmtDepth)
    (h : Threads safe I e₀.opened g R) (houter : ∀ a scope, R a scope → scope.outer = e₀.scope.descend.outer) :
    Threads safe I e₀ (Gen.nested g) fun a scope => scope = e₀.scope ∧ ∃ inner, R a inner := fun e he => by
  have hopened : I e.opened := s.opened (s.agrees h₀ he) (he.stmtDepth ▸ hopens)
  have hagrees : e₀.opened.Agrees e.opened := ⟨by rw [opened_scope, he.scope]; rfl, he.records, by
    rw [opened_stmtDepth, opened_stmtDepth, he.stmtDepth]⟩
  refine (Gives.openBlock (fun hsafe => he.stmtDepth ▸ s.room hsafe hopens) hopened).bind fun _ e₁ heq => ?_
  subst heq
  refine (h e.opened hagrees).bind fun a e₂ ⟨h₂, hrecords, hdepth, ha⟩ => ?_
  have hframes : e₂.scope.outer = e₀.scope.current :: e₀.scope.outer := houter a e₂.scope ha
  have hinside : e₂.stmtDepth = e₀.stmtDepth + 1 := hdepth
  refine (Gives.closeBlock (by omega) hframes (s.closed h₂ hframes)).bind fun _ e₃ heq => ?_
  subst heq
  refine ⟨s.closed h₂ hframes, hrecords, ?_, rfl, e₂.scope, ha⟩
  show e₂.stmtDepth - 1 = e₀.stmtDepth
  rw [hinside, Nat.add_sub_cancel]

end Framing

namespace Setting

open Gen
open Stmt (drawSwitchLabels_keeps)
open Name (Led firstWords patterns)

variable {p : Profile} {safe : Faults} {opens : Nat → Prop} {holds : Registry → Holding} {I : Engine σ → Prop}
  {e₀ : Engine σ} {g : Gen σ α} {f : α → Gen σ β} {P : α → Prop} {R : α → Scope → Prop} {T : β → Scope → Prop}

/-! ## Declarations -/

variable (s : Setting p safe opens holds I) (h₀ : I e₀)
include s h₀

/-- A name that is drawn for a value may be declared. -/
theorem fresh {kind : BindingKind} (hkind : kind ≠ .function) {ty : Ty} (hty : ty.Sized e₀.records p.dimensionBound)
    {name : String} (hname : name ∉ e₀.scope.currentNames ∧ Led (firstWords (patterns ty)) name) :
    I { e₀ with scope := e₀.scope.define ⟨kind, name, ty, []⟩ } := by
  have hfunction : (Binding.mk kind name ty []).isFunction = false := beq_eq_false_iff_ne.mpr hkind
  exact s.declared h₀ ⟨Name.isReference_of_variable hname.2, .inr hty, by simp⟩ hfunction hname.1

theorem drawValueOf {ty : Ty} (hty : ty.Sized e₀.records p.dimensionBound) :
    Threads safe I e₀ (Stmt.drawValueOf p ty) (Stmt.TypedIn holds e₀) := by
  refine s.quietly h₀ (s.expr h₀ hty) fun init hinit => ?_
  refine s.quietly h₀ (Keeps.freeName ty) fun name hname => ?_
  refine s.quietly h₀ (Keeps.spell p ty) fun spelled hspelled => ?_
  have hdeclared := s.fresh h₀ (nofun : BindingKind.value ≠ .function) hty hname
  refine s.declare hdeclared fun e₁ h₁ hrecords hdepth hscope => ?_
  refine s.pure h₁ ?_
  rw [hscope]
  exact .declareValue hspelled hname.1 hinit

theorem drawValue : Threads safe I e₀ (Stmt.drawValue p) (Stmt.TypedIn holds e₀) :=
  s.quietly h₀ (Keeps.ty p true) fun _ hty => s.drawValueOf h₀ hty

theorem drawVariable : Threads safe I e₀ (Stmt.drawVariable p) (Stmt.TypedIn holds e₀) := by
  refine s.quietly h₀ (Keeps.ty p true) fun ty hty => ?_
  refine s.quietly h₀ (Keeps.freeName ty) fun name hname => ?_
  refine s.quietly h₀ (Keeps.spell p ty) fun spelled hspelled => ?_
  have hdeclared := s.fresh h₀ (nofun : BindingKind.variable ≠ .function) hty hname
  refine s.declare hdeclared fun e₁ h₁ hrecords hdepth hscope => ?_
  refine s.pure h₁ ?_
  rw [hscope]
  exact .declareVariable hspelled hname.1

/-! ## Assignments and calls -/

theorem drawProjection {b : Binding} (hb : b ∈ e₀.scope.visible) (hkind : b.kind = .variable) :
    Keeps safe e₀ (Stmt.drawProjection p b.name b.ty) fun found =>
      ∀ a ∈ found, a.Typed e₀.records (holds e₀.records) e₀.scope := by
  have hlookup := Scope.lookup?_of_mem_visible hb
  have hnone : Keeps safe e₀ (Pure.pure none : Gen σ (Option Assignment)) fun found =>
      ∀ a ∈ found, a.Typed e₀.records (holds e₀.records) e₀.scope := .pure (by simp)
  have hint : Keeps safe e₀ (Expr.generate p .int) (holds e₀.records e₀.scope .int) := s.expr h₀ trivial
  have hentry (kind : Kind) :
      Keeps safe e₀ (Expr.generate p (.ofKind kind)) (holds e₀.records e₀.scope (.ofKind kind)) :=
    s.expr h₀ (by cases kind <;> trivial)
  unfold Stmt.drawProjection
  cases hty : b.ty with
  | record id =>
    refine (Keeps.chance _).bind fun _ _ => .ite (fun _ => ?_) fun _ => hnone
    refine Keeps.look fun e he => (Keeps.draw (Draw.pick?_yields _)).bind fun found hfound => ?_
    cases found with
    | none => exact hnone
    | some field =>
      obtain ⟨hnamed, hfieldTy, hmutable⟩ := (s.valid h₀).mutableField (he.records ▸ hfound.2 field rfl)
      refine (s.expr h₀ hfieldTy).bind fun x hx => .pure ?_
      rintro _ ⟨⟩
      exact .field hlookup hkind hty hnamed hmutable hx
  | vector kind length =>
    refine (Keeps.chance _).bind fun _ _ => .ite (fun _ => ?_) fun _ => hnone
    refine hint.bind fun index hindex => (hentry kind).bind fun x hx => .pure ?_
    rintro _ ⟨⟩
    exact .entry hlookup hkind hty hindex hx
  | matrix kind rows cols =>
    refine (Keeps.chance _).bind fun _ _ => .ite (fun _ => ?_) fun _ => hnone
    refine hint.bind fun row hrow => hint.bind fun col hcol => (hentry kind).bind fun x hx => .pure ?_
    rintro _ ⟨⟩
    exact .cell hlookup hkind hty hrow hcol hx
  | _ => exact hnone

theorem drawAssignment {b : Binding} (hb : b ∈ e₀.scope.visible) (hkind : b.kind = .variable) (projections : Bool) :
    Keeps safe e₀ (Stmt.drawAssignment p b.name b.ty projections) fun a =>
      a.Typed e₀.records (holds e₀.records) e₀.scope := by
  have hty := ((s.valid h₀).visible hb).ty_of_value (by simp [Binding.isFunction, hkind])
  have hplain : Keeps safe e₀ (do return ⟨.variable b.name, ← Expr.generate p b.ty⟩ : Gen σ Assignment) fun a =>
      a.Typed e₀.records (holds e₀.records) e₀.scope :=
    (s.expr h₀ hty).bind fun x hx => .pure (.variable (Scope.lookup?_of_mem_visible hb) hkind hx)
  refine .ite (fun _ => ?_) fun _ => hplain
  refine (s.drawProjection h₀ hb hkind).bind fun found hfound => ?_
  cases found with
  | none => exact hplain
  | some a => exact .pure (hfound a rfl)

theorem drawAssignOrCall : Threads safe I e₀ (Stmt.drawAssignOrCall p) (Stmt.TypedIn holds e₀) := by
  refine .look fun e he => s.quietly h₀ (Keeps.pick? _) fun found hfound => ?_
  cases found with
  | none => exact s.quietly h₀ Keeps.report fun _ _ => s.drawVariable h₀
  | some b =>
    have hmem := hfound.2 b rfl
    rw [he.scope] at hmem
    obtain ⟨hb, hvalue⟩ := List.mem_filter.mp hmem
    refine .ite (fun hfunction => ?_) fun hfunction => ?_
    · refine s.quietly h₀ (s.call h₀ hb hfunction) fun x hx => ?_
      obtain ⟨args, rfl, hargs⟩ := hx
      exact s.pure h₀ (.call (Scope.lookup?_of_mem_visible hb) hfunction hargs)
    · have hkind : b.kind = .variable := by
        cases hkind : b.kind <;> simp_all [Binding.isFunction]
      exact s.quietly h₀ (s.drawAssignment h₀ hb hkind true) fun a ha => s.pure h₀ (.assign ha)

/-! ## Statements with bodies -/

omit s h₀ in
/-- At a statement level, the generator gives statements that are typed in the scope they are generated in. -/
def Makes (safe : Faults) (holds : Registry → Holding) (I : Engine σ → Prop) (depth : Nat) (g : Gen σ Stmt) : Prop :=
  ∀ e, I e → e.stmtDepth = depth → Threads safe I e g (Stmt.TypedIn holds e)

theorem times {depth : Nat} {g : Gen σ Stmt} (h : Makes safe holds I depth g)
    (hdepth : e₀.stmtDepth = depth) (n : Nat) : Threads safe I e₀ (Gen.times g n) fun stmts scope =>
      Stmt.AllTyped e₀.records (holds e₀.records) e₀.scope stmts scope := by
  induction n generalizing e₀ with
  | zero => exact s.pure h₀ (.nil _)
  | succ n ih =>
    refine .bind (h e₀ h₀ hdepth) fun stmt e₁ h₁ hrecords hdepth₁ hstmt => ?_
    refine .bind (ih h₁ (hdepth₁.trans hdepth)) fun stmts e₂ h₂ _ _ hstmts => s.pure h₂ ?_
    rw [hrecords] at hstmts
    exact .cons hstmt hstmts

/-- An iteration goes over a vector or matrix, and its entries are variables only if that is a variable. -/
theorem drawIteration (hopens : opens e₀.stmtDepth) {existing : Option Binding}
    (hexisting : ∀ b ∈ existing, b ∈ e₀.scope.tensors) :
    Keeps safe e₀.opened (Stmt.drawIteration p existing) fun it => ∃ ty, ty.isTensor = true ∧
      ty.Sized e₀.records p.dimensionBound ∧ holds e₀.records e₀.scope.descend ty it.collection ∧
        LoopName e₀.scope it.isVariable it.collection ∧ it.entryTy = ty.elementTy := by
  have hopened := s.opened h₀ hopens
  have hnew : Keeps safe e₀.opened
      (do
        let ty ← tensorTy p (.ratio 7 10)
        let collection ← Expr.generate p ty
        return (⟨false, ty.elementTy, collection⟩ : Stmt.Iteration))
      fun it => ∃ ty, ty.isTensor = true ∧ ty.Sized e₀.records p.dimensionBound ∧
        holds e₀.records e₀.scope.descend ty it.collection ∧ LoopName e₀.scope it.isVariable it.collection ∧
          it.entryTy = ty.elementTy := by
    refine (Keeps.tensorTy p _ e₀.records).bind fun ty hty => (s.expr hopened hty.2).bind fun x hx => .pure ?_
    exact ⟨ty, hty.1, hty.2, hx, nofun, rfl⟩
  cases existing with
  | none => exact hnew
  | some b =>
    obtain ⟨hb, htensor⟩ := List.mem_filter.mp (hexisting b rfl)
    obtain ⟨hvalue, htensor⟩ : b.isFunction = false ∧ b.ty.isTensor = true := by simpa using htensor
    have hty := ((s.valid h₀).visible hb).ty_of_value hvalue
    have hname := s.name hopened (hb : b ∈ e₀.opened.scope.visible) hvalue
    refine (Keeps.chance _).bind fun _ _ => .ite (fun _ => ?_) fun _ => hnew
    refine .ite (fun hkind => ?_) fun _ => .pure ⟨b.ty, htensor, hty, hname, nofun, rfl⟩
    refine (Keeps.chance _).bind fun isVariable _ => .pure ⟨b.ty, htensor, hty, hname, fun _ => ?_, rfl⟩
    exact ⟨b, rfl, Scope.lookup?_of_mem_visible hb, hkind⟩

variable {deeper : Gen σ Stmt} (hopens : opens e₀.stmtDepth)
  (hdeeper : Makes safe holds I (e₀.stmtDepth + 1) deeper)
include hopens hdeeper

theorem body : Threads safe I e₀ (Gen.nested deeper) fun stmt scope => scope = e₀.scope ∧
    ∃ inner, stmt.Typed e₀.records (holds e₀.records) e₀.scope.descend inner :=
  s.nested h₀ hopens (hdeeper e₀.opened (s.opened h₀ hopens) rfl) fun _ _ h => h.outer

theorem drawConditional : Threads safe I e₀ (Stmt.drawConditional p deeper) (Stmt.TypedIn holds e₀) := by
  refine s.quietly h₀ (s.expr h₀ trivial) fun condition hcondition => ?_
  refine .restored (s.body h₀ hopens hdeeper) fun yes ⟨_, hyes⟩ => ?_
  refine s.quietly h₀ (Keeps.chance _) fun _ _ => .ite (fun _ => s.pure h₀ (.conditional hcondition hyes)) fun _ => ?_
  exact .restored (s.body h₀ hopens hdeeper) fun no ⟨_, hno⟩ => s.pure h₀ (.alternative hcondition hyes hno)

theorem drawBlock : Threads safe I e₀ (Stmt.drawBlock p deeper) (Stmt.TypedIn holds e₀) := by
  have hopened := s.opened h₀ hopens
  have hbody : Threads safe I e₀.opened (do Gen.times deeper (← countIn p.blockBody)) fun stmts scope =>
      Stmt.AllTyped e₀.records (holds e₀.records) e₀.scope.descend stmts scope :=
    s.quietly hopened (Keeps.countIn _) fun n _ => s.times hopened hdeeper rfl n
  refine .restored (s.nested h₀ hopens hbody fun _ _ h => h.outer) fun stmts ⟨_, hstmts⟩ => ?_
  exact s.pure h₀ (.block hstmts)

theorem drawCase {label : SwitchLabel} (hlabel : ∀ v, label = .case v → Fits64 v) :
    Threads safe I e₀ (Stmt.drawCase p deeper label) fun c scope => scope = e₀.scope ∧
      ∃ label body inner, c = .mk label body ∧ label.Spelled ∧
        body.Typed e₀.records (holds e₀.records) e₀.scope.descend inner := by
  have hspelled : Keeps safe e₀ (Stmt.spellLabel p label : Gen σ CaseLabel) CaseLabel.Spelled := by
    cases label with
    | default => exact .pure trivial
    | case v =>
      exact (Keeps.draw (Constant.synthesize_yields _ (hlabel v rfl))).bind fun c hc => .pure ⟨v, hc⟩
  refine s.quietly h₀ hspelled fun spelled hspelled => ?_
  refine .restored (s.body h₀ hopens hdeeper) fun body ⟨inner, hbody⟩ => ?_
  exact s.pure h₀ ⟨rfl, spelled, body, inner, rfl, hspelled, hbody⟩

theorem drawCases {labels : List SwitchLabel} (hlabels : ∀ label ∈ labels, ∀ v, label = .case v → Fits64 v) :
    Threads safe I e₀ (labels.mapM (Stmt.drawCase p deeper)) fun cases scope => scope = e₀.scope ∧
      Stmt.CasesTyped e₀.records (holds e₀.records) e₀.scope cases := by
  induction labels with
  | nil =>
    rw [List.mapM_nil]
    exact s.pure h₀ ⟨rfl, .nil _⟩
  | cons label labels ih =>
    rw [List.mapM_cons]
    refine .restored (s.drawCase h₀ hopens hdeeper (hlabels label List.mem_cons_self)) fun c hc => ?_
    obtain ⟨spelled, body, inner, rfl, hspelled, hbody⟩ := hc
    refine .restored (ih fun other hother => hlabels other (List.mem_cons_of_mem _ hother)) fun cases hcases => ?_
    exact s.pure h₀ ⟨rfl, .cons hspelled hbody hcases⟩

theorem drawSwitch : Threads safe I e₀ (Stmt.drawSwitch p deeper) (Stmt.TypedIn holds e₀) := by
  refine s.quietly h₀ (s.expr h₀ trivial) fun scrutinee hscrutinee => ?_
  refine s.quietly h₀ (drawSwitchLabels_keeps p) fun labels hlabels => ?_
  exact .restored (s.drawCases h₀ hopens hdeeper hlabels) fun cases hcases => s.pure h₀ (.switch hscrutinee hcases)

theorem drawLoop : Threads safe I e₀ (Stmt.drawLoop p deeper) (Stmt.TypedIn holds e₀) := by
  have hvariable {e : Engine σ} (he : e₀.Agrees e) {b : Binding} (hb : b ∈ e.scope.visibleVariables) :
      b ∈ e₀.scope.visible ∧ b.kind = .variable := by
    rw [he.scope] at hb
    obtain ⟨hb, hkind⟩ := List.mem_filter.mp hb
    exact ⟨hb, by simpa using hkind⟩
  refine .look fun e he => s.quietly h₀ (Keeps.pick? _) fun counter hcounter => ?_
  refine .look fun e' he' => s.quietly h₀ (Keeps.pick? _) fun update hupdate => ?_
  have hfallback : Threads safe I e₀ (do report .noLoopVariable; Stmt.drawVariable p) (Stmt.TypedIn holds e₀) :=
    s.quietly h₀ Keeps.report fun _ _ => s.drawVariable h₀
  cases counter with
  | none => exact hfallback
  | some counter =>
    cases update with
    | none => exact hfallback
    | some update =>
      obtain ⟨hc, hckind⟩ := hvariable he (hcounter.2 counter rfl)
      obtain ⟨hu, hukind⟩ := hvariable he' (hupdate.2 update rfl)
      refine s.quietly h₀ (s.drawAssignment h₀ hc hckind false) fun init hinit => ?_
      refine s.quietly h₀ (s.expr h₀ trivial) fun condition hcondition => ?_
      refine s.quietly h₀ (s.drawAssignment h₀ hu hukind false) fun step hstep => ?_
      exact .restored (s.body h₀ hopens hdeeper) fun body ⟨_, hbody⟩ =>
        s.pure h₀ (.loop hinit hcondition hstep hbody)

theorem drawForeach : Threads safe I e₀ (Stmt.drawForeach p deeper) (Stmt.TypedIn holds e₀) := by
  have hopened := s.opened h₀ hopens
  refine .look fun e he => s.quietly h₀ (Keeps.pick? _) fun existing hexisting => ?_
  have hloop := s.drawIteration h₀ hopens fun b hb => he.scope ▸ hexisting.2 b hb
  refine .mono (s.nested h₀ hopens (R := fun stmt inner => inner.outer = e₀.scope.descend.outer ∧
    stmt.Typed e₀.records (holds e₀.records) e₀.scope e₀.scope) ?_ fun _ _ h => h.1) fun stmt scope h => ?_
  · refine s.quietly hopened hloop fun it ⟨ty, htensor, hty, hcollection, hvariable, hentry⟩ => ?_
    obtain ⟨isVariable, _, collection⟩ := it
    subst hentry
    refine s.quietly hopened (Keeps.freeName ty.elementTy) fun name hname => ?_
    refine s.quietly hopened (Keeps.spell p ty.elementTy) fun spelled hspelled => ?_
    rw [Stmt.defineEntry_eq]
    have hkind : (if isVariable then .variable else .value : BindingKind) ≠ .function := by
      cases isVariable <;> nofun
    refine s.declare (s.fresh hopened hkind hty.elementTy hname) fun e₁ h₁ hrecords hdepth hscope => ?_
    refine .bind (hdeeper e₁ h₁ hdepth) fun body e₂ h₂ _ _ hbody => s.pure h₂ ⟨?_, ?_⟩
    · rw [hbody.outer, hscope]
      rfl
    · rw [Stmt.TypedIn, hrecords, hscope] at hbody
      exact .foreach htensor hcollection hvariable hspelled hbody
  · obtain ⟨rfl, _, -, htyped⟩ := h
    exact htyped

/-! ## The kinds tied together -/

theorem ofKind (kind : StmtKind) : Threads safe I e₀ (Stmt.ofKind p deeper kind) (Stmt.TypedIn holds e₀) := by
  cases kind with
  | value => exact s.drawValue h₀
  | «variable» => exact s.drawVariable h₀
  | conditional => exact s.drawConditional h₀ hopens hdeeper
  | block => exact s.drawBlock h₀ hopens hdeeper
  | assignOrCall => exact s.drawAssignOrCall h₀
  | switch => exact s.drawSwitch h₀ hopens hdeeper
  | loop => exact s.drawLoop h₀ hopens hdeeper
  | foreach => exact s.drawForeach h₀ hopens hdeeper

omit hopens hdeeper in
/-- A kind without a body asks nothing of what bodies are generated by. -/
theorem ofFlatKind {kind : StmtKind} (hkind : kind ∈ Stmt.flatKinds) :
    Threads safe I e₀ (Stmt.ofKind p deeper kind) (Stmt.TypedIn holds e₀) := by
  simp only [Stmt.flatKinds, List.mem_cons, List.not_mem_nil, or_false] at hkind
  rcases hkind with rfl | rfl | rfl | rfl | rfl
  · exact s.drawValue h₀
  · exact s.drawValue h₀
  · exact s.drawVariable h₀
  · exact s.drawVariable h₀
  · exact s.drawAssignOrCall h₀

omit h₀ hopens hdeeper

theorem withLevels {levels depth : Nat} (hnest : CanNest opens levels depth) :
    Makes safe holds I depth (Stmt.withLevels p levels) := by
  induction levels generalizing depth with
  | zero =>
    intro e he _
    refine s.quietly he (Keeps.drawKind false) fun kind hkind => s.ofFlatKind he hkind
  | succ levels ih =>
    intro e he hdepth
    subst hdepth
    exact s.quietly he (Keeps.drawKind true) fun kind _ => s.ofKind he hnest.1 (ih hnest.2) kind

theorem generate {depth : Nat} (hnest : CanNest opens (p.maxStmtDepth - depth) depth) :
    Makes safe holds I depth (Stmt.generate p) := by
  intro e he hdepth
  refine .look fun e' he' => ?_
  rw [he'.stmtDepth, hdepth]
  exact s.withLevels hnest e he hdepth

theorem several {e₀ : Engine σ} (h₀ : I e₀) (hnest : CanNest opens (p.maxStmtDepth - e₀.stmtDepth) e₀.stmtDepth)
    (range : Range) : Threads safe I e₀ (Stmt.several p range) fun stmts scope =>
      Stmt.AllTyped e₀.records (holds e₀.records) e₀.scope stmts scope :=
  s.quietly h₀ (Keeps.countIn range) fun n _ => s.times h₀ (s.generate hnest) rfl n

end Setting

end TensorFuzz
