import TensorFuzz.Proofs.Stmt.Shadowing

/-!
# Combinations left over

Every expression begins with all its combinations again, however many the one before it has left. Only the arguments
of a call statement go on with what is left over. So a statement is the same however many combinations were left
before it, unless it begins with such an argument (`BudgetUse.leftover`).
-/

namespace TensorFuzz

variable {σ : Type} {α β : Type}

/-- The state with another number of combinations left. -/
def Engine.withNodes (e : Engine σ) (nodes : Nat) : Engine σ := { e with nodesLeft := nodes }

/-- What becomes first of the combinations that were left: nothing, or all of them are given back, or what is left of
them is used. -/
inductive BudgetUse
  | untouched
  | refilled
  | leftover
  deriving DecidableEq

namespace BudgetUse

/-- The use by two parts, one after the other. -/
def followedBy : BudgetUse → BudgetUse → BudgetUse
  | untouched, next => next
  | first, _ => first

theorem followedBy_untouched (use : BudgetUse) : use.followedBy untouched = use := by cases use <;> rfl

/-- The second use depends no more on the combinations that were left than the first one does. -/
def Covers : BudgetUse → BudgetUse → Prop
  | leftover, _ => True
  | untouched, use => use ≠ leftover
  | refilled, use => use = refilled

theorem Covers.refl (use : BudgetUse) : use.Covers use := by cases use <;> simp [Covers]

theorem Covers.refilled (use : BudgetUse) : use.Covers .refilled := by cases use <;> simp [Covers]

theorem Covers.followedBy {first first' next next' : BudgetUse} (h : first.Covers first') (h' : next.Covers next') :
    (first.followedBy next).Covers (first'.followedBy next') := by
  cases first <;> cases first' <;> simp_all [Covers, BudgetUse.followedBy]
  exact Covers.refilled next

/-- Beside a run that has come to `a` and the state `e'`, the outcome that a use of the combinations leaves to a run
from the same state with another number of them. -/
def Same (a : α) (e' : Engine σ) (outcome : Except Fault (α × Engine σ)) : BudgetUse → Prop
  | untouched => ∃ nodes, outcome = .ok (a, e'.withNodes nodes)
  | refilled => outcome = .ok (a, e')
  | leftover => True

end BudgetUse

namespace Stmt

mutual

/-- The first use of the combinations that were left before a statement. The collection of a loop over entries is an
existing variable or value, or else a new expression. -/
def budgetUse : Stmt → BudgetUse
  | declareVariable .. | call _ [] => .untouched
  | call _ (_ :: _) => .leftover
  | block body => budgetUses body
  | foreach _ _ _ (.name _) body => body.budgetUse
  | declareValue .. | assign .. | conditional .. | alternative .. | switch .. | loop .. | foreach .. => .refilled

/-- The first use of the combinations that were left before some statements. -/
def budgetUses : List Stmt → BudgetUse
  | [] => .untouched
  | stmt :: stmts => stmt.budgetUse.followedBy (budgetUses stmts)

end

end Stmt

namespace Gen

/-- However many combinations are left before it, the computation comes to the same, up to a use of them that `Q` gives
for its result. -/
def Forgets (g : Gen σ α) (Q : α → BudgetUse → Prop) : Prop :=
  ∀ ⦃e a e'⦄, g.run e = .ok (a, e') → ∀ nodes, ∃ use, Q a use ∧ use.Same a e' (g.run (e.withNodes nodes))

/-- The computation leaves the combinations alone. -/
abbrev Spares (g : Gen σ α) : Prop := Forgets g fun _ use => use = .untouched

/-- The computation begins with all combinations. -/
abbrev Refills (g : Gen σ α) : Prop := Forgets g fun _ use => use = .refilled

namespace Forgets

variable {g g' : Gen σ α} {Q Q' : α → BudgetUse → Prop} {R : β → BudgetUse → Prop}

theorem mono (h : Forgets g Q) (hQ : ∀ a use, Q a use → Q' a use) : Forgets g Q' := by
  intro e a e' hrun nodes
  obtain ⟨use, ha, hsame⟩ := h hrun nodes
  exact ⟨use, hQ a use ha, hsame⟩

theorem pure {a : α} (h : Q a .untouched) : Forgets (Pure.pure a : Gen σ α) Q := by
  rintro e _ _ ⟨⟩ nodes
  exact ⟨.untouched, h, nodes, rfl⟩

theorem stop {fault : Fault} : Forgets (Gen.stop fault : Gen σ α) Q := fun _ _ _ hrun => nomatch hrun

/-- Of what goes on with the combinations left over, nothing is said. -/
theorem any (g : Gen σ α) : Forgets g fun _ use => use = .leftover := fun _ _ _ _ _ => ⟨.leftover, rfl, trivial⟩

theorem bind {f : α → Gen σ β} (h : Forgets g Q)
    (hf : ∀ a use, Q a use → Forgets (f a) fun b next => R b (use.followedBy next)) : Forgets (g >>= f) R := by
  intro e b e' hrun nodes
  obtain ⟨a, e₁, ha, hb⟩ := exists_of_run_bind hrun
  obtain ⟨use, hQ, hsame⟩ := h ha nodes
  rw [run_bind]
  -- Only if the first part has left the combinations alone does the second one meet different numbers of them.
  cases use with
  | untouched =>
    obtain ⟨nodes', hsame⟩ := hsame
    obtain ⟨next, hR, hsame'⟩ := hf a _ hQ hb nodes'
    rw [hsame]
    exact ⟨next, hR, hsame'⟩
  | refilled =>
    obtain ⟨next, hR, -⟩ := hf a _ hQ hb nodes
    rw [hsame]
    exact ⟨.refilled, hR, hb⟩
  | leftover =>
    obtain ⟨next, hR, -⟩ := hf a _ hQ hb nodes
    exact ⟨.leftover, hR, trivial⟩

/-- The result is still one that the computation can have. -/
theorem unknown {P : α → Prop} (h : Returns g P) : Forgets g fun a use => P a ∧ use = .leftover :=
  fun _ _ _ hrun _ => ⟨.leftover, ⟨h hrun, rfl⟩, trivial⟩

/-- What leaves the combinations alone may come before anything. -/
theorem after {f : α → Gen σ β} (h : Spares g) (hf : ∀ a, Forgets (f a) R) : Forgets (g >>= f) R := by
  refine h.bind fun a use huse => ?_
  subst huse
  exact hf a

/-- What begins with all combinations may be followed by anything. -/
theorem first {f : α → Gen σ β} (h : Refills g) : Refills (g >>= f) := by
  refine h.bind fun a use huse => ?_
  subst huse
  exact (any (f a)).mono fun _ _ _ => rfl

theorem look {f : Engine σ → Gen σ β} (hf : ∀ e nodes, f (e.withNodes nodes) = f e) (h : ∀ e, Forgets (f e) R) :
    Forgets (MonadState.get >>= f) R := by
  intro e b e' hrun nodes
  have hrun' : (MonadState.get >>= f).run (e.withNodes nodes) = (f (e.withNodes nodes)).run (e.withNodes nodes) := rfl
  rw [hrun', hf]
  exact h e hrun nodes

theorem ite {c : Prop} [Decidable c] (h : c → Forgets g Q) (h' : ¬ c → Forgets g' Q) :
    Forgets (if c then g else g') Q := by
  split
  · exact h ‹_›
  · exact h' ‹_›

/-! ## Primitives -/

theorem draw (act : Draw σ α) : Spares (Gen.draw act) := by
  intro e a e' hrun nodes
  refine ⟨.untouched, rfl, nodes, ?_⟩
  simp only [Gen.draw, Gen.run, Engine.withNodes] at hrun ⊢
  cases hact : act e.supply with
  | error fault =>
    rw [hact] at hrun
    cases hrun
  | ok r =>
    rw [hact] at hrun
    cases hrun
    rfl

theorem update {f : Engine σ → Engine σ} (hf : ∀ e nodes, f (e.withNodes nodes) = (f e).withNodes nodes) :
    Spares (modify f : Gen σ PUnit) := by
  rintro e _ _ ⟨⟩ nodes
  exact ⟨.untouched, rfl, nodes, congrArg (fun e => Except.ok (PUnit.unit, e)) (hf e nodes)⟩

theorem orFault (result : Except Fault α) : Spares (Gen.orFault result : Gen σ α) := by
  cases result with
  | ok a => exact .pure rfl
  | error fault => exact .stop

theorem report (event : Event) : Spares (Gen.report event : Gen σ Unit) := .update fun _ _ => rfl

theorem modifyScope (f : Scope → Scope) : Spares (Gen.modifyScope f : Gen σ Unit) := .update fun _ _ => rfl

/-- A change of the state that may fail, but whatever combinations are left. -/
theorem checked {f : Engine σ → Except Fault (Engine σ)}
    (hf : ∀ e nodes, f (e.withNodes nodes) = (f e).map (·.withNodes nodes)) :
    Spares (do set (← Gen.orFault (f (← get))) : Gen σ Unit) := by
  have hrun_eq (e : Engine σ) : (do set (← Gen.orFault (f (← get))) : Gen σ Unit).run e = (f e).map ((), ·) := by
    show (Gen.orFault (f e) >>= _).run e = _
    cases f e <;> rfl
  intro e _ e' hrun nodes
  refine ⟨.untouched, rfl, nodes, ?_⟩
  rw [hrun_eq] at hrun ⊢
  rw [hf]
  cases hfe : f e with
  | error fault =>
    rw [hfe] at hrun
    cases hrun
  | ok e₁ =>
    rw [hfe] at hrun
    cases hrun
    rfl

theorem openBlock : Spares (Gen.openBlock : Gen σ Unit) := checked fun e nodes => by
  unfold Engine.enter Engine.withNodes
  split <;> rfl

theorem closeBlock : Spares (Gen.closeBlock : Gen σ Unit) := checked fun e nodes => by
  unfold Engine.leave Engine.withNodes
  split
  · rfl
  · cases e.scope.exit <;> rfl

/-- A frame around a computation leaves the combinations alone. -/
theorem nested (h : Forgets g Q) : Forgets (Gen.nested g) Q := by
  refine after .openBlock fun _ => h.bind fun a use ha => ?_
  refine after .closeBlock fun _ => .pure ?_
  cases use <;> exact ha

theorem chance [RandomSource σ] (p : Probability) : Spares (Gen.chance p : Gen σ Bool) := .draw _

end Forgets

end Gen

/-! ## Types, names and counts -/

variable [RandomSource σ] {p : Profile}

namespace Gen.Forgets

theorem dimension : Spares (Gen.dimension p : Gen σ Nat) := .draw _

theorem kind : Spares (Gen.kind : Gen σ Kind) := after (.draw _) fun _ => .pure rfl

theorem vectorTy : Spares (Gen.vectorTy p : Gen σ Ty) :=
  after .kind fun _ => after .dimension fun _ => .orFault _

theorem matrixTy : Spares (Gen.matrixTy p : Gen σ Ty) :=
  after .kind fun _ => after .dimension fun _ => after .dimension fun _ => .orFault _

theorem ty (allowRecords : Bool) : Spares (Gen.ty p allowRecords : Gen σ Ty) := by
  unfold Gen.ty
  refine after (.chance _) fun _ => .ite (fun _ => .draw _) fun _ => ?_
  refine after (.chance _) fun _ => .ite (fun _ => .vectorTy) fun _ => ?_
  refine after (.chance _) fun _ => .ite (fun _ => .ite (fun _ => ?_) fun _ => .matrixTy) fun _ => .matrixTy
  refine look (fun _ _ => rfl) fun e => after (.draw _) fun found => ?_
  cases found with
  | none => exact .matrixTy
  | some record => exact .pure rfl

theorem tensorTy (vector : Probability) : Spares (Gen.tensorTy p vector : Gen σ Ty) :=
  after .kind fun _ => after (.chance _) fun _ => .ite (fun _ => after .dimension fun _ => .orFault _)
    fun _ => after .dimension fun _ => after .dimension fun _ => .orFault _

theorem freeName (ty : Ty) : Spares (Gen.freeName ty : Gen σ String) := look (fun _ _ => rfl) fun _ => .draw _

end Gen.Forgets

/-- An expression begins with all its combinations. -/
theorem Expr.generate_refills (ty : Ty) : Gen.Refills (Expr.generate p ty : Gen σ Expr) := by
  refine .first ?_
  rintro e _ _ ⟨⟩ nodes
  exact ⟨.refilled, rfl, rfl⟩

/-! ## Statements -/

/-- The computation uses the combinations left before it as its statement says. -/
abbrev Stmt.Budgeted (g : Gen σ Stmt) : Prop := Gen.Forgets g fun stmt use => stmt.budgetUse.Covers use

namespace Stmt.Budgeted

open Gen
open Gen.Forgets (after look)

omit [RandomSource σ] in
theorem of_refills {g : Gen σ Stmt} (h : Refills g) : Budgeted g := by
  refine h.mono fun stmt use huse => ?_
  subst huse
  exact BudgetUse.Covers.refilled _

theorem drawValueOf (ty : Ty) : Budgeted (Stmt.drawValueOf p ty : Gen σ Stmt) :=
  of_refills (.first (Expr.generate_refills ty))

theorem drawValue : Budgeted (Stmt.drawValue p : Gen σ Stmt) := after (.ty true) drawValueOf

theorem drawVariable : Budgeted (Stmt.drawVariable p : Gen σ Stmt) :=
  after (.ty true) fun ty => after (.freeName ty) fun _ => after (.draw _) fun _ => after (.modifyScope _) fun _ =>
    .pure (BudgetUse.Covers.refl _)

/-- An assignment to a part of a variable begins with an expression. -/
theorem drawProjection (name : String) (ty : Ty) :
    Forgets (Stmt.drawProjection p name ty : Gen σ (Option Assignment)) fun found use =>
      found = none ∧ use = .untouched ∨ use = .refilled := by
  have hnone : Forgets (Pure.pure none : Gen σ (Option Assignment)) fun found use =>
      found = none ∧ use = .untouched ∨ use = .refilled := .pure (.inl ⟨rfl, rfl⟩)
  have hrefills {g : Gen σ (Option Assignment)} (h : Refills g) :
      Forgets g fun found use => found = none ∧ use = .untouched ∨ use = .refilled := h.mono fun _ _ => .inr
  unfold Stmt.drawProjection
  cases ty with
  | record id =>
    refine after (.chance _) fun _ => .ite (fun _ => ?_) fun _ => hnone
    refine look (fun _ _ => rfl) fun e => after (.draw _) fun found => ?_
    cases found with
    | none => exact hnone
    | some field => exact hrefills (.first (Expr.generate_refills field.ty))
  | vector kind length =>
    refine after (.chance _) fun _ => .ite (fun _ => ?_) fun _ => hnone
    exact hrefills (.first (Expr.generate_refills .int))
  | matrix kind rows cols =>
    refine after (.chance _) fun _ => .ite (fun _ => ?_) fun _ => hnone
    exact hrefills (.first (Expr.generate_refills .int))
  | _ => exact hnone

theorem drawAssignment (name : String) (ty : Ty) (projections : Bool) :
    Refills (Stmt.drawAssignment p name ty projections : Gen σ Assignment) := by
  have hplain : Refills (do return ⟨.variable name, ← Expr.generate p ty⟩ : Gen σ Assignment) :=
    .first (Expr.generate_refills ty)
  refine .ite (fun _ => (drawProjection name ty).bind fun found use huse => ?_) fun _ => hplain
  rcases huse with ⟨rfl, rfl⟩ | rfl
  · exact hplain
  · exact (Forgets.any _).mono fun _ _ _ => rfl

theorem drawAssignOrCall : Budgeted (Stmt.drawAssignOrCall p : Gen σ Stmt) := by
  refine look (fun _ _ => rfl) fun e => after (.draw _) fun found => ?_
  cases found with
  | none => exact after (.report _) fun _ => drawVariable
  | some b =>
    refine .ite (fun _ => ?_) fun _ => of_refills (.first (drawAssignment b.name b.ty true))
    cases hparams : b.params with
    | nil =>
      rw [show Expr.callAt p 0 b.name [] = (Pure.pure (.call b.name []) : Gen σ Expr) from rfl]
      exact .pure (BudgetUse.Covers.refl _)
    | cons param params =>
      -- The arguments go on with what is left over, so all that counts is that there are some.
      refine (Forgets.unknown (.of_keeps fun _ => Expr.callAt_quiet 0 b.name _)).bind fun x use hx => ?_
      obtain ⟨⟨args, rfl, hlength, -⟩, rfl⟩ := hx
      cases args with
      | nil => cases hlength
      | cons arg args => exact .pure trivial

omit [RandomSource σ] in
theorem times {g : Gen σ Stmt} (h : Budgeted g) (n : Nat) :
    Forgets (Gen.times g n) fun stmts use => (budgetUses stmts).Covers use := by
  induction n with
  | zero => exact .pure (BudgetUse.Covers.refl _)
  | succ n ih =>
    refine h.bind fun stmt use hstmt => ih.bind fun stmts next hstmts => .pure ?_
    rw [BudgetUse.followedBy_untouched]
    exact hstmt.followedBy hstmts

/-- What is iterated is an existing binding or a new expression. -/
theorem drawIteration (existing : Option Binding) :
    Forgets (Stmt.drawIteration p existing : Gen σ Iteration) fun it use =>
      (∃ name, it.collection = .name name) ∧ use = .untouched ∨ use = .refilled := by
  have hnew : Forgets (do
      let ty ← tensorTy p (.ratio 7 10)
      let collection ← Expr.generate p ty
      return ⟨false, ty.elementTy, collection⟩ : Gen σ Iteration) fun it use =>
      (∃ name, it.collection = .name name) ∧ use = .untouched ∨ use = .refilled :=
    after (.tensorTy _) fun ty => (Forgets.first (Expr.generate_refills ty)).mono fun _ _ => .inr
  cases existing with
  | none => exact hnew
  | some source =>
    refine after (.chance _) fun _ => .ite (fun _ => ?_) fun _ => hnew
    refine .ite (fun _ => after (.chance _) fun _ => ?_) fun _ => ?_
    · exact .pure (.inl ⟨⟨source.name, rfl⟩, rfl⟩)
    · exact .pure (.inl ⟨⟨source.name, rfl⟩, rfl⟩)

theorem drawLoop (deeper : Gen σ Stmt) : Budgeted (Stmt.drawLoop p deeper) := by
  refine look (fun _ _ => rfl) fun e => after (.draw _) fun counter => ?_
  refine look (fun _ _ => rfl) fun e => after (.draw _) fun update => ?_
  have hnone : Budgeted (do report .noLoopVariable; Stmt.drawVariable p : Gen σ Stmt) :=
    after (.report _) fun _ => drawVariable
  cases counter with
  | none => exact hnone
  | some counter =>
    cases update with
    | none => exact hnone
    | some update => exact of_refills (.first (drawAssignment counter.name counter.ty false))

section
variable {deeper : Gen σ Stmt} (hdeeper : Budgeted deeper)
include hdeeper

theorem drawBlock : Budgeted (Stmt.drawBlock p deeper) := by
  refine (Forgets.nested (after (.draw _) fun n => hdeeper.times n)).bind fun body use hbody => .pure ?_
  rw [BudgetUse.followedBy_untouched]
  exact hbody

/-- If an existing binding is iterated, the body is what uses the combinations first. -/
theorem drawForeach : Budgeted (Stmt.drawForeach p deeper) := by
  refine look (fun _ _ => rfl) fun e => after (.draw _) fun existing => .nested ?_
  refine (drawIteration existing).bind fun it use hit => ?_
  refine after (.freeName _) fun name => after (.draw _) fun spelled => after (.modifyScope _) fun _ => ?_
  refine hdeeper.bind fun body next hbody => .pure ?_
  rw [BudgetUse.followedBy_untouched]
  rcases hit with ⟨⟨source, hsource⟩, rfl⟩ | rfl
  · rw [hsource]
    exact hbody
  · exact BudgetUse.Covers.refilled _

theorem ofKind (kind : StmtKind) : Budgeted (Stmt.ofKind p deeper kind) := by
  cases kind with
  | value => exact drawValue
  | «variable» => exact drawVariable
  | conditional => exact of_refills (.first (Expr.generate_refills .bool))
  | block => exact drawBlock hdeeper
  | assignOrCall => exact drawAssignOrCall
  | switch => exact of_refills (.first (Expr.generate_refills .int))
  | loop => exact drawLoop deeper
  | foreach => exact drawForeach hdeeper

end

theorem withLevels (levels : Nat) : Budgeted (Stmt.withLevels p levels : Gen σ Stmt) := by
  induction levels with
  | zero => exact after (after (.draw _) fun _ => .pure rfl) fun kind => ofKind drawVariable kind
  | succ levels ih => exact after (after (.draw _) fun _ => .pure rfl) fun kind => ofKind ih kind

theorem generate : Budgeted (Stmt.generate p : Gen σ Stmt) := look (fun _ _ => rfl) fun _ => withLevels _

end Stmt.Budgeted

namespace Stmt

/-- The ways to generate a statement. -/
inductive Producer (p : Profile) : Gen σ Stmt → Prop
  | any : Producer p (generate p)
  | ofKind (kind : StmtKind) : Producer p (ofKind p (generate p) kind)
  | valueOf (ty : Ty) : Producer p (drawValueOf p ty)

/-- From two states that differ in the combinations left at most, the same statement is generated, by the same draws
and with the same declarations, unless it begins with an argument of a call statement. -/
theorem generated_alike {g : Gen σ Stmt} (hg : Producer p g) {e e' : Engine σ} {stmt : Stmt}
    (hrun : g.run e = .ok (stmt, e')) (hstmt : stmt.budgetUse ≠ .leftover) (nodes : Nat) :
    ∃ nodes', g.run (e.withNodes nodes) = .ok (stmt, e'.withNodes nodes') := by
  have hbudgeted : Budgeted g := by
    cases hg with
    | any => exact .generate
    | ofKind kind => exact .ofKind .generate kind
    | valueOf ty => exact .drawValueOf ty
  obtain ⟨use, hcovers, hsame⟩ := hbudgeted hrun nodes
  cases use with
  | untouched => exact hsame
  | refilled => exact ⟨e'.nodesLeft, hsame⟩
  | leftover => cases huse : stmt.budgetUse <;> simp_all [BudgetUse.Covers]

/-- A truth value that is declared where a run of the default profile begins, and where no combination is left. -/
theorem generated_alike_start : ∃ stmt e' nodes',
    (drawValueOf {} .bool).run (Engine.start {} (⟨Repeating.mk 0, fun _ => 1⟩ : Supply Repeating)) = .ok (stmt, e') ∧
      stmt.budgetUse ≠ .leftover ∧
      (drawValueOf {} .bool).run ((Engine.start {} (⟨Repeating.mk 0, fun _ => 1⟩ : Supply Repeating)).withNodes 0) =
        .ok (stmt, e'.withNodes nodes') := by
  have hvalid := Engine.start_valid {} (⟨Repeating.mk 0, fun _ => 1⟩ : Supply Repeating)
  have hsized : Ty.bool.Sized Registry.empty (Profile.dimensionBound {}) := trivial
  have hvalue : Gen.Threads .all _ _ _ _ :=
    (ModuleSetting.accepting (by decide) fun _ => by decide).drawValueOf hvalid hsized
  obtain ⟨stmt, e', hrun, -⟩ := (hvalue _ (.refl _)).exists_run Repeating.zero_steady
  have hstmt : stmt.budgetUse ≠ .leftover := by
    obtain ⟨⟩ := (drawValueOf_declares hvalid (.refl _) .bool).of_run hrun
    nofun
  obtain ⟨nodes', halike⟩ := generated_alike (.valueOf .bool) hrun hstmt 0
  exact ⟨stmt, e', nodes', hrun, hstmt, halike⟩

end Stmt

end TensorFuzz
