import TensorFuzz.Proofs.Stmt.Frames

/-!
# Nested statements

A statement with bodies is drawn only where a level is left for them, and its bodies are generated with a level less.
So the statements in one another are no more than the levels that are left around them. The levels that are left are
those from the statement level of the state to the deepest one, which is what each statement goes by.
-/

namespace TensorFuzz

open Gen
open Gen.Returns (after)

variable {σ : Type} {α β : Type}

namespace Gen

/-- From a state at the statement level, the computation leads to such a state again. -/
abbrev AtLevel (depth : Nat) (g : Gen σ α) (P : α → Prop) : Prop := Upholds (fun e => e.stmtDepth = depth) g P

namespace AtLevel

variable {depth : Nat} {g : Gen σ α} {P : α → Prop}

/-- What declares nothing stays at the statement level. -/
theorem quietly [RandomSource σ] {P : Engine σ → α → Prop} (h : ∀ e, Keeps .none e g (P e)) :
    AtLevel depth g fun _ => True :=
  Upholds.of_keeps (fun _ _ hdepth he => he.stmtDepth.trans hdepth) fun e _ => (h e).mono fun _ _ => trivial

theorem rescope (f : Scope → Scope) : AtLevel depth (modifyScope f : Gen σ PUnit) fun _ => True :=
  Upholds.update fun _ => id

/-- A block is generated one statement level deeper. -/
theorem nested (h : AtLevel (depth + 1) g P) : AtLevel depth (Gen.nested g) P := by
  rintro e a e' rfl hrun
  obtain ⟨-, e₁, hg, hclose⟩ := exists_of_run_nested hrun
  obtain ⟨-, scope, -, rfl⟩ := run_closeBlock_iff.mp hclose
  obtain ⟨hinner, ha⟩ := h rfl hg
  refine ⟨?_, ha⟩
  show e₁.stmtDepth - 1 = e.stmtDepth
  omega

end AtLevel

/-- From the states at the statement level, the two computations run alike. -/
def AlikeAt (depth : Nat) (g g' : Gen σ α) : Prop := ∀ e : Engine σ, e.stmtDepth = depth → g.run e = g'.run e

namespace AlikeAt

variable {depth : Nat} {g g' : Gen σ α} {P : α → Prop}

theorem bind {f f' : α → Gen σ β} (h : AlikeAt depth g g') (hg : AtLevel depth g P)
    (hf : ∀ a, P a → AlikeAt depth (f a) (f' a)) : AlikeAt depth (g >>= f) (g' >>= f') := by
  intro e he
  rw [run_bind, run_bind, ← h e he]
  cases hrun : g.run e with
  | error fault => rfl
  | ok r =>
    obtain ⟨hr, ha⟩ := hg he hrun
    exact hf r.1 ha r.2 hr

theorem look {f f' : Engine σ → Gen σ α} (hf : ∀ e, AlikeAt depth (f e) (f' e)) :
    AlikeAt depth (MonadState.get >>= f) (MonadState.get >>= f') :=
  fun e he => hf e e he

/-- Both begin with the same. -/
theorem after {f f' : α → Gen σ β} (hg : AtLevel depth g P) (hf : ∀ a, P a → AlikeAt depth (f a) (f' a)) :
    AlikeAt depth (g >>= f) (g >>= f') :=
  bind (fun _ _ => rfl) hg hf

theorem nested (h : AlikeAt (depth + 1) g g') : AlikeAt depth (Gen.nested g) (Gen.nested g') := by
  intro e he
  unfold Gen.nested
  rw [run_bind, run_bind]
  cases hopen : openBlock.run e with
  | error fault => rfl
  | ok r =>
    have hopened : r.2.stmtDepth = depth + 1 := by rw [(run_openBlock_iff.mp hopen).2, Engine.opened_stmtDepth, he]
    show (g >>= _).run r.2 = (g' >>= _).run r.2
    rw [run_bind, run_bind, h r.2 hopened]

theorem times (h : AlikeAt depth g g') (hg : AtLevel depth g P) (n : Nat) :
    AlikeAt depth (Gen.times g n) (Gen.times g' n) := by
  induction n with
  | zero => exact fun _ _ => rfl
  | succ n ih => exact h.bind hg fun a _ => ih.bind (hg.times n) fun as _ _ _ => rfl

theorem mapM {f f' : β → Gen σ α} {xs : List β} (h : ∀ x, AlikeAt depth (f x) (f' x))
    (hf : ∀ x, AtLevel depth (f x) P) : AlikeAt depth (xs.mapM f) (xs.mapM f') := by
  induction xs with
  | nil => exact fun _ _ => rfl
  | cons x xs ih =>
    rw [List.mapM_cons, List.mapM_cons]
    exact (h x).bind (hf x) fun a _ => ih.bind (Upholds.mapM fun x _ => hf x) fun as _ _ _ => rfl

end AlikeAt

end Gen

open Gen.AtLevel (quietly rescope)

namespace Stmt

mutual

/-- The length of the longest chain of statements with bodies, each nested in the one before. -/
def nesting : Stmt → Nat
  | declareValue .. | declareVariable .. | assign _ | call .. => 0
  | conditional _ yes => yes.nesting + 1
  | alternative _ yes no => max yes.nesting no.nesting + 1
  | block body => bodyNesting body + 1
  | switch _ cases => caseNesting cases + 1
  | loop _ _ _ body => body.nesting + 1
  | foreach _ _ _ _ body => body.nesting + 1

def bodyNesting : List Stmt → Nat
  | [] => 0
  | stmt :: stmts => max stmt.nesting (bodyNesting stmts)

def caseNesting : List Case → Nat
  | [] => 0
  | .mk _ body :: cases => max body.nesting (caseNesting cases)

end

variable {levels : Nat}

theorem bodyNesting_le {body : List Stmt} (h : ∀ stmt ∈ body, stmt.nesting ≤ levels) : bodyNesting body ≤ levels := by
  induction body with
  | nil => exact Nat.zero_le _
  | cons stmt body ih =>
    obtain ⟨hstmt, hbody⟩ := List.forall_mem_cons.mp h
    exact Nat.max_le.mpr ⟨hstmt, ih hbody⟩

theorem caseNesting_le {cases : List Case}
    (h : ∀ case ∈ cases, ∃ label body, case = .mk label body ∧ body.nesting ≤ levels) : caseNesting cases ≤ levels := by
  induction cases with
  | nil => exact Nat.zero_le _
  | cons case cases ih =>
    obtain ⟨⟨label, body, rfl, hbody⟩, hcases⟩ := List.forall_mem_cons.mp h
    exact Nat.max_le.mpr ⟨hbody, ih hcases⟩

/-- The results are statements that nest no deeper than the levels. -/
abbrev NestsWithin (levels : Nat) (g : Gen σ Stmt) : Prop := Returns g (·.nesting ≤ levels)

theorem NestsWithin.more {g : Gen σ Stmt} (h : NestsWithin 0 g) : NestsWithin levels g :=
  h.mono fun _ hstmt => Nat.le_trans hstmt (Nat.zero_le _)

variable [RandomSource σ] {p : Profile}

/-! ## Statements without bodies -/

theorem drawValue_nests : NestsWithin 0 (drawValue p : Gen σ Stmt) :=
  after fun _ => after fun _ => after fun _ => after fun _ => after fun _ => .pure (Nat.le_refl 0)

theorem drawVariable_nests : NestsWithin 0 (drawVariable p : Gen σ Stmt) :=
  after fun _ => after fun _ => after fun _ => after fun _ => .pure (Nat.le_refl 0)

theorem drawAssignOrCall_nests : NestsWithin 0 (drawAssignOrCall p : Gen σ Stmt) := by
  refine after fun e => after fun found => ?_
  cases found with
  | none => exact after fun _ => drawVariable_nests
  | some b =>
    refine .ite (fun _ => after fun x => ?_) fun _ => after fun _ => .pure (Nat.le_refl 0)
    cases x <;> exact .pure (Nat.le_refl 0)

/-- A kind without a body asks nothing of what bodies are generated by. -/
theorem ofFlatKind_nests (deeper : Gen σ Stmt) {kind : StmtKind} (hkind : kind ∈ flatKinds) :
    NestsWithin 0 (ofKind p deeper kind) := by
  simp only [flatKinds, List.mem_cons, List.not_mem_nil, or_false] at hkind
  rcases hkind with rfl | rfl | rfl | rfl | rfl
  · exact drawValue_nests
  · exact drawValue_nests
  · exact drawVariable_nests
  · exact drawVariable_nests
  · exact drawAssignOrCall_nests

/-! ## Statements with bodies -/

section
variable {deeper : Gen σ Stmt} (hdeeper : NestsWithin levels deeper)
include hdeeper

theorem drawConditional_nests : NestsWithin (levels + 1) (drawConditional p deeper) := by
  refine after fun condition => hdeeper.nested.bind fun yes hyes => after fun _ => ?_
  refine .ite (fun _ => .pure (Nat.succ_le_succ hyes)) fun _ => hdeeper.nested.bind fun no hno => .pure ?_
  exact Nat.succ_le_succ (Nat.max_le.mpr ⟨hyes, hno⟩)

theorem drawBlock_nests : NestsWithin (levels + 1) (drawBlock p deeper) := by
  have hbody : Returns (Gen.nested (do times deeper (← countIn p.blockBody))) fun body =>
      ∀ stmt ∈ body, stmt.nesting ≤ levels := Returns.nested (after fun n => hdeeper.times n)
  exact hbody.bind fun body hbody => .pure (Nat.succ_le_succ (bodyNesting_le hbody))

theorem drawSwitch_nests : NestsWithin (levels + 1) (drawSwitch p deeper) := by
  have hcase (label : SwitchLabel) : Returns (drawCase p deeper label) fun case =>
      ∃ label body, case = .mk label body ∧ body.nesting ≤ levels :=
    after fun label => hdeeper.nested.bind fun body hbody => .pure ⟨label, body, rfl, hbody⟩
  refine after fun scrutinee => after fun labels => ?_
  refine (Returns.mapM fun label _ => hcase label).bind fun cases hcases => .pure ?_
  exact Nat.succ_le_succ (caseNesting_le hcases)

theorem drawLoop_nests : NestsWithin (levels + 1) (drawLoop p deeper) := by
  have hfallback : NestsWithin (levels + 1) (do report .noLoopVariable; drawVariable p : Gen σ Stmt) :=
    after fun _ => drawVariable_nests.more
  refine after fun e => after fun counter => after fun e => after fun update => ?_
  cases counter with
  | none => exact hfallback
  | some counter =>
    cases update with
    | none => exact hfallback
    | some update =>
      refine after fun init => after fun condition => after fun step => ?_
      exact hdeeper.nested.bind fun body hbody => .pure (Nat.succ_le_succ hbody)

theorem drawForeach_nests : NestsWithin (levels + 1) (drawForeach p deeper) := by
  refine after fun e => after fun existing => .nested (after fun it => after fun name => ?_)
  refine after fun spelled => after fun _ => hdeeper.bind fun body hbody => .pure ?_
  exact Nat.succ_le_succ hbody

/-- A statement nests a level deeper than its bodies at most. -/
theorem ofKind_nests (kind : StmtKind) : NestsWithin (levels + 1) (ofKind p deeper kind) := by
  cases kind with
  | value => exact drawValue_nests.more
  | «variable» => exact drawVariable_nests.more
  | conditional => exact drawConditional_nests hdeeper
  | block => exact drawBlock_nests hdeeper
  | assignOrCall => exact drawAssignOrCall_nests.more
  | switch => exact drawSwitch_nests hdeeper
  | loop => exact drawLoop_nests hdeeper
  | foreach => exact drawForeach_nests hdeeper

end

/-! ## The levels that are left

`withLevels` counts the statement levels that are left. They are those from the level of the state to the deepest one
wherever a statement is drawn, so each statement is drawn as its state says.
-/

theorem GrowsAnywhere.level {g : Gen σ Stmt} (h : GrowsAnywhere g) (depth : Nat) : AtLevel depth g fun _ => True := by
  rintro e stmt e' rfl hrun
  exact ⟨((h e e (.refl e)).of_run hrun).2.2.1, trivial⟩

/-- A kind is drawn alike if its bodies are, which are drawn a statement level deeper. -/
theorem ofKind_alike {depth : Nat} {deeper deeper' : Gen σ Stmt} (h : AlikeAt (depth + 1) deeper deeper')
    (hlevel : AtLevel (depth + 1) deeper fun _ => True) (kind : StmtKind) :
    AlikeAt depth (ofKind p deeper kind) (ofKind p deeper' kind) := by
  have hbody : AlikeAt depth (nested deeper) (nested deeper') := h.nested
  have hstays : AtLevel depth (nested deeper) fun _ => True := hlevel.nested
  cases kind with
  | value | «variable» | assignOrCall => exact fun _ _ => rfl
  | conditional =>
    refine .after (quietly fun _ => Expr.generate_quiet .bool) fun condition _ => hbody.bind hstays fun yes _ => ?_
    refine .after (quietly fun _ => Keeps.chance _) fun alone _ => ?_
    cases alone with
    | true => exact fun _ _ => rfl
    | false => exact hbody.bind hstays fun no _ _ _ => rfl
  | block =>
    have hcount : AtLevel (depth + 1) (countIn p.blockBody : Gen σ Nat) fun _ => True := quietly fun _ => Keeps.countIn _
    have hstmts : AtLevel (depth + 1) (do times deeper (← countIn p.blockBody)) fun _ => True :=
      hcount.bind fun n _ => (hlevel.times n).mono fun _ _ => trivial
    exact (AlikeAt.after hcount fun n _ => h.times hlevel n).nested.bind hstmts.nested fun body _ _ _ => rfl
  | switch =>
    have hspelled (label : SwitchLabel) : AtLevel depth (spellLabel p label : Gen σ CaseLabel) fun _ => True := by
      cases label with
      | default => exact .pure trivial
      | case v => exact (quietly fun _ => Keeps.anyDraw _).bind fun _ _ => .pure trivial
    have hcase (label : SwitchLabel) : AtLevel depth (drawCase p deeper label) fun _ => True :=
      (hspelled label).bind fun _ _ => hstays.bind fun _ _ => .pure trivial
    refine .after (quietly fun _ => Expr.generate_quiet .int) fun scrutinee _ => ?_
    refine .after (quietly fun _ => drawSwitchLabels_keeps p) fun labels _ => ?_
    refine .bind (.mapM (fun label => ?_) hcase) (Upholds.mapM fun label _ => hcase label) fun cases _ _ _ => rfl
    exact .after (hspelled label) fun _ _ => hbody.bind hstays fun _ _ _ _ => rfl
  | loop =>
    refine .look fun e => .after (quietly fun _ => Keeps.pick? _) fun counter _ => ?_
    refine .look fun e => .after (quietly fun _ => Keeps.pick? _) fun update _ => ?_
    cases counter with
    | none => exact fun _ _ => rfl
    | some counter =>
      cases update with
      | none => exact fun _ _ => rfl
      | some update =>
        refine .after (quietly fun _ => drawAssignment_quiet counter.name counter.ty false) fun init _ => ?_
        refine .after (quietly fun _ => Expr.generate_quiet .bool) fun condition _ => ?_
        refine .after (quietly fun _ => drawAssignment_quiet update.name update.ty false) fun step _ => ?_
        exact hbody.bind hstays fun body _ _ _ => rfl
  | foreach =>
    refine .look fun e => .after (quietly fun _ => Keeps.pick? _) fun existing _ => .nested ?_
    refine .after (quietly fun _ => drawIteration_quiet existing) fun it _ => ?_
    refine .after (quietly fun _ => Keeps.freeName it.entryTy) fun name _ => ?_
    refine .after (quietly fun _ => Keeps.spell p it.entryTy) fun spelled _ => ?_
    exact .after (rescope _) fun _ _ => h.bind hlevel fun body _ _ _ => rfl

/-- A statement is drawn as the statement level of the state says: a kind with bodies only above the deepest level, and
its bodies in turn by the levels of their states. -/
theorem run_generate (e : Engine σ) :
    (generate p).run e = (do ofKind p (generate p) (← drawKind (decide (e.stmtDepth < p.maxStmtDepth)))).run e := by
  show (withLevels p (p.maxStmtDepth - e.stmtDepth)).run e = _
  cases hlevels : p.maxStmtDepth - e.stmtDepth with
  | zero =>
    rw [decide_eq_false (by omega)]
    have hkind : AtLevel e.stmtDepth (drawKind false : Gen σ StmtKind) (· ∈ flatKinds) :=
      Upholds.of_keeps (fun _ _ h he => he.stmtDepth.trans h) fun _ _ => Keeps.drawKind false
    refine AlikeAt.after hkind (fun kind hflat => ?_) e rfl
    simp only [flatKinds, List.mem_cons, List.not_mem_nil, or_false] at hflat
    rcases hflat with rfl | rfl | rfl | rfl | rfl <;> exact fun _ _ => rfl
  | succ levels =>
    rw [decide_eq_true (by omega)]
    refine AlikeAt.after (quietly fun _ => Keeps.drawKind true) (fun kind _ => ?_) e rfl
    refine ofKind_alike (fun e' he' => ?_) ((withLevels_grows levels).level _) kind
    show _ = (withLevels p (p.maxStmtDepth - e'.stmtDepth)).run e'
    rw [show p.maxStmtDepth - e'.stmtDepth = levels by omega]

/-! ## The kinds tied together -/

theorem withLevels_nests (levels : Nat) : NestsWithin levels (withLevels p levels : Gen σ Stmt) := by
  induction levels with
  | zero =>
    have hkind : Returns (drawKind false : Gen σ StmtKind) (· ∈ flatKinds) :=
      Returns.of_keeps fun _ => Keeps.drawKind false
    exact hkind.bind fun kind hkind => ofFlatKind_nests _ hkind
  | succ levels ih => exact after fun kind => ofKind_nests ih kind

/-- From a statement level on, statements nest no deeper than the levels to the deepest one, and end at the same
level. -/
theorem generate_nests (depth : Nat) :
    AtLevel depth (generate p : Gen σ Stmt) (·.nesting ≤ p.maxStmtDepth - depth) := by
  rintro e stmt e' rfl hrun
  exact ⟨(generate_grows.level _ rfl hrun).1, withLevels_nests _ hrun⟩

theorem several_nests (depth : Nat) (range : Range) :
    AtLevel depth (several p range : Gen σ (List Stmt)) (bodyNesting · ≤ p.maxStmtDepth - depth) := by
  refine (quietly fun _ => Keeps.countIn range).bind fun n _ => ?_
  exact ((generate_nests depth).times n).mono fun body hbody => bodyNesting_le hbody.2

end Stmt

end TensorFuzz
