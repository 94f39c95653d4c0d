import TensorFuzz.Proofs.Expr.Occurrences
import TensorFuzz.Proofs.Module.Contents
import TensorFuzz.Proofs.Module.Soundness

/-!
# Sizes of vectors and matrices

Every dimension that a module declares lies between one and the bound of the profile, and so does every dimension that
a literal of a vector or a matrix has. Only the source of a slice may be larger: by five at most, for each of the slices
around it.
-/

namespace TensorFuzz

/-! ## Declared types -/

/-- The dimensions of the type lie between one and the bound. -/
def Ty.Within (bound : Nat) (ty : Ty) : Prop := ∀ n ∈ ty.dimensions, 1 ≤ n ∧ n ≤ bound

theorem Ty.Sized.within {records : Registry} {bound : Nat} {ty : Ty} (h : ty.Sized records bound) :
    ty.Within bound := by
  cases ty with
  | vector kind length => exact List.forall_mem_singleton.mpr h
  | matrix kind rows cols => exact List.forall_mem_cons.mpr ⟨h.1, List.forall_mem_singleton.mpr h.2⟩
  | _ => exact List.forall_mem_nil _

theorem Ty.elementTy_within (bound : Nat) (ty : Ty) : ty.elementTy.Within bound := by
  cases ty with
  | vector kind => cases kind <;> exact List.forall_mem_nil _
  | matrix kind => cases kind <;> exact List.forall_mem_nil _
  | _ => exact List.forall_mem_nil _

/-- The type is spelled with constants for dimensions between one and the bound. -/
def SpelledTy.Within (bound : Nat) (spelled : SpelledTy) : Prop := ∃ ty, spelled.Spells ty ∧ ty.Within bound

/-! ## Statements -/

open Gen

variable {σ : Type} [RandomSource σ] {p : Profile}

/-- The types that a statement declares have dimensions between one and the bound. -/
abbrev Stmt.DeclaresWithin (bound : Nat) (stmt : Stmt) : Prop := ∀ spelled ∈ stmt.declaredTypes, spelled.Within bound

namespace Gen.Returns

theorem ty (allowRecords : Bool) : Returns (Gen.ty p allowRecords : Gen σ Ty) (Ty.Within p.dimensionBound) :=
  of_keeps fun _ => (Keeps.ty p allowRecords).mono fun _ hty => hty.within

theorem spell {ty : Ty} {bound : Nat} (hty : ty.Within bound) :
    Returns (Gen.spell p ty : Gen σ SpelledTy) (SpelledTy.Within bound) :=
  of_keeps fun _ => (Keeps.spell p ty).mono fun _ hspelled => ⟨ty, hspelled, hty⟩

end Gen.Returns

namespace Stmt.DeclaresWithin

open Gen.Returns (after)

theorem drawValue : Returns (Stmt.drawValue p : Gen σ Stmt) (DeclaresWithin p.dimensionBound) :=
  (Returns.ty true).bind fun _ hty => after fun _ => after fun _ => (Returns.spell hty).bind fun _ hspelled =>
    after fun _ => .pure (List.forall_mem_singleton.mpr hspelled)

theorem drawVariable : Returns (Stmt.drawVariable p : Gen σ Stmt) (DeclaresWithin p.dimensionBound) :=
  (Returns.ty true).bind fun _ hty => after fun _ => (Returns.spell hty).bind fun _ hspelled =>
    after fun _ => .pure (List.forall_mem_singleton.mpr hspelled)

theorem drawAssignOrCall : Returns (Stmt.drawAssignOrCall p : Gen σ Stmt) (DeclaresWithin p.dimensionBound) := by
  refine after fun e => after fun found => ?_
  cases found with
  | none => exact after fun _ => drawVariable
  | some b =>
    refine .ite (fun _ => after fun x => ?_) fun _ => after fun _ => .pure (List.forall_mem_nil _)
    cases x <;> exact .pure (List.forall_mem_nil _)

/-- The entries of what is iterated are numbers. -/
theorem drawIteration (existing : Option Binding) :
    Returns (Stmt.drawIteration p existing : Gen σ Iteration) fun it => it.entryTy.Within p.dimensionBound := by
  have hnew : Returns (do
      let ty ← tensorTy p (.ratio 7 10)
      let collection ← Expr.generate p ty
      return ⟨false, ty.elementTy, collection⟩ : Gen σ Iteration) fun it => it.entryTy.Within p.dimensionBound :=
    after fun ty => after fun _ => .pure (ty.elementTy_within _)
  cases existing with
  | none => exact hnew
  | some source =>
    refine after fun _ => .ite (fun _ => ?_) fun _ => hnew
    have hentry := source.ty.elementTy_within p.dimensionBound
    exact .ite (fun _ => after fun _ => .pure hentry) fun _ => .pure hentry

theorem bodyTypes_of_forall {bound : Nat} {body : List Stmt} (h : ∀ stmt ∈ body, stmt.DeclaresWithin bound) :
    ∀ spelled ∈ Stmt.bodyTypes body, spelled.Within bound := by
  induction body with
  | nil => exact List.forall_mem_nil _
  | cons stmt body ih =>
    obtain ⟨hstmt, hbody⟩ := List.forall_mem_cons.mp h
    exact List.forall_mem_append.mpr ⟨hstmt, ih hbody⟩

theorem caseTypes_of_forall {bound : Nat} {cases : List Case}
    (h : ∀ case ∈ cases, ∃ label body, case = .mk label body ∧ body.DeclaresWithin bound) :
    ∀ spelled ∈ Stmt.caseTypes cases, spelled.Within bound := by
  induction cases with
  | nil => exact List.forall_mem_nil _
  | cons case cases ih =>
    obtain ⟨⟨label, body, rfl, hbody⟩, hcases⟩ := List.forall_mem_cons.mp h
    exact List.forall_mem_append.mpr ⟨hbody, ih hcases⟩

section
variable {deeper : Gen σ Stmt} (hdeeper : Returns deeper (DeclaresWithin p.dimensionBound))
include hdeeper

theorem drawConditional : Returns (Stmt.drawConditional p deeper) (DeclaresWithin p.dimensionBound) :=
  after fun _ => hdeeper.nested.bind fun _ hyes => after fun _ => .ite (fun _ => .pure hyes) fun _ =>
    hdeeper.nested.bind fun _ hno => .pure (List.forall_mem_append.mpr ⟨hyes, hno⟩)

theorem drawBlock : Returns (Stmt.drawBlock p deeper) (DeclaresWithin p.dimensionBound) :=
  (Returns.nested (after fun n => hdeeper.times n)).bind fun _ hbody => .pure (bodyTypes_of_forall hbody)

theorem drawSwitch : Returns (Stmt.drawSwitch p deeper) (DeclaresWithin p.dimensionBound) := by
  have hcase (label : SwitchLabel) : Returns (Stmt.drawCase p deeper label) fun case =>
      ∃ label body, case = .mk label body ∧ body.DeclaresWithin p.dimensionBound :=
    after fun label => hdeeper.nested.bind fun body hbody => .pure ⟨label, body, rfl, hbody⟩
  refine after fun scrutinee => after fun labels => ?_
  exact (Returns.mapM fun label _ => hcase label).bind fun cases hcases => .pure (caseTypes_of_forall hcases)

theorem drawLoop : Returns (Stmt.drawLoop p deeper) (DeclaresWithin p.dimensionBound) := by
  refine after fun e => after fun counter => after fun e => after fun update => ?_
  have hnone : Returns (do report .noLoopVariable; Stmt.drawVariable p : Gen σ Stmt)
      (DeclaresWithin p.dimensionBound) := after fun _ => drawVariable
  cases counter with
  | none => exact hnone
  | some counter =>
    cases update with
    | none => exact hnone
    | some update => exact after fun _ => after fun _ => after fun _ => hdeeper.nested.bind fun _ hbody => .pure hbody

theorem drawForeach : Returns (Stmt.drawForeach p deeper) (DeclaresWithin p.dimensionBound) := by
  refine after fun e => after fun existing => .nested ((drawIteration existing).bind fun it hit => ?_)
  refine after fun name => (Returns.spell hit).bind fun spelled hspelled => after fun _ => ?_
  exact hdeeper.bind fun body hbody => .pure (List.forall_mem_cons.mpr ⟨hspelled, hbody⟩)

theorem ofKind (kind : StmtKind) : Returns (Stmt.ofKind p deeper kind) (DeclaresWithin p.dimensionBound) := by
  cases kind with
  | value => exact drawValue
  | «variable» => exact drawVariable
  | conditional => exact drawConditional hdeeper
  | block => exact drawBlock hdeeper
  | assignOrCall => exact drawAssignOrCall
  | switch => exact drawSwitch hdeeper
  | loop => exact drawLoop hdeeper
  | foreach => exact drawForeach hdeeper

end

theorem withLevels (levels : Nat) :
    Returns (Stmt.withLevels p levels : Gen σ Stmt) (DeclaresWithin p.dimensionBound) := by
  induction levels with
  | zero => exact after fun kind => ofKind drawVariable kind
  | succ levels ih => exact after fun kind => ofKind ih kind

theorem generate : Returns (Stmt.generate p : Gen σ Stmt) (DeclaresWithin p.dimensionBound) :=
  after fun _ => withLevels _

theorem several (range : Range) : Returns (Stmt.several p range : Gen σ (List Stmt)) fun body =>
    ∀ spelled ∈ Stmt.bodyTypes body, spelled.Within p.dimensionBound :=
  after fun n => (generate.times n).mono fun _ => bodyTypes_of_forall

end Stmt.DeclaresWithin

/-! ## Items -/

namespace Module

open Gen.Returns (after)

/-- The types that an item declares have dimensions between one and the bound. -/
abbrev DeclaresWithin (bound : Nat) (item : Item) : Prop := ∀ spelled ∈ item.declaredTypes, spelled.Within bound

theorem drawMain_returns : Returns (drawMain p : Gen σ Item) (DeclaresWithin p.dimensionBound) := by
  refine after fun _ => after fun _ => .nested ((Stmt.DeclaresWithin.several _).bind fun body hbody => .pure ?_)
  exact List.forall_mem_cons.mpr ⟨⟨.void, .plain rfl, List.forall_mem_nil _⟩, hbody⟩

theorem drawParameter_returns {ty : Ty} (hty : ty.Within p.dimensionBound) :
    Returns (drawParameter p ty : Gen σ Parameter) fun param => param.ty.Within p.dimensionBound :=
  after fun _ => (Returns.spell hty).bind fun _ hspelled => after fun _ => .pure hspelled

theorem drawFunction_returns : Returns (drawFunction p : Gen σ Item) (DeclaresWithin p.dimensionBound) := by
  rw [drawFunction_eq]
  have hreturn : Returns (drawReturnTy p : Gen σ Ty) (Ty.Within p.dimensionBound) :=
    after fun _ => .ite (fun _ => .ty true) fun _ => .pure (List.forall_mem_nil _)
  refine hreturn.bind fun ty hty => after fun name => after fun count => ?_
  refine ((Returns.ty true).times count).bind fun paramTys hparamTys => after fun _ => after fun _ => ?_
  refine (Returns.spell hty).bind fun spelled hspelled => .nested ?_
  refine (Returns.mapM fun ty hty => drawParameter_returns (hparamTys ty hty)).bind fun params hparams => ?_
  refine (Stmt.DeclaresWithin.several _).bind fun body hbody => after fun result => .pure ?_
  exact List.forall_mem_cons.mpr ⟨hspelled, List.forall_mem_append.mpr ⟨List.forall_mem_map.mpr hparams, hbody⟩⟩

theorem drawRecord_returns : Returns (drawRecord p : Gen σ Item) (DeclaresWithin p.dimensionBound) := by
  have hfield : Returns (drawField p : Gen σ (Field × FieldDecl)) fun part => part.2.ty.Within p.dimensionBound :=
    (Returns.ty false).bind fun _ hty => after fun _ => after fun _ => after fun _ =>
      (Returns.spell hty).bind fun _ hspelled => .pure hspelled
  refine after fun id => after fun count => after fun _ => (hfield.times count).bind fun parts hparts => ?_
  refine after fun e => after fun scope => after fun _ => after fun _ => .pure ?_
  show ∀ spelled ∈ (parts.map (·.2)).map (·.ty), spelled.Within p.dimensionBound
  rw [List.map_map]
  exact List.forall_mem_map.mpr hparts

theorem drawEarlyMain_returns (hasMain : Bool) :
    Returns (drawEarlyMain p hasMain : Gen σ (List Item)) fun items =>
      ∀ item ∈ items, DeclaresWithin p.dimensionBound item := by
  refine .ite (fun _ => .pure (List.forall_mem_nil _)) fun _ => after fun _ => .ite (fun _ => ?_) fun _ => ?_
  · exact drawMain_returns.bind fun _ h => .pure (List.forall_mem_singleton.mpr h)
  · exact .pure (List.forall_mem_nil _)

theorem drawItems_returns (hasMain : Bool) (count : Nat) :
    Returns (drawItems p hasMain count : Gen σ (List Item)) fun items =>
      ∀ item ∈ items, DeclaresWithin p.dimensionBound item := by
  induction count generalizing hasMain with
  | zero =>
    refine .ite (fun _ => .pure (List.forall_mem_nil _)) fun _ => ?_
    exact drawMain_returns.bind fun _ h => .pure (List.forall_mem_singleton.mpr h)
  | succ count ih =>
    have hitem : Returns (drawItem p : Gen σ Item) (DeclaresWithin p.dimensionBound) :=
      after fun _ => .ite (fun _ => drawFunction_returns) fun _ => drawRecord_returns
    rw [drawItems_succ]
    refine (drawEarlyMain_returns hasMain).bind fun early hearly => hitem.bind fun item hitem => ?_
    refine (ih _).bind fun items hitems => .pure ?_
    exact List.forall_mem_append.mpr ⟨hearly, List.forall_mem_cons.mpr ⟨hitem, hitems⟩⟩

theorem generate_returns : Returns (generate p : Gen σ (List Item)) fun items =>
    ∀ item ∈ items, DeclaresWithin p.dimensionBound item :=
  after fun _ => (drawItems_returns _ _).bind fun _ h => after fun _ => after fun _ => .pure h

/-! ## Expressions -/

/-- What an expression of a module has to be, where only the lengths of its list literals matter. -/
def ListsHold (p : Profile) : Registry → Holding :=
  fun _ _ _ x => x.ListsBounded p.dimensionBound p.maxExprDepth

theorem listsBounded_name (bound depth : Nat) (name : String) : (Expr.name name).ListsBounded bound depth := by
  intro slices items hitems
  cases hitems with
  | source hz => cases hz
  | part hz => cases hz

theorem listSetting : ModuleSetting p .none (fun _ => True) (ListsHold p) (Engine.Valid p (σ := σ)) (Engine.Valid p)
    (fun _ => True) fun _ => True := by
  refine .ofValid (fun hsafe _ => hsafe.elim) (fun hvalid hty => ?_) (fun hvalid hb => ?_)
    fun _ _ _ => listsBounded_name _ _ _
  · exact (Expr.generate_drawn _).mono fun x hx => hx.listsBounded hvalid (Nat.le_refl _) hty
  · refine (Expr.callAt_drawn 0 _ _).mono fun x hx => ?_
    obtain ⟨args, rfl, hlength, hargs⟩ := hx
    refine ⟨args, rfl, hlength, fun part hpart slices items hitems => ?_⟩
    have hparam := (hvalid.visible hb).params _ (List.of_mem_zip hpart).2
    obtain ⟨hslices, hle⟩ := (hargs part hpart).listsBounded hvalid (Nat.le_refl _) hparam hitems
    exact ⟨by omega, hle⟩

/-- Whatever the words are, a module declares types with dimensions between one and the bound only, and the dimensions
of its literals of vectors and matrices lie there too, but for five more for each slice around a literal. -/
theorem sizes_bounded (supply : Supply σ) {items : List Item} {e : Engine σ} (hrun : run p supply = .ok (items, e)) :
    ∀ item ∈ items, (∀ spelled ∈ item.declaredTypes, spelled.Within p.dimensionBound) ∧
      ∀ x ∈ item.expressions, x.ListsBounded p.dimensionBound p.maxExprDepth := by
  have hvalid := Engine.start_valid p supply
  have hgives := (listSetting (p := p)).generate hvalid (canHoldBody_always _) trivial fun _ _ => trivial
  obtain ⟨-, -, htyped⟩ := hgives.of_run hrun
  intro item hitem
  refine ⟨generate_returns hrun item hitem, fun x hx => ?_⟩
  obtain ⟨_, _, _, hbounded⟩ := htyped.expressions item hitem x hx
  exact hbounded

/-- The sample declares a vector of two entries, and has a literal of three. -/
theorem sizes_bounded_sample : ∃ items e, sample = .ok (items, e) ∧
    ∀ item ∈ items, (∀ spelled ∈ item.declaredTypes, spelled.Within 6) ∧
      ∀ x ∈ item.expressions, x.ListsBounded 6 2 := by
  obtain ⟨⟨items, e⟩, hrun, -⟩ := exists_of_toOption_map sample_text
  exact ⟨items, e, hrun, sizes_bounded _ hrun⟩

end Module

end TensorFuzz
