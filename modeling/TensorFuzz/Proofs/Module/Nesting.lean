import TensorFuzz.Proofs.Module.Tidy
import TensorFuzz.Proofs.Stmt.Nesting

/-!
# The ceiling of statement levels

Blocks are opened up to the deepest statement level of the profile, but for the bodies of functions, which are opened in
any case. So no point of a run is deeper than that, and the statements of a body nest no deeper than the levels that
are left inside a function.
-/

namespace TensorFuzz

open Gen

variable {σ : Type} {α β : Type} {p : Profile}

/-! ## The ceiling -/

/-- The statement level is none below the deepest one, or it is that of the body of a function. -/
def Engine.UnderCeiling (p : Profile) (e : Engine σ) : Prop := e.stmtDepth ≤ max 1 p.maxStmtDepth

namespace Engine.UnderCeiling

variable {e e' : Engine σ}

theorem agrees (h : e.UnderCeiling p) (he : e.Agrees e') : e'.UnderCeiling p := by
  unfold Engine.UnderCeiling
  rw [he.stmtDepth]
  exact h

theorem opened (hopens : p.Opens e.stmtDepth) : e.opened.UnderCeiling p := by
  unfold Profile.Opens at hopens
  unfold Engine.UnderCeiling
  rw [Engine.opened_stmtDepth]
  omega

theorem closed (h : e.UnderCeiling p) (scope : Scope) : (e.closed scope).UnderCeiling p :=
  Nat.le_trans (Nat.sub_le _ _) h

end Engine.UnderCeiling

variable [RandomSource σ]

theorem ModuleSetting.ceiling (p : Profile) :
    ModuleSetting p .none p.Opens (fun _ _ _ _ => True)
      (fun e : Engine σ => (e.Tidy p ∧ e.Level) ∧ e.UnderCeiling p) (Engine.UnderCeiling p) (fun _ => True)
      fun scope => Module.entryName ∉ scope.currentNames := by
  have s := ModuleSetting.tidy (σ := σ) p fun _ => True
  exact {
    room := s.room
    valid := fun h => s.valid h.1
    agrees := fun h he => ⟨s.agrees h.1 he, h.2.agrees he⟩
    declared := fun h hb hvalue hfree => ⟨s.declared h.1 hb hvalue hfree, h.2⟩
    opened := fun h hopens => ⟨s.opened h.1 hopens, .opened hopens⟩
    closed := fun h houter => ⟨s.closed h.1 houter, h.2.closed _⟩
    expr := fun h => s.expr h.1
    call := fun h => s.call h.1
    name := fun h => s.name h.1
    within := fun h => h.2
    naming := fun h _ hframe _ => Nat.le_trans (Nat.le_of_eq hframe.stmtDepth) h.2
    function := fun h hb hf hfree hled => ⟨s.function h.1 hb hf hfree hled, h.2⟩
    record := fun h hshape hfree hled => ⟨s.record h.1 hshape hfree hled, h.2⟩
    entry := fun h hfree => ⟨s.entry h.1 hfree, h.2⟩
    free := s.free }

theorem Module.visits_underCeiling {supply : Supply σ} {e : Engine σ}
    (hvisits : Visits (generate p) (Engine.start p supply) e) : e.UnderCeiling p := by
  have htidy := Engine.start_tidy p supply
  have hgives := (ModuleSetting.ceiling p).generate ⟨⟨htidy, rfl⟩, Nat.zero_le _⟩ (canHoldBody_opens p)
    List.not_mem_nil fun _ _ => trivial
  exact hgives.of_visits (Nat.zero_le _) hvisits

/-! ## Bodies of functions -/

/-- The nesting of the statements in the body of a function. -/
def Item.nesting : Item → Nat
  | function f => Stmt.bodyNesting f.body
  | record .. => 0

namespace Module

open Gen.AtLevel (quietly rescope)

/-! ### Items -/

/-- The statements of a function are generated at the first level of a body. -/
theorem drawInside_nests (spelled : SpelledTy) (name : String) (ty : Ty) (paramTys : List Ty) :
    AtLevel 0 (drawInside p spelled name ty paramTys : Gen σ Item) (·.nesting ≤ p.maxStmtDepth - 1) := by
  refine AtLevel.nested ?_
  have hparam (ty : Ty) : AtLevel 1 (drawParameter p ty : Gen σ Parameter) fun _ => True := by
    refine (quietly fun _ => Keeps.freeName ty).bind fun name _ => ?_
    refine (quietly fun _ => Keeps.spell p ty).bind fun spelled _ => ?_
    exact (rescope _).bind fun _ _ => .pure trivial
  have hresult : AtLevel 1 (drawResult p ty : Gen σ (Option Expr)) fun _ => True :=
    .ite (fun _ => .pure trivial) fun _ => (quietly fun _ => Expr.generate_quiet ty).bind fun _ _ => .pure trivial
  refine (Upholds.mapM fun ty _ => hparam ty).bind fun params _ => ?_
  refine (Stmt.several_nests 1 p.functionBody).bind fun body hbody => ?_
  exact hresult.bind fun result _ => .pure hbody

theorem drawMain_nests : AtLevel 0 (drawMain p : Gen σ Item) (·.nesting ≤ p.maxStmtDepth - 1) := by
  refine (quietly fun _ => Keeps.report).bind fun _ _ => (rescope _).bind fun _ _ => ?_
  exact drawInside_nests (.plain .void) entryName .void []

theorem drawFunction_nests : AtLevel 0 (drawFunction p : Gen σ Item) (·.nesting ≤ p.maxStmtDepth - 1) := by
  rw [drawFunction_eq]
  refine (quietly fun _ => drawReturnTy_keeps p).bind fun ty _ => ?_
  refine (quietly fun _ => Keeps.freeFunctionName ty).bind fun name _ => ?_
  refine (quietly fun _ => Keeps.countIn _).bind fun count _ => ?_
  refine (quietly fun _ => (Keeps.ty p true).times count).bind fun paramTys _ => ?_
  refine (quietly fun _ => Keeps.report).bind fun _ _ => (rescope _).bind fun _ _ => ?_
  refine (quietly fun _ => Keeps.spell p ty).bind fun spelled _ => ?_
  exact drawInside_nests spelled name ty paramTys

theorem drawField_level : AtLevel 0 (drawField p : Gen σ (Field × FieldDecl)) fun _ => True := by
  refine (quietly fun _ => Keeps.ty p false).bind fun ty _ => (quietly fun _ => Keeps.freeName ty).bind fun name _ => ?_
  refine (rescope _).bind fun _ _ => (quietly fun _ => Keeps.coin).bind fun isMutable _ => ?_
  exact (quietly fun _ => Keeps.spell p ty).bind fun spelled _ => .pure trivial

theorem drawRecord_nests : AtLevel 0 (drawRecord p : Gen σ Item) (·.nesting ≤ p.maxStmtDepth - 1) := by
  refine (quietly fun _ => freeRecordName_keeps).bind fun id _ => ?_
  refine (quietly fun _ => Keeps.countIn _).bind fun count _ => ?_
  refine (rescope _).bind fun _ _ => (drawField_level.times count).bind fun parts _ => ?_
  refine .look fun e _ => .fallible fun scope _ => (rescope _).bind fun _ _ => ?_
  have hdefine : AtLevel 0 (defineRecord id (parts.map (·.1)) : Gen σ Unit) fun _ => True :=
    .look fun e he => .fallible fun records _ => (Upholds.put he).bind fun _ _ => quietly fun _ => Keeps.report
  exact hdefine.bind fun _ _ => .pure (Nat.zero_le _)

theorem drawItem_nests : AtLevel 0 (drawItem p : Gen σ Item) (·.nesting ≤ p.maxStmtDepth - 1) :=
  (quietly fun _ => Keeps.chance _).bind fun _ _ => .ite (fun _ => drawFunction_nests) fun _ => drawRecord_nests

theorem drawEarlyMain_nests (hasMain : Bool) :
    AtLevel 0 (drawEarlyMain p hasMain : Gen σ (List Item)) fun early =>
      ∀ item ∈ early, item.nesting ≤ p.maxStmtDepth - 1 := by
  refine .ite (fun _ => .pure (List.forall_mem_nil _)) fun _ => (quietly fun _ => Keeps.chance _).bind fun _ _ => ?_
  refine .ite (fun _ => ?_) fun _ => .pure (List.forall_mem_nil _)
  exact drawMain_nests.bind fun main hmain => .pure (List.forall_mem_singleton.mpr hmain)

/-! ### Modules -/

theorem drawItems_nests (hasMain : Bool) (count : Nat) :
    AtLevel 0 (drawItems p hasMain count : Gen σ (List Item)) fun items =>
      ∀ item ∈ items, item.nesting ≤ p.maxStmtDepth - 1 := by
  induction count generalizing hasMain with
  | zero =>
    refine .ite (fun _ => .pure (List.forall_mem_nil _)) fun _ => ?_
    exact drawMain_nests.bind fun main hmain => .pure (List.forall_mem_singleton.mpr hmain)
  | succ count ih =>
    rw [drawItems_succ]
    refine (drawEarlyMain_nests hasMain).bind fun early hearly => drawItem_nests.bind fun item hitem => ?_
    refine (ih _).bind fun items hitems => .pure ?_
    exact List.forall_mem_append.mpr ⟨hearly, List.forall_mem_cons.mpr ⟨hitem, hitems⟩⟩

theorem generate_nests : AtLevel 0 (generate p : Gen σ (List Item)) fun items =>
    ∀ item ∈ items, item.nesting ≤ p.maxStmtDepth - 1 := by
  refine (quietly fun _ => Keeps.countIn _).bind fun count _ => ?_
  refine (drawItems_nests false count).bind fun items hitems => ?_
  exact .look fun e _ => (quietly fun _ => Keeps.report).bind fun _ _ => .pure hitems

/-- At every point of a run, the statement level is no deeper than the profile wants, or it is that of the body of a
function; and in each body, the statements with bodies of their own that are nested in one another are fewer than the
statement levels of the profile. -/
theorem nesting_under_ceiling (p : Profile) (supply : Supply σ) :
    (∀ e, Visits (generate p) (Engine.start p supply) e → e.stmtDepth ≤ max 1 p.maxStmtDepth) ∧
      ∀ items e, run p supply = .ok (items, e) → ∀ f, .function f ∈ items →
        Stmt.bodyNesting f.body ≤ p.maxStmtDepth - 1 := by
  refine ⟨fun e hvisits => visits_underCeiling hvisits, fun items e hrun f hf => ?_⟩
  have hitems := (generate_nests rfl hrun).2
  exact hitems (.function f) hf

/-- The sample has three statement levels, so that two statements with bodies may be nested in one another, as its
loop is in its switch. -/
theorem nesting_under_ceiling_sample : ∃ items e, sample = .ok (items, e) ∧ e.stmtDepth ≤ 3 ∧
    (∀ f, .function f ∈ items → Stmt.bodyNesting f.body ≤ 2) ∧
      ∃ f, .function f ∈ items ∧ Stmt.bodyNesting f.body = 2 := by
  have hnested : sample.toOption.map (fun made => made.1.map Item.nesting) = some [2, 0] := by decide +kernel
  obtain ⟨⟨items, e⟩, hrun, hitems⟩ := exists_of_toOption_map hnested
  obtain ⟨hdepth, hnesting⟩ := nesting_under_ceiling sampleProfile (⟨⟨35⟩, fun _ => 9⟩ : Supply Congruential)
  refine ⟨items, e, hrun, hdepth e (visits_of_run hrun), hnesting items e hrun, ?_⟩
  obtain ⟨item, hitem, hitem'⟩ := List.mem_map.mp (hitems ▸ List.mem_cons_self : 2 ∈ items.map Item.nesting)
  cases item with
  | function f => exact ⟨f, hitem, hitem'⟩
  | record id decls => cases hitem'

end Module

end TensorFuzz
