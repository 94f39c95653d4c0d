import TensorFuzz.Proofs.Module.Generation
import TensorFuzz.Proofs.Stmt.Ending

/-!
# Generation ends

The records of a module have no fields that are records, so a module keeps the states in which everything ends.
No probability enters: the depths of constants, expressions and statements alone bound what is drawn.
-/

namespace TensorFuzz

open Gen

variable {σ : Type} [RandomSource σ] (p : Profile)

namespace Module

theorem drawMain_ends : EndsFor p (drawMain p : Gen σ Item) :=
  (Ends.report _).andThen fun _ => (Ends.modifyScope _).andThen fun _ =>
    .nested ((Stmt.several_ends p _).andThen fun _ => .pure trivial)

theorem drawParameter_ends (ty : Ty) : EndsFor p (drawParameter p ty : Gen σ Parameter) :=
  (Ends.freeName ty).andThen fun _ => (Ends.spell p ty).andThen fun _ => (Ends.modifyScope _).andThen fun _ =>
    .pure trivial

theorem drawResult_ends (ty : Ty) : EndsFor p (drawResult p ty : Gen σ (Option Expr)) :=
  .ite (fun _ => .pure trivial) fun _ => (Expr.generate_endsFor p ty).andThen fun _ => .pure trivial

theorem drawFunction_ends : EndsFor p (drawFunction p : Gen σ Item) := by
  rw [drawFunction_eq]
  have hreturn : EndsFor p (drawReturnTy p : Gen σ Ty) :=
    (Ends.chance _).andThen fun _ => .ite (fun _ => Ends.ty p true) fun _ => .pure trivial
  refine hreturn.andThen fun ty => (Ends.freeFunctionName ty).andThen fun name => ?_
  refine (Ends.countIn _).andThen fun count => ((Ends.ty p true).times count).andThen fun paramTys => ?_
  refine (Ends.report _).andThen fun _ => (Ends.modifyScope _).andThen fun _ => ?_
  refine (Ends.spell p ty).andThen fun spelled => .nested ?_
  refine (Ends.mapM fun ty _ => drawParameter_ends p ty).andThen fun params => ?_
  exact (Stmt.several_ends p _).andThen fun body => (drawResult_ends p ty).andThen fun _ => .pure trivial

/-- The fields of a record are no records. -/
theorem drawField_ends : EndsFor p (drawField p : Gen σ (Field × FieldDecl)) fun part => part.1.ty.recordId? = none :=
  (Ends.plainTy p).bind fun ty hty => (Ends.freeName ty).andThen fun _ => (Ends.modifyScope _).andThen fun _ =>
    Ends.coin.andThen fun _ => (Ends.spell p ty).andThen fun _ => .pure hty

theorem defineRecord_ends (id : String) {fields : List Field} (h : ∀ field ∈ fields, field.ty.recordId? = none) :
    EndsFor p (defineRecord id fields : Gen σ Unit) := fun e he => by
  refine .get (.checked (fun fault hfault => ?_) fun records hrecords => ?_)
  · unfold Registry.define at hfault
    split at hfault
    · cases hfault
      simp [Faults.lasting]
    · cases hfault
  · have hdefined : records.Flat := he.define h hrecords
    exact .bind (Q := fun _ e' => e'.records.Flat) ⟨hdefined, fun _ hsteady => hsteady, hdefined⟩ fun _ => Ends.report _

theorem drawRecord_ends : EndsFor p (drawRecord p : Gen σ Item) := by
  have hname : EndsFor p (freeRecordName : Gen σ String) := .of_keeps fun _ => freeRecordName_keeps.mono fun _ _ => trivial
  refine hname.andThen fun id => (Ends.countIn _).andThen fun count => (Ends.modifyScope _).andThen fun _ => ?_
  refine ((drawField_ends p).times count).bind fun fields hfields => Ends.look fun e _ => ?_
  refine .orFault e.scope.exit_brief fun scope _ => (Ends.modifyScope _).andThen fun _ => ?_
  exact (defineRecord_ends p id (List.forall_mem_map.mpr hfields)).andThen fun _ => .pure trivial

theorem drawEarlyMain_ends (hasMain : Bool) : EndsFor p (drawEarlyMain p hasMain : Gen σ (List Item)) :=
  .ite (fun _ => .pure trivial) fun _ => (Ends.chance _).andThen fun _ =>
    .ite (fun _ => (drawMain_ends p).andThen fun _ => .pure trivial) fun _ => .pure trivial

theorem drawItems_end (hasMain : Bool) (count : Nat) : EndsFor p (drawItems p hasMain count : Gen σ (List Item)) := by
  induction count generalizing hasMain with
  | zero => exact .ite (fun _ => .pure trivial) fun _ => (drawMain_ends p).andThen fun _ => .pure trivial
  | succ count ih =>
    rw [drawItems_succ]
    have hitem : EndsFor p (drawItem p : Gen σ Item) := (Ends.chance _).andThen fun _ =>
      .ite (fun _ => drawFunction_ends p) fun _ => drawRecord_ends p
    exact (drawEarlyMain_ends p hasMain).andThen fun _ => hitem.andThen fun _ => (ih _).andThen fun _ => .pure trivial

theorem generate_ends : EndsFor p (generate p : Gen σ (List Item)) :=
  (Ends.countIn _).andThen fun count => (drawItems_end p false count).andThen fun _ => Ends.look fun _ _ =>
    (Ends.report _).andThen fun _ => .pure trivial

end Module

/-! ## The operations of the generator -/

/-- From every state whose records contain no records, and with every supply from which each single draw ends, a
constant of every value is spelled, and the generation of an expression, of a statement and of a module ends, with a
result or in a fault that is raised. It does not raise that a depth is too large for a word unless depths come near
the last word. -/
theorem generation_ends {e : Engine σ} (hsteady : e.supply.Steady) (hflat : e.records.Flat) :
    (∀ levels v, Fits64 v → ∃ c supply, Constant.synthesize levels v e.supply = .ok (c, supply)) ∧
      (∀ ty depth, (Expr.operand p ty depth).run e ≠ .error .endless ∧
        (max p.maxExprDepth depth + 3 < limit64 → (Expr.operand p ty depth).run e ≠ .error .depthOverflow)) ∧
      ((Stmt.generate p).run e ≠ .error .endless ∧ (Module.generate p).run e ≠ .error .endless) ∧
      (p.maxExprDepth + 3 < limit64 →
        (Stmt.generate p).run e ≠ .error .depthOverflow ∧ (Module.generate p).run e ≠ .error .depthOverflow) := by
  have hstmt := (Stmt.generate_ends p).not_lasting hflat hsteady
  have hmodule := (Module.generate_ends p).not_lasting hflat hsteady
  refine ⟨fun levels v hv => ?_, fun ty depth => ?_, ?_, fun hroomy => ?_⟩
  · obtain ⟨c, supply, hrun, -⟩ := ((Constant.synthesize_yields levels hv).results e.supply).2 hsteady
    exact ⟨c, supply, hrun⟩
  · have hoperand := (Expr.operand_ends (id : max p.maxExprDepth depth + 3 < limit64 → _) ty).not_lasting hflat hsteady
    exact ⟨fun hrun => hoperand _ hrun (.inl rfl), fun hroomy hrun => hoperand _ hrun (.inr ⟨rfl, hroomy⟩)⟩
  · exact ⟨fun hrun => hstmt _ hrun (.inl rfl), fun hrun => hmodule _ hrun (.inl rfl)⟩
  · exact ⟨fun hrun => hstmt _ hrun (.inr ⟨rfl, hroomy⟩), fun hrun => hmodule _ hrun (.inr ⟨rfl, hroomy⟩)⟩

/-- A state with a record of vectors of floats, the deepest that a literal nests. -/
theorem generation_ends_nested : ∃ e : Engine Repeating,
    e.records = ⟨[⟨"packet", [⟨.vector .float 3, "dataVector", true⟩]⟩]⟩ ∧ e.supply.Steady ∧ e.records.Flat ∧
      (Expr.operand { maxExprDepth := 0 } (.record "packet") 0).run e ≠ .error .endless ∧
        (Module.generate {}).run e ≠ .error .endless := by
  have hflat : Registry.Flat ⟨[⟨"packet", [⟨.vector .float 3, "dataVector", true⟩]⟩]⟩ := by
    simp [Registry.Flat, Ty.recordId?]
  let start : Engine Repeating := Engine.start {} ⟨Repeating.mk 0, fun _ => 1⟩
  refine ⟨{ start with records := ⟨[⟨"packet", [⟨.vector .float 3, "dataVector", true⟩]⟩]⟩ }, rfl, ?_, hflat, ?_, ?_⟩
  · exact Repeating.zero_steady
  · exact ((generation_ends _ Repeating.zero_steady hflat).2.1 _ _).1
  · exact (generation_ends _ Repeating.zero_steady hflat).2.2.1.2

end TensorFuzz
