import TensorFuzz.Proofs.Expr.Checking
import TensorFuzz.Proofs.Expr.Generation
import TensorFuzz.Proofs.Module.Valid

/-!
# Soundness of expression generation

From every reachable state, whatever level an expression is drawn at, the checker accepts its text with the type
that was asked for. The one way out is a remainder that overflows while a constant is folded, and text is missing
only where no word is left for the depth of a literal.
-/

namespace TensorFuzz.Expr

open Gen

variable {σ : Type} [RandomSource σ] {p : Profile}

/-- The ways to draw an expression of a type at a nesting depth. -/
inductive Producer (p : Profile) (depth : Nat) (ty : Ty) : Gen σ Expr → Prop
  | operand : Producer p depth ty (Expr.operand p ty depth)
  | level (level : Level) : Producer p depth ty (atDepth p depth level ty)
  | literal : Producer p depth ty (literalAt p depth ty)

theorem Producer.keeps {safe : Faults} {e₀ : Engine σ} {depth bound : Nat} {ty : Ty} {g : Gen σ Expr}
    (hg : Producer p depth ty g) (hvalid : e₀.Valid p) (hbound : p.dimensionBound ≤ bound)
    (hroom : bound + 5 * (p.maxExprDepth + 1) < 0x8000000000000000)
    (hdeep : safe .depthOverflow → depth + 3 < limit64) (hty : ty.Sized e₀.records bound) :
    Keeps safe e₀ g (·.Accepted e₀.scope e₀.records ty) := by
  cases hg with
  | operand => exact (operand_keeps hvalid hbound hroom hdeep hty).mono fun _ => accepted_of_hasType
  | level level => exact (atDepth_sound hvalid hbound hroom hdeep level ty hty).mono fun _ => accepted_of_hasType
  | literal => exact (literalAt_keeps hvalid hbound hroom hdeep hty).mono fun _ => accepted_of_hasType

/-- The sizes that a new expression is drawn from have room for the sizes of declared types. -/
theorem dimensionBound_room {p : Profile} {bound : Nat}
    (hroom : max p.maxDimension bound + 5 * (p.maxExprDepth + 1) < 0x8000000000000000) :
    max p.dimensionBound bound + 5 * (p.maxExprDepth + 1) < 0x8000000000000000 := by
  unfold Profile.dimensionBound
  omega

theorem produced_accepted {e : Engine σ} (hreachable : e.Reachable p) {depth bound : Nat} {ty : Ty}
    (hty : ty.Sized e.records bound)
    (hroom : max p.maxDimension bound + 5 * (p.maxExprDepth + 1) < 0x8000000000000000) {g : Gen σ Expr}
    (hg : Producer p depth ty g) :
    (∀ x e', g.run e = .ok (x, e') → x.Accepted e.scope e.records ty) ∧
      (e.supply.Steady → (∃ x e', g.run e = .ok (x, e') ∧ x.Accepted e.scope e.records ty) ∨
        g.run e = .error .depthOverflow ∧ limit64 ≤ depth + 3) := by
  have hkeeps : Keeps (fun fault => fault = .depthOverflow → depth + 3 < limit64) _ _ _ :=
    hg.keeps hreachable.valid (Nat.le_max_left _ _) (dimensionBound_room hroom) (fun hsafe => hsafe rfl)
      (hty.widen (Nat.le_max_right _ _))
  have hgives := hkeeps e (.refl e)
  refine ⟨fun x e' hrun => (hgives.of_run hrun).1, fun hsteady => ?_⟩
  refine (hgives.run_or hsteady).imp (fun ⟨x, e', hrun, hx, _⟩ => ⟨x, e', hrun, hx⟩) fun ⟨fault, hrun, hfault⟩ => ?_
  obtain ⟨rfl, hfull⟩ := Classical.not_imp.mp hfault
  exact ⟨hrun, Nat.le_of_not_lt hfull⟩

/-- A vector in the state that a run of the default profile begins in. -/
theorem produced_accepted_vector : ∃ x e',
    (Expr.operand {} (.vector .float 3) 0).run (Engine.start {} ⟨Repeating.mk 0, fun _ => 1⟩) = .ok (x, e') ∧
      x.Accepted .empty .empty (.vector .float 3) := by
  have hreachable : (Engine.start {} ⟨Repeating.mk 0, fun _ => 1⟩).Reachable {} := .start _
  have hty : (Ty.vector .float 3).Sized .empty 3 := ⟨by decide, by decide⟩
  have hg : Producer {} 0 (.vector .float 3) (operand {} (.vector .float 3) 0 : Gen Repeating Expr) := .operand
  have hmade := (produced_accepted hreachable hty (by decide) hg).2 Repeating.zero_steady
  exact hmade.resolve_right fun hfull => absurd hfull.2 (by decide)

end TensorFuzz.Expr
