import TensorFuzz.Proofs.Name.Words
import TensorFuzz.Proofs.Engine.Run
import TensorFuzz.Proofs.Engine.Valid
import TensorFuzz.Proofs.Ty.Sized

/-!
# Drawn types and names

The types for declarations have values and dimensions inside the bound, and the names are references that are free
in the innermost frame, whatever the words are.
-/

namespace TensorFuzz

/-- A drawn record is registered. -/
theorem Registry.drawTy_yields {σ : Type} [RandomSource σ] (records : Registry) (bound : Nat) :
    (records.drawTy : Draw σ (Option Ty)).Yields fun found => ∀ ty ∈ found, ty.Sized records bound := by
  refine (Draw.pick?_yields records.ids).bind fun found hfound => .pure ?_
  cases found with
  | none => simp
  | some id =>
    rintro _ ⟨⟩
    exact hfound.2 id rfl

namespace Gen.Keeps

open Check (IsName IsReference)
open Name (Led firstWords functionWords patterns)

variable {σ : Type} [RandomSource σ] {safe : Faults} {e₀ : Engine σ} (p : Profile)

theorem countIn (range : Range) :
    Keeps safe e₀ (Gen.countIn range : Gen σ Nat) fun n => range.min ≤ n ∧ n ≤ max range.min range.max :=
  .draw (Draw.sizeIn_yields _ _)

/-! ## Types -/

theorem vectorTy (records : Registry) :
    Keeps safe e₀ (Gen.vectorTy p : Gen σ Ty) (Ty.Sized records p.dimensionBound) := by
  refine Keeps.kind.bind fun kind _ => (Keeps.dimension p).bind fun n hn => ?_
  rw [Ty.vectorOf_ok hn.1]
  exact Keeps.pure hn

theorem matrixTy (records : Registry) :
    Keeps safe e₀ (Gen.matrixTy p : Gen σ Ty) (Ty.Sized records p.dimensionBound) := by
  refine Keeps.kind.bind fun kind _ => (Keeps.dimension p).bind fun m hm => (Keeps.dimension p).bind fun n hn => ?_
  rw [Ty.matrixOf_ok hm.1 hn.1]
  exact Keeps.pure ⟨hm, hn⟩

/-- A record is drawn only if that is allowed, and only a registered one. -/
theorem ty (allowRecords : Bool) : Keeps safe e₀ (Gen.ty p allowRecords : Gen σ Ty)
    (Ty.Sized (if allowRecords then e₀.records else .empty) p.dimensionBound) := by
  have hmatrix : Keeps safe e₀ (Gen.matrixTy p : Gen σ Ty) _ :=
    matrixTy p (if allowRecords then e₀.records else .empty)
  refine (Keeps.chance _).bind fun _ _ => .ite (fun _ => ?_) fun _ => ?_
  · refine (Keeps.draw (Draw.pick_yields _ _)).mono fun ty hty => ?_
    simp only [List.mem_cons, List.not_mem_nil, or_false] at hty
    rcases hty with rfl | rfl | rfl | rfl | rfl <;> trivial
  · refine Keeps.coin.bind fun _ _ => .ite (fun _ => vectorTy p _) fun _ => ?_
    refine (Keeps.chance _).bind fun _ _ => .ite (fun _ => ?_) fun _ => hmatrix
    cases allowRecords with
    | false => exact hmatrix
    | true =>
      refine Keeps.look fun e he => ?_
      refine (Keeps.draw (e.records.drawTy_yields p.dimensionBound)).bind fun found hfound => ?_
      cases found with
      | none => exact hmatrix
      | some record =>
        rw [he.records] at hfound
        exact .pure (hfound record rfl)

theorem tensorTy (vector : Probability) (records : Registry) :
    Keeps safe e₀ (Gen.tensorTy p vector : Gen σ Ty) fun ty =>
      ty.isTensor = true ∧ ty.Sized records p.dimensionBound := by
  refine Keeps.kind.bind fun kind _ => (Keeps.chance _).bind fun _ _ => .ite (fun _ => ?_) fun _ => ?_
  · refine (Keeps.dimension p).bind fun n hn => ?_
    rw [Ty.vectorOf_ok hn.1]
    exact Keeps.pure ⟨rfl, hn⟩
  · refine (Keeps.dimension p).bind fun m hm => (Keeps.dimension p).bind fun n hn => ?_
    rw [Ty.matrixOf_ok hm.1 hn.1]
    exact Keeps.pure ⟨rfl, hm, hn⟩

theorem spell (ty : Ty) : Keeps safe e₀ (Gen.spell p ty : Gen σ SpelledTy) (·.Spells ty) :=
  .draw (Ty.spell_yields _ ty)

/-! ## Names -/

theorem freeName (ty : Ty) : Keeps safe e₀ (Gen.freeName ty : Gen σ String) fun name =>
    name ∉ e₀.scope.currentNames ∧ Led (firstWords (patterns ty)) name := by
  refine Keeps.look fun e he => ?_
  rw [← he.scope]
  exact .draw ((e.scope.freeName_yields ty).mono fun _ h => ⟨h.1, h.2.led⟩)

theorem freeFunctionName (ty : Ty) : Keeps safe e₀ (Gen.freeFunctionName ty : Gen σ String) fun name =>
    name ∉ e₀.scope.currentNames ∧ Led functionWords name := by
  refine Keeps.look fun e he => ?_
  rw [← he.scope]
  exact .draw ((e.scope.freeFunctionName_yields ty).mono fun _ h => ⟨h.1, h.2.led⟩)

end Gen.Keeps

end TensorFuzz
