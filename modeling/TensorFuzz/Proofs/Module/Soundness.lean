import TensorFuzz.Proofs.Expr.Checking
import TensorFuzz.Proofs.Expr.Generation
import TensorFuzz.Proofs.Module.Valid

/-!
# Soundness of module generation

Every expression of a generated module stands where a value of its type is asked for, in the scope and the registry
at its place, and the checker finds that type there. The one way out is a remainder that overflows while a constant is
folded.
-/

namespace TensorFuzz

open Gen

variable {σ : Type} [RandomSource σ] {p : Profile}

/-- The checker finds the type that is asked for, unless a remainder overflows. -/
def Accepting (records : Registry) : Holding := fun scope ty x => x.Accepted scope records ty

/-- While the sizes of expressions fit a signed word, the expressions of a module are accepted where they stand. -/
theorem ModuleSetting.accepting (hroom : p.maxDimension + 5 * (p.maxExprDepth + 1) < 0x8000000000000000)
    {safe : Faults} (hdepth : safe .addOverflow → p.maxStmtDepth < limit64) :
    ModuleSetting p safe p.Opens Accepting (Engine.Valid p (σ := σ)) (Engine.Valid p) (fun _ => True)
      fun _ => True := by
  have hbound : p.dimensionBound + 5 * (p.maxExprDepth + 1) < 0x8000000000000000 := by
    unfold Profile.dimensionBound
    omega
  refine .ofValid (fun hsafe hopens => hopens.fits (hdepth hsafe)) (fun hvalid hty => ?_) (fun hvalid hb => ?_)
    fun hvalid hb hvalue => ?_
  · exact (Expr.generate_keeps hvalid (Nat.le_refl _) hbound hty).mono fun _ => Expr.accepted_of_hasType
  · have hdeep (_ : safe .depthOverflow) : 0 + 3 < limit64 := by decide
    refine (Expr.callAt_keeps hvalid (Nat.le_refl _) hbound hdeep (hvalid.visible hb).params _).mono fun x hx => ?_
    obtain ⟨args, rfl, hlength, hargs⟩ := hx
    exact ⟨args, rfl, hlength, fun part hpart => Expr.accepted_of_hasType (hargs part hpart)⟩
  · have hname := (hvalid.visible hb).name
    exact Expr.accepted_of_hasType (.name none hname (by simp) (Scope.lookup?_of_mem_visible hb) hvalue rfl)

namespace Module

theorem generate_typed (hroom : p.maxDimension + 5 * (p.maxExprDepth + 1) < 0x8000000000000000) {safe : Faults}
    (hdepth : safe .addOverflow → p.maxStmtDepth < limit64) (supply : Supply σ) :
    Gives safe (Engine.Valid p) (generate p) (Engine.start p supply)
      (Made Accepting (Engine.Valid p) (Engine.start p supply)) :=
  (ModuleSetting.accepting hroom hdepth).generate (Engine.start_valid p supply) (canHoldBody_opens p) trivial
    fun _ _ => trivial

/-- Where each single draw ends, a module is generated. -/
theorem exists_run (hroom : p.maxDimension + 5 * (p.maxExprDepth + 1) < 0x8000000000000000)
    (hdepth : p.maxStmtDepth < limit64) {supply : Supply σ} (hsteady : supply.Steady) :
    ∃ items e, run p supply = .ok (items, e) := by
  obtain ⟨items, e, hrun, -⟩ := (generate_typed hroom (fun _ => hdepth) supply).exists_run hsteady
  exact ⟨items, e, hrun⟩

/-- All items of a module are typed, and only a draw that does not end keeps a module from being generated. A word
holds the depth of statements, as it does all sizes of a profile. -/
theorem run_typed (hroom : p.maxDimension + 5 * (p.maxExprDepth + 1) < 0x8000000000000000) (supply : Supply σ) :
    (∀ items e, run p supply = .ok (items, e) → Item.AllTyped Accepting .empty .empty items e.scope e.records) ∧
      (p.maxStmtDepth < limit64 → supply.Steady → ∃ items e, run p supply = .ok (items, e) ∧
        Item.AllTyped Accepting .empty .empty items e.scope e.records) := by
  refine ⟨fun items e hrun => ?_, fun hdepth hsteady => ?_⟩
  · have hgives : Gives .none _ _ _ _ := generate_typed hroom False.elim supply
    exact (hgives.of_run hrun).2.2
  · obtain ⟨items, e, hrun, -, -, htyped⟩ := (generate_typed hroom (fun _ => hdepth) supply).exists_run hsteady
    exact ⟨items, e, hrun, htyped⟩

/-- Sizes with which a module stays short, and may still hold statements inside others. -/
def sampleProfile : Profile where
  maxExprDepth := 2
  maxExprNodes := 2
  maxConstDepth := 1
  maxStmtDepth := 3
  moduleItems := ⟨1, 1⟩
  functionParams := ⟨0, 1⟩
  functionBody := ⟨1, 2⟩
  blockBody := ⟨1, 2⟩
  switchCases := ⟨2, 3⟩

/-- A short module with a parameter, a switch, a loop inside it, a string and two vectors. -/
def sample : Except Fault (List Item × Engine Congruential) := run sampleProfile ⟨⟨35⟩, fun _ => 9⟩

theorem sample_text : sample.toOption.map (fun made => moduleText made.1) = some (
    "function void triggerState(string searchType) \x7b " ++
      "switch (217) \x7b case 8 + -80 : searchType = searchType ; " ++
        "case -68 : foreach(val float preciseValue : [0.27211, 13.32801, 18.82380]) var float calculatedValue ; " ++
        "case -60 - 4 : val string regexType = \"Hello World!\" ; \x7d  \x7d  " ++
    "function void main() \x7b var vector <int> [2] shiftArray ; \x7d ") := by
  decide +kernel

/-- All items of the sample are typed, and what is nested in them too. -/
theorem run_typed_sample : ∃ items e, sample = .ok (items, e) ∧
    Item.AllTyped Accepting .empty .empty items e.scope e.records := by
  obtain ⟨⟨items, e⟩, hrun, -⟩ := exists_of_toOption_map sample_text
  exact ⟨items, e, hrun, (run_typed (by decide) _).1 items e hrun⟩

/-- Only a draw that does not end keeps a module from being generated: no vector or matrix without entries is asked
for, no frame is closed that was not opened, no record is registered twice, and every event has a probability. -/
theorem run_infallible (hroom : p.maxDimension + 5 * (p.maxExprDepth + 1) < 0x8000000000000000)
    (hdepth : p.maxStmtDepth < limit64) (supply : Supply σ) :
    (∀ fault, run p supply = .error fault → fault = .endless ∧ ¬ supply.Steady) ∧
      (supply.Steady → ∃ items e, run p supply = .ok (items, e)) := by
  refine ⟨fun fault hfault => ?_, exists_run hroom hdepth⟩
  have hgives : Gives .all _ _ _ _ := generate_typed hroom (fun _ => hdepth) supply
  rcases hgives.run_eq with ⟨items, e, hrun, -, -⟩ | ⟨fault', hrun, hendless⟩
  · cases hrun.symm.trans hfault
  · cases hrun.symm.trans hfault
    exact hendless trivial

/-- A run of a profile whose vectors may have half as many entries as a signed word counts. -/
theorem run_infallible_large : ∃ items e,
    run { maxDimension := 0x4000000000000000 } (⟨Repeating.mk 0, fun _ => 1⟩ : Supply Repeating) = .ok (items, e) :=
  (run_infallible (by decide) (by decide) _).2 Repeating.zero_steady

end Module

end TensorFuzz
