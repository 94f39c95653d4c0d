import TensorFuzz.Proofs.Stmt.Exact

/-!
# Switch labels

The labels of a switch are distinct: at most one of them is the default, and the values of the others increase. The
constants of the cases are expressions drawn independently of each other, so their texts say little; but each of them
evaluates to the value of its label, and so no two evaluate to the same value.
-/

namespace TensorFuzz

open Gen

def Case.text : Case → String
  | mk label body => label.text ++ " : " ++ body.text

namespace Stmt

theorem caseTexts_eq_map (cases : List Case) : caseTexts cases = cases.map Case.text := by
  induction cases with
  | nil => rfl
  | cons case cases ih =>
    obtain ⟨label, body⟩ := case
    exact congrArg (Case.text (.mk label body) :: ·) ih

/-- The values of the labels that have one, in their order. -/
def labelValues (labels : List SwitchLabel) : List Int := labels.filterMap (·.value?)

/-- The labels of a switch: as many as the profile allows, the default at most once, the values increasing. -/
structure DistinctLabels (p : Profile) (labels : List SwitchLabel) : Prop where
  min_le : p.switchCases.min ≤ labels.length
  le_max : labels.length ≤ p.switchCases.max
  default_once : labels.count .default ≤ 1
  increasing : (labelValues labels).Pairwise (· < ·)

/-- The statement is a switch with a case for each of the labels. The constants of the cases evaluate to the values of
the labels, in their order, and to different values. -/
inductive SwitchesOn (labels : List SwitchLabel) : Stmt → Prop
  | intro {scrutinee : Expr} {cases : List Case} :
      (switch scrutinee cases).text =
        "switch (" ++ scrutinee.text ++ ") \x7b " ++ spaced (cases.map Case.text) ++ " \x7d " →
      cases.map Case.value? = labels.map (fun label => label.value?.map .ok) →
      cases.filterMap Case.value? = (labelValues labels).map .ok →
      (cases.filterMap Case.value?).Nodup → SwitchesOn labels (switch scrutinee cases)

variable {p : Profile} {labels : List SwitchLabel}

/-- Values that are evenly spaced increase, whichever of them the default stands in for. -/
theorem labelValues_increasing {base stride : Int} (hstride : 0 < stride)
    (hvalues : ∀ (i : Nat) v, labels[i]? = some (.case v) → v = base + i * stride) :
    (labelValues labels).Pairwise (· < ·) := by
  have hindex (i : Nat) (hi : i < labels.length) v (hv : labels[i].value? = some v) : v = base + i * stride := by
    apply hvalues i v
    rw [List.getElem?_eq_getElem hi, SwitchLabel.value?_eq_some_iff.mp hv]
  rw [labelValues, List.pairwise_filterMap, List.pairwise_iff_getElem]
  intro i j hi hj hlt v hv w hw
  rw [hindex i hi v hv, hindex j hj w hw]
  have hless : (i : Int) * stride < j * stride := Int.mul_lt_mul_of_pos_right (by omega) hstride
  omega

theorem filterMap_value_eq {cases : List Case}
    (hvalues : cases.map Case.value? = labels.map fun label => label.value?.map .ok) :
    cases.filterMap Case.value? = (labelValues labels).map .ok := by
  calc cases.filterMap Case.value?
      = (cases.map Case.value?).filterMap id := by rw [List.filterMap_map, Function.id_comp]
    _ = (labels.map fun label => label.value?.map Except.ok).filterMap id := by rw [hvalues]
    _ = labels.filterMap fun label => label.value?.map Except.ok := by rw [List.filterMap_map, Function.id_comp]
    _ = (labelValues labels).map .ok := List.map_filterMap.symm

variable {σ : Type} [RandomSource σ]

/-- After a default there is no other, and before it each label is a chance for it. -/
theorem drawLabels_default (hasDefault : Bool) (values : List Int) :
    Returns (drawLabels hasDefault values : Gen σ (List SwitchLabel)) fun labels =>
      labels.count .default ≤ if hasDefault then 0 else 1 := by
  induction values generalizing hasDefault with
  | nil => exact .pure (Nat.zero_le _)
  | cons value values ih =>
    have hcase (hasDefault : Bool) : Returns
        (do return SwitchLabel.case value :: (← drawLabels hasDefault values) : Gen σ (List SwitchLabel))
        fun labels => labels.count .default ≤ if hasDefault then 0 else 1 := by
      refine (ih hasDefault).bind fun labels hlabels => .pure ?_
      rw [List.count_cons_of_ne (by simp)]
      exact hlabels
    cases hasDefault with
    | true => exact hcase true
    | false =>
      refine Returns.after fun stands => .ite (fun _ => ?_) fun _ => hcase false
      refine (ih true).bind fun labels hlabels => .pure ?_
      rw [List.count_cons_self]
      exact Nat.succ_le_succ hlabels

theorem drawSwitchLabels_distinct (hp : p.invalid? = none) (hcases : p.switchCases.max < 0x800000000000000) :
    Returns (drawSwitchLabels p : Gen σ (List SwitchLabel)) fun labels =>
      DistinctLabels p labels ∧ ∀ (i : Nat) v, labels[i]? = some (.case v) → Fits64 v := by
  have hspaced : Returns (drawSwitchLabels p : Gen σ (List SwitchLabel)) (Spaced p) :=
    Returns.of_keeps fun e => drawSwitchLabels_spaced p
  have hdefault : Returns (drawSwitchLabels p : Gen σ (List SwitchLabel)) fun labels => labels.count .default ≤ 1 :=
    Returns.after fun count => Returns.after fun base => Returns.after fun stride => drawLabels_default false _
  intro e labels e' hrun
  obtain ⟨⟨hmin, hmax⟩, base, stride, -, hstride, hexact⟩ := (hspaced hrun).exact hp (by omega)
  have hincreasing := labelValues_increasing (by omega) fun i v hv => (hexact i v hv).1
  exact ⟨⟨hmin, hmax, hdefault hrun, hincreasing⟩, fun i v hv => (hexact i v hv).2⟩

theorem drawCases_switchesOn (hlabels : DistinctLabels p labels)
    (hfits : ∀ (i : Nat) v, labels[i]? = some (.case v) → Fits64 v) (deeper : Gen σ Stmt) (scrutinee : Expr) :
    Returns (do return .switch scrutinee (← labels.mapM (drawCase p deeper))) (SwitchesOn labels) := by
  refine (drawCases_value deeper hfits).bind fun cases hvalues => .pure ?_
  have heq := filterMap_value_eq hvalues
  refine .intro ?_ hvalues heq ?_
  · rw [← caseTexts_eq_map]
    rfl
  · rw [heq, List.Nodup, List.pairwise_map]
    exact hlabels.increasing.imp fun hlt h => Int.ne_of_lt hlt (Except.ok.inj h)

/-- For a usable profile and from every state: labels are drawn, and the labels of a switch are distinct. A switch is
made of such labels, and the constants in its text evaluate to their values, in the same order and all different. -/
theorem switch_labels_distinct (hp : p.invalid? = none) (hcases : p.switchCases.max < 0x800000000000000)
    (e : Engine σ) :
    (e.supply.Steady → ∃ labels e', (drawSwitchLabels p).run e = .ok (labels, e')) ∧
      (∀ labels e', (drawSwitchLabels p).run e = .ok (labels, e') → DistinctLabels p labels) ∧
      ∀ deeper stmt e', (drawSwitch p deeper).run e = .ok (stmt, e') → ∃ labels, ∃ e₁ e₂ : Engine σ,
        (drawSwitchLabels p).run e₁ = .ok (labels, e₂) ∧ DistinctLabels p labels ∧ SwitchesOn labels stmt := by
  refine ⟨fun hsteady => ?_, fun labels e' hrun => ?_, fun deeper stmt e' hrun => ?_⟩
  · have hkeeps : Keeps .all e (drawSwitchLabels p) (Spaced p) := drawSwitchLabels_spaced p
    obtain ⟨labels, e', hrun, -⟩ := (hkeeps e (.refl e)).exists_run hsteady
    exact ⟨labels, e', hrun⟩
  · exact (drawSwitchLabels_distinct hp hcases hrun).1
  · obtain ⟨scrutinee, e₁, -, hrest⟩ := exists_of_run_bind hrun
    obtain ⟨labels, e₂, hlabels, hrest⟩ := exists_of_run_bind hrest
    obtain ⟨hdistinct, hfits⟩ := drawSwitchLabels_distinct hp hcases hlabels
    exact ⟨labels, e₁, e₂, hlabels, hdistinct, drawCases_switchesOn hdistinct hfits deeper scrutinee hrest⟩

/-- The default profile allows up to five labels: here the default stands in for one of four values, and the text of a
switch with four cases spells each of its values another way. -/
theorem switch_labels_distinct_default :
    let p : Profile := {}
    let e : Engine Congruential := Engine.start p ⟨⟨519⟩, fun _ => 9⟩
    let labels : List SwitchLabel := [.case (-4), .case 4, .default, .case 20]
    let text := "switch (791) \x7b default : var bool isReady ; case -132 / (2) - 9 : var int l ; " ++
      "case 2 * -34 : var int m ; case -61 : var bool willWrite ; \x7d "
    (p.invalid? = none ∧ p.switchCases.max < 0x800000000000000) ∧
      (∃ e', (drawSwitchLabels p).run e = .ok (labels, e') ∧ DistinctLabels p labels) ∧
      ∃ stmt e' labels, (drawSwitch p (drawVariable p)).run e = .ok (stmt, e') ∧ stmt.text = text ∧
        SwitchesOn labels stmt := by
  intro p e labels text
  obtain ⟨-, hlabels, hswitch⟩ := switch_labels_distinct (p := p) (by decide) (by decide) e
  refine ⟨by decide, ?_, ?_⟩
  · have hdrawn : ((drawSwitchLabels p).run e).toOption.map Prod.fst = some labels := by decide +kernel
    obtain ⟨⟨_, e'⟩, hrun, rfl⟩ := exists_of_toOption_map hdrawn
    exact ⟨e', hrun, hlabels _ e' hrun⟩
  · have hdrawn : ((drawSwitch p (drawVariable p)).run e).toOption.map (fun made => made.1.text) = some text := by
      decide +kernel
    obtain ⟨⟨stmt, e'⟩, hrun, htext⟩ := exists_of_toOption_map hdrawn
    obtain ⟨labels, -, -, -, -, hswitches⟩ := hswitch _ stmt e' hrun
    exact ⟨stmt, e', labels, hrun, htext, hswitches⟩

end Stmt

end TensorFuzz
