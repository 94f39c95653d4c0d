import TensorFuzz.Proofs.Constant.Reading
import TensorFuzz.Proofs.Expr.Occurrences
import TensorFuzz.Proofs.Expr.Soundness
import TensorFuzz.Proofs.Module.Soundness

/-!
# Exact sizes

Sizes are counted in words and spelled as signed ones. A printed dimension is the dimension exactly if a signed word
holds it. Slices are exact where a signed word holds the largest dimension of an expression, which grows by five with
each slice that is nested, and the labels of a switch where it holds the last of their values.
-/

namespace TensorFuzz

open Gen

/-! ## Dimensions -/

def SpelledTy.dimensions : SpelledTy → List ConstExpr
  | .plain _ => []
  | .vector _ length => [length]
  | .matrix _ rows cols => [rows, cols]

/-- The dimensions that are written evaluate to those of the type. -/
def SpelledTy.Exact (spelled : SpelledTy) (ty : Ty) : Prop :=
  spelled.dimensions.map (fun c => Constant.evaluate c.text) = ty.dimensions.map fun n => .ok (n : Int)

theorem signed64_natCast_eq_iff {n : Nat} : signed64 n = n ↔ n < 0x8000000000000000 := by
  refine ⟨fun h => ?_, fun h => signed64_of_fits (by unfold Fits64; omega)⟩
  have hfits := fits64_signed64 n
  unfold Fits64 at hfits
  omega

/-- A dimension is read back as the signed word that holds it. -/
theorem evaluate_dimension_iff {c : ConstExpr} {n : Nat} (h : c.Denotes .sum (signed64 n)) :
    Constant.evaluate c.text = .ok (n : Int) ↔ n < 0x8000000000000000 := by
  rw [Constant.evaluate_text h, Except.ok.injEq, signed64_natCast_eq_iff]

theorem Ty.dimensions_of_plain {ty : Ty} (h : ty.isTensor = false) : ty.dimensions = [] := by
  cases ty with
  | vector | matrix => cases h
  | _ => rfl

theorem SpelledTy.Spells.exact_iff {spelled : SpelledTy} {ty : Ty} (h : spelled.Spells ty) :
    spelled.Exact ty ↔ ∀ n ∈ ty.dimensions, n < 0x8000000000000000 := by
  unfold SpelledTy.Exact
  cases h with
  | plain htensor => simp [SpelledTy.dimensions, Ty.dimensions_of_plain htensor]
  | vector hc => simp [SpelledTy.dimensions, Ty.dimensions, evaluate_dimension_iff hc]
  | matrix hc hd => simp [SpelledTy.dimensions, Ty.dimensions, evaluate_dimension_iff hc, evaluate_dimension_iff hd]

/-! ## Slices -/

namespace Expr

/-- Bounds that evaluate to the first and the last index. -/
def Reckoning.exact : Reckoning where
  spans start length lo hi :=
    Constant.evaluate lo.text = .ok start ∧ Constant.evaluate hi.text = .ok (start + length - 1)

section
variable {p : Profile} {records : Registry} {bound : Nat} {source ty : Ty}

/-- A length is exact if a signed word holds it. -/
theorem spans_exact {start : Int} {length : Nat} {lo hi : ConstExpr} (hlength : length < 0x8000000000000000)
    (h : Reckoning.words.spans start length lo hi) : Reckoning.exact.spans start length lo hi := by
  have hsame : signed64 length = length := signed64_natCast_eq_iff.mpr hlength
  exact ⟨Constant.evaluate_text h.1, hsame ▸ Constant.evaluate_text h.2⟩

theorem SliceSource.exact {lo hi : ConstExpr} (h : SliceSource p .words source ty lo hi)
    (hty : ty.Sized records bound) (hroom : bound + 5 < 0x8000000000000000) : SliceSource p .exact source ty lo hi := by
  cases h with
  | number hpos hle hstart hspans => exact .number hpos hle hstart (spans_exact (by decide) hspans)
  | vector hpos hlonger hstart hspans =>
    have hlength := hty.2
    exact .vector hpos hlonger hstart (spans_exact (by omega) hspans)

theorem WindowSource.exact {rowLo rowHi colLo colHi : ConstExpr}
    (h : WindowSource p .words source ty rowLo rowHi colLo colHi) (hty : ty.Sized records bound)
    (hroom : bound + 5 < 0x8000000000000000) : WindowSource p .exact source ty rowLo rowHi colLo colHi := by
  cases h with
  | number hm hle hn hle' hrow hcol hrows hcols =>
    exact .number hm hle hn hle' hrow hcol (spans_exact (by decide) hrows) (spans_exact (by decide) hcols)
  | row hm hle hn hlonger hrow hcol hrows hcols =>
    have hlength := hty.2
    exact .row hm hle hn hlonger hrow hcol (spans_exact (by decide) hrows) (spans_exact (by omega) hcols)
  | window hm hhigher hn hwider hrow hcol hrows hcols =>
    have hheight := hty.1.2
    have hwidth := hty.2.2
    exact .window hm hhigher hn hwider hrow hcol (spans_exact (by omega) hrows) (spans_exact (by omega) hcols)

end

/-- The sources of all slices and windows in the expression have their exact sizes, and the bounds their exact
values. -/
def SlicesExact (p : Profile) (scope : Scope) (records : Registry) (x : Expr) : Prop :=
  (∀ ⦃source lo step hi⦄, (slice source lo step hi).OccursIn x → ∃ d sourceTy ty,
    source.Drawn p scope records d sourceTy ∧ SliceSource p .exact sourceTy ty lo hi) ∧
  ∀ ⦃source rowLo rowStep rowHi colLo colStep colHi⦄,
    (window source rowLo rowStep rowHi colLo colStep colHi).OccursIn x → ∃ d sourceTy ty,
      source.Drawn p scope records d sourceTy ∧ WindowSource p .exact sourceTy ty rowLo rowHi colLo colHi

section
variable {σ : Type} {p : Profile} {e : Engine σ} {d bound : Nat} {ty : Ty} {x : Expr}

/-- A slice in the sources of `k` others is drawn for dimensions larger by `5 * k`, and so many levels of depth are
spent on these. -/
theorem Drawn.slicesExact (hvalid : e.Valid p) (h : DrawnIn p e d ty x) (hbound : p.dimensionBound ≤ bound)
    (hroom : bound + 5 * d < 0x8000000000000000) (hty : ty.Sized e.records bound) :
    x.SlicesExact p e.scope e.records := by
  constructor
  · intro source lo step hi hoccurs
    obtain ⟨k, hunder⟩ := hoccurs.exists_slices
    obtain ⟨d', ty', hslice, hd, hwidens⟩ := h.of_occursUnder hvalid hunder
    cases hslice with
    | slice hsource hx => exact ⟨_, _, _, hx, hsource.exact (hwidens bound hbound hty) (by omega)⟩
  · intro source rowLo rowStep rowHi colLo colStep colHi hoccurs
    obtain ⟨k, hunder⟩ := hoccurs.exists_slices
    obtain ⟨d', ty', hwindow, hd, hwidens⟩ := h.of_occursUnder hvalid hunder
    cases hwindow with
    | window hsource hx => exact ⟨_, _, _, hx, hsource.exact (hwidens bound hbound hty) (by omega)⟩

variable [RandomSource σ]

theorem Producer.drawn {depth : Nat} {g : Gen σ Expr} (hg : Producer p depth ty g) :
    Keeps .none e g (DrawnIn p e (p.maxExprDepth - depth) ty) := by
  cases hg with
  | operand => exact operand_drawn ty depth
  | level level => exact atDepth_drawn depth level ty
  | literal => exact literalAt_drawn depth ty

end

end Expr

/-! ## Labels -/

def SwitchLabel.value? : SwitchLabel → Option Int
  | case v => some v
  | default => none

theorem SwitchLabel.value?_eq_some_iff {label : SwitchLabel} {v : Int} : label.value? = some v ↔ label = .case v := by
  cases label with
  | case v' => simp [value?]
  | default => simp [value?]

def CaseLabel.constant? : CaseLabel → Option ConstExpr
  | case c => some c
  | default => none

def Case.constant? : Case → Option ConstExpr
  | mk label _ => label.constant?

/-- What the constant of the case evaluates to. -/
def Case.value? (case : Case) : Option (Except Constant.EvalError Int) :=
  case.constant?.map fun c => Constant.evaluate c.text

namespace Stmt

/-- The statement is a switch with a number of cases in the range of the profile, whose values are evenly spaced. -/
inductive SwitchExact (p : Profile) : Stmt → Prop
  | intro {scrutinee : Expr} {cases : List Case} {base stride : Int} : p.switchCases.min ≤ cases.length →
      cases.length ≤ p.switchCases.max → -100 ≤ base ∧ base ≤ 100 → 1 ≤ stride ∧ stride ≤ 9 →
      (∀ (i : Nat) c body, cases[i]? = some (.mk (.case c) body) →
        Constant.evaluate c.text = .ok (base + i * stride)) →
      SwitchExact p (.switch scrutinee cases)

variable {p : Profile}

/-- Where a signed word holds the last of the values, the labels are as many as the range says, and so lie their
values. -/
theorem Spaced.exact (hp : p.invalid? = none) (hcases : 100 + 9 * p.switchCases.max < 0x8000000000000000)
    {labels : List SwitchLabel} (h : Spaced p labels) :
    (p.switchCases.min ≤ labels.length ∧ labels.length ≤ p.switchCases.max) ∧
      ∃ base stride : Int, (-100 ≤ base ∧ base ≤ 100) ∧ (1 ≤ stride ∧ stride ≤ 9) ∧
        ∀ (i : Nat) v, labels[i]? = some (.case v) → v = base + i * stride ∧ Fits64 v := by
  have hrange : p.switchCases.min ≤ p.switchCases.max := p.range_of_valid hp (by simp [Profile.ranges])
  obtain ⟨count, base, stride, hcount, hbase, hstride, hlength, hvalues⟩ := h
  -- no word overflows: the cases are fewer than the range says, and so lie the values
  rw [signed64_of_fits (by unfold Fits64; omega), Int.toNat_natCast] at hlength
  refine ⟨by omega, base, stride, hbase, hstride, fun i v hv => ?_⟩
  have hi : i < labels.length := (List.getElem?_eq_some_iff.mp hv).1
  have hlow : 0 ≤ (i : Int) * stride := Int.mul_nonneg (by omega) (by omega)
  have hhigh : (i : Int) * stride ≤ i * 9 := Int.mul_le_mul_of_nonneg_left hstride.2 (by omega)
  have hfits : Fits64 (base + i * stride) := by
    unfold Fits64
    omega
  have hvalue := hvalues i v hv
  rw [signed64_of_fits hfits] at hvalue
  exact ⟨hvalue, hvalue ▸ hfits⟩

variable {σ : Type} [RandomSource σ]

/-- A case has the value of the label that it is drawn for. -/
theorem drawCase_value (deeper : Gen σ Stmt) {label : SwitchLabel} (hfits : ∀ v, label = .case v → Fits64 v) :
    Returns (drawCase p deeper label) fun case => case.value? = label.value?.map .ok := by
  have hlabel : Returns (spellLabel p label : Gen σ CaseLabel) fun spelled =>
      spelled.constant?.map (fun c => Constant.evaluate c.text) = label.value?.map .ok := by
    cases label with
    | default => exact .pure rfl
    | case v =>
      have hconstant := Returns.of_keeps fun e : Engine σ =>
        (Expr.constant_keeps (hfits v rfl) : Keeps .none e (Gen.constant p v) _)
      exact hconstant.bind fun c hc => .pure (congrArg some (Constant.evaluate_text hc))
  exact hlabel.bind fun spelled hspelled => Returns.after fun body => .pure hspelled

theorem drawCases_value (deeper : Gen σ Stmt) {labels : List SwitchLabel}
    (hfits : ∀ (i : Nat) v, labels[i]? = some (.case v) → Fits64 v) :
    Returns (labels.mapM (drawCase p deeper)) fun cases =>
      cases.map Case.value? = labels.map fun label => label.value?.map .ok := by
  refine Returns.mapM_map fun label hlabel => drawCase_value deeper fun v hv => ?_
  obtain ⟨i, hi⟩ := List.mem_iff_getElem?.mp hlabel
  exact hfits i v (hv ▸ hi)

theorem drawSwitch_exact (hp : p.invalid? = none) (hcases : 100 + 9 * p.switchCases.max < 0x8000000000000000)
    (deeper : Gen σ Stmt) : Returns (drawSwitch p deeper) (SwitchExact p) := by
  have hspaced := Returns.of_keeps fun e : Engine σ => (drawSwitchLabels_spaced p : Keeps .none e _ _)
  refine Returns.after fun scrutinee => hspaced.bind fun labels hlabels => ?_
  obtain ⟨hlength, base, stride, hbase, hstride, hexact⟩ := hlabels.exact hp hcases
  refine (drawCases_value deeper fun i v hv => (hexact i v hv).2).bind fun cases hvalues => .pure ?_
  have hsame : cases.length = labels.length := by simpa using congrArg List.length hvalues
  refine .intro (by omega) (by omega) hbase hstride fun i c body hcase => ?_
  have hvalue := congrArg (fun values => values[i]?) hvalues
  simp only [List.getElem?_map, hcase, Option.map_some] at hvalue
  obtain ⟨label, hlabel, hof⟩ := Option.map_eq_some_iff.mp hvalue.symm
  cases label with
  | default => cases hof
  | case v =>
    have hevaluate : Constant.evaluate c.text = .ok v := (Option.some.inj hof).symm
    rw [hevaluate, (hexact i v hlabel).1]

end Stmt

/-! ## All sizes -/

variable {σ : Type} [RandomSource σ] {p : Profile}

/-- For a usable profile, whatever state is reached: a type is printed with its dimensions exactly if a signed word
holds them; slices have their exact sizes and bounds if a signed word holds the largest dimension that expressions
nest up to; and a switch has its exact number of cases and values if it holds the last of the values. -/
theorem sizes_exact (hp : p.invalid? = none) {e : Engine σ} (hreachable : e.Reachable p) :
    (∀ ty spelled e', (Gen.spell p ty).run e = .ok (spelled, e') →
      (spelled.Exact ty ↔ ∀ n ∈ ty.dimensions, n < 0x8000000000000000)) ∧
    (p.maxDimension + 5 * (p.maxExprDepth + 1) < 0x8000000000000000 →
      ∀ ty depth g x e', ty.Sized e.records p.maxDimension → Expr.Producer p depth ty g → g.run e = .ok (x, e') →
        x.SlicesExact p e.scope e.records) ∧
    (100 + 9 * p.switchCases.max < 0x8000000000000000 →
      ∀ deeper stmt e', (Stmt.drawSwitch p deeper).run e = .ok (stmt, e') → Stmt.SwitchExact p stmt) := by
  refine ⟨fun ty spelled e' hrun => ?_, fun hroom ty depth g x e' hty hg hrun => ?_, fun hcases deeper stmt e' hrun => ?_⟩
  · have hspelled : Keeps .none e (Gen.spell p ty) (·.Spells ty) := Keeps.spell p ty
    exact (hspelled.of_run (.refl e) hrun).1.exact_iff
  · have hdimension := Profile.maxDimension_of_valid hp
    have hbound : p.dimensionBound ≤ p.maxDimension := by
      unfold Profile.dimensionBound
      omega
    exact (hg.drawn.of_run (.refl e) hrun).1.slicesExact hreachable.valid hbound (by omega) hty
  · exact Stmt.drawSwitch_exact hp hcases deeper hrun

/-- A profile whose vectors may have half as many entries as a signed word counts, in the state that its run begins
in. -/
theorem sizes_exact_large :
    let p : Profile := { maxDimension := 0x4000000000000000 }
    let e := Engine.start p (⟨Repeating.mk 0, fun _ => 1⟩ : Supply Repeating)
    (∃ spelled e', (Gen.spell p (.matrix .int 3 0x4000000000000000)).run e = .ok (spelled, e') ∧
      spelled.Exact (.matrix .int 3 0x4000000000000000)) ∧
    (∃ x e', (Expr.operand p (.vector .float 3) 0).run e = .ok (x, e') ∧ x.SlicesExact p .empty .empty) ∧
    ∃ stmt e', (Stmt.drawSwitch p (Stmt.drawVariable p)).run e = .ok (stmt, e') ∧ Stmt.SwitchExact p stmt := by
  intro p e
  have hreachable : e.Reachable p := .start _
  have hvalid := hreachable.valid
  have hroom : p.maxDimension + 5 * (p.maxExprDepth + 1) < 0x8000000000000000 := by decide
  obtain ⟨htypes, hslices, hswitches⟩ := sizes_exact (by decide) hreachable
  refine ⟨?_, ?_, ?_⟩
  · have hspelled : Keeps .all e (Gen.spell p (.matrix .int 3 0x4000000000000000)) _ := Keeps.spell p _
    obtain ⟨spelled, e', hrun, -⟩ := (hspelled e (.refl e)).exists_run Repeating.zero_steady
    exact ⟨spelled, e', hrun, (htypes _ _ _ hrun).mpr (by decide)⟩
  · have hproducer : Expr.Producer p 0 (.vector .float 3) (Expr.operand p (.vector .float 3) 0 : Gen Repeating Expr) :=
      .operand
    have hty : (Ty.vector .float 3).Sized .empty p.maxDimension := ⟨by decide, by decide⟩
    have hbound : p.dimensionBound ≤ p.maxDimension := by decide
    have hkeeps : Keeps .all e _ _ := hproducer.keeps hvalid hbound hroom (fun _ => by decide) hty
    obtain ⟨x, e', hrun, -⟩ := (hkeeps e (.refl e)).exists_run Repeating.zero_steady
    exact ⟨x, e', hrun, hslices hroom _ _ _ x e' hty hproducer hrun⟩
  · have hsetting : Setting p .all p.Opens Accepting (Engine.Valid p (σ := Repeating)) :=
      (ModuleSetting.accepting hroom fun _ => by decide).toSetting
    have hopens : p.Opens e.stmtDepth := show 0 < max p.maxStmtDepth 1 by decide
    have hswitch := hsetting.drawSwitch hvalid hopens fun _ hinner _ => hsetting.drawVariable hinner
    obtain ⟨stmt, e', hrun, -⟩ := (hswitch e (.refl e)).exists_run Repeating.zero_steady
    exact ⟨stmt, e', hrun, hswitches (by decide) _ stmt e' hrun⟩

end TensorFuzz
