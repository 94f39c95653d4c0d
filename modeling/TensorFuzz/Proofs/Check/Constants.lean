import TensorFuzz.Proofs.Check.Reading
import TensorFuzz.Proofs.Constant.Reading
import TensorFuzz.Proofs.Expr.Tokens

/-!
# Constant expressions among expressions

A constant expression is an expression at the level of its precedence. Checking it comes to an integer, and folding
comes to its exact value, as long as words hold the values of its parts.
-/

namespace TensorFuzz

open Check

/-- The level that expressions of a precedence of constants stand at. -/
def Constant.Precedence.level : Constant.Precedence → Level
  | .sum => .sum
  | .product => .product
  | .sign => .negate
  | .power => .power
  | .primary => .atom

namespace Check

theorem operate_constants {symbol : Symbol} (hty : arithmetic symbol .int .int = .ok .int) {l r : Option Int}
    {f : Int → Int → Option Int} (hfold : ∀ x ∈ l, ∀ y ∈ r, fold symbol (some x) (some y) = .ok (f x y)) :
    operate symbol ⟨.int, l⟩ ⟨.int, r⟩ = .ok ⟨.int, l.bind fun x => r.bind (f x)⟩ := by
  have hfolded : fold symbol l r = .ok (l.bind fun x => r.bind (f x)) := by
    cases l with
    | none => rfl
    | some x =>
      cases r with
      | none => rfl
      | some y => exact hfold x rfl y rfl
  rw [operate, hty, ok_bind, hfolded]
  rfl

/-- Folding divides as the evaluator of constants does. -/
theorem fold_slash {x y : Int} (h : ∀ v ∈ Constant.quotient? x y, Fits128 v) :
    fold .slash (some x) (some y) = .ok (Constant.quotient? x y) := by
  have hleast := Constant.not_least_of_fits h
  rw [← Constant.toOption_exactQuotient h]
  unfold fold Constant.exactQuotient
  dsimp only
  by_cases hzero : y = 0
  · rw [if_pos hzero, if_pos hzero]
    rfl
  · rw [if_neg hzero, if_neg hzero, if_neg hleast, if_neg hleast]
    by_cases hmod : x.tmod y = 0
    · rw [if_pos hmod, if_neg (not_not_intro hmod)]
      rfl
    · rw [if_neg hmod, if_pos hmod]
      rfl

/-- Folding takes powers as the evaluator of constants does. -/
theorem fold_caret {x y : Int} (h : ∀ v ∈ Constant.power? x y, Fits128 v) :
    fold .caret (some x) (some y) = .ok (Constant.power? x y) := by
  unfold fold
  dsimp only
  by_cases hlimit : 0 ≤ y ∧ y < limit32
  · have hpower : Constant.power? x y = some (x.pow y.toNat) := if_pos hlimit
    rw [if_pos hlimit, checkedPow128_eq_checked128, hpower, checked128, if_pos (h _ hpower)]
  · rw [if_neg hlimit, Constant.power?, if_neg hlimit]

variable {scope : Scope} {records : Registry}

/-- Checking a constant expression comes to an integer with its exact value, if it has one. -/
theorem derives_of_stands {prec : Constant.Precedence} {c : ConstExpr} (h : c.Stands prec) (hrange : c.InRange) :
    Derives scope records prec.level c.checkTokens (.ok ⟨.int, c.integer?⟩) := by
  induction h with
  | literal n => exact .int n
  | group _ ih => exact .group ((ih (ConstExpr.inRange_iff.mp hrange).2).loosen (by decide))
  | ofPrimary _ ih | ofPower _ ih | ofSign _ ih | ofProduct _ ih => exact (ih hrange).loosen (by decide)
  | @power b e _ _ ihb ihe =>
    obtain ⟨hvalue, hb, he⟩ := ConstExpr.inRange_iff.mp hrange
    have hfold (x : Int) (hx : x ∈ b.integer?) (y : Int) (hy : y ∈ e.integer?) :
        fold .caret (some x) (some y) = .ok (Constant.power? x y) :=
      fold_caret fun v hv => hvalue v (by rw [ConstExpr.integer?, hx, hy]; exact hv)
    have hpower : Derives scope records .power (b.checkTokens ++ .symbol .caret :: e.checkTokens) _ :=
      .right rfl rfl ((ihb hb).loosen (by decide)) (ihe he)
    rwa [ok_bind, ok_bind, operate_constants rfl hfold] at hpower
  | @negation c _ ih =>
    obtain ⟨hvalue, hc⟩ := ConstExpr.inRange_iff.mp hrange
    have hnegate := (ih hc).negate
    have hfold : negation ⟨.int, c.integer?⟩ = .ok ⟨.int, c.negation.integer?⟩ := by
      show Except.ok (⟨.int, c.integer?.bind fun v => checked128 (-v)⟩ : Typed) = _
      refine congrArg (fun value => Except.ok (⟨.int, value⟩ : Typed)) (Option.bind_congr fun v hv => ?_)
      exact checked128_eq_some_iff.mpr ⟨hvalue (-v) (by rw [ConstExpr.integer?, hv]; rfl), rfl⟩
    rwa [ok_bind, hfold] at hnegate
  | @product a b _ _ iha ihb =>
    obtain ⟨hvalue, ha, hb⟩ := ConstExpr.inRange_iff.mp hrange
    have hfold (x : Int) (hx : x ∈ a.integer?) (y : Int) (hy : y ∈ b.integer?) :
        fold .star (some x) (some y) = .ok (some (x * y)) := by
      have hfits : Fits128 (x * y) := hvalue _ (by rw [ConstExpr.integer?, hx, hy]; rfl)
      exact congrArg Except.ok (checked128_eq_some_iff.mpr ⟨hfits, rfl⟩)
    have hproduct : Derives scope records .product (a.checkTokens ++ .symbol .star :: b.checkTokens) _ :=
      .left rfl rfl (by decide) (iha ha) (ihb hb)
    rwa [ok_bind, ok_bind, operate_constants rfl hfold] at hproduct
  | @quotient a b _ _ iha ihb =>
    obtain ⟨hvalue, ha, hb⟩ := ConstExpr.inRange_iff.mp hrange
    have hfold (x : Int) (hx : x ∈ a.integer?) (y : Int) (hy : y ∈ b.integer?) :
        fold .slash (some x) (some y) = .ok (Constant.quotient? x y) :=
      fold_slash fun v hv => hvalue v (by rw [ConstExpr.integer?, hx, hy]; exact hv)
    have hquotient : Derives scope records .product (a.checkTokens ++ .symbol .slash :: b.checkTokens) _ :=
      .left rfl rfl (by decide) (iha ha) (ihb hb)
    rwa [ok_bind, ok_bind, operate_constants rfl hfold] at hquotient
  | @sum a b _ _ iha ihb =>
    obtain ⟨hvalue, ha, hb⟩ := ConstExpr.inRange_iff.mp hrange
    have hfold (x : Int) (hx : x ∈ a.integer?) (y : Int) (hy : y ∈ b.integer?) :
        fold .plus (some x) (some y) = .ok (some (x + y)) := by
      have hfits : Fits128 (x + y) := hvalue _ (by rw [ConstExpr.integer?, hx, hy]; rfl)
      exact congrArg Except.ok (checked128_eq_some_iff.mpr ⟨hfits, rfl⟩)
    have hsum : Derives scope records .sum (a.checkTokens ++ .symbol .plus :: b.checkTokens) _ :=
      .left rfl rfl (by decide) (iha ha) (ihb hb)
    rwa [ok_bind, ok_bind, operate_constants rfl hfold] at hsum
  | @difference a b _ _ iha ihb =>
    obtain ⟨hvalue, ha, hb⟩ := ConstExpr.inRange_iff.mp hrange
    have hfold (x : Int) (hx : x ∈ a.integer?) (y : Int) (hy : y ∈ b.integer?) :
        fold .minus (some x) (some y) = .ok (some (x - y)) := by
      have hfits : Fits128 (x - y) := hvalue _ (by rw [ConstExpr.integer?, hx, hy]; rfl)
      exact congrArg Except.ok (checked128_eq_some_iff.mpr ⟨hfits, rfl⟩)
    have hdifference : Derives scope records .sum (a.checkTokens ++ .symbol .minus :: b.checkTokens) _ :=
      .left rfl rfl (by decide) (iha ha) (ihb hb)
    rwa [ok_bind, ok_bind, operate_constants rfl hfold] at hdifference

/-- A constant expression inside an expression is an integer of its value. -/
theorem derives_constant {prec : Constant.Precedence} {c : ConstExpr} {v : Int} (h : c.Denotes prec v) :
    Derives scope records prec.level c.checkTokens (.ok ⟨.int, some v⟩) :=
  h.integer?_eq ▸ derives_of_stands h.stands h.inRange

end Check

end TensorFuzz
