import TensorFuzz.Proofs.Expr.Typing
import TensorFuzz.Proofs.Ty.Sized

/-!
# Types of operations

The operators that the generator chooses for a type give that type, and slices between the bounds that it chooses
have the size they are meant to have.
-/

namespace TensorFuzz

open Check (arithmetic matrixProduct indexCount sliceTy windowTy)

variable {op : Check.Symbol} {ty : Ty} {kind : Kind}

theorem arithmetic_same (hty : ty.isArithmetic = true) (hop : op = .slash → ty.isNumber = true) :
    arithmetic op ty ty = .ok ty := by
  rw [arithmetic, if_pos ⟨rfl, hty⟩, if_neg]
  rintro ⟨hslash, hnumber⟩
  rw [hop hslash] at hnumber
  cases hnumber

/-- A vector or matrix combined with a number of its kind on the right. -/
theorem arithmetic_element_right (hty : ty.isTensor = true) (hop : op = .plus ∨ op = .star ∨ op = .caret) :
    arithmetic op ty ty.elementTy = .ok ty := by
  rw [arithmetic, if_neg fun h => Ty.elementTy_ne hty h.1, if_pos, if_pos hty]
  rcases hop with rfl | rfl | rfl <;> simp [Check.broadcasts, hty]

/-- A vector or matrix combined with a number of its kind on the left. -/
theorem arithmetic_element_left (hty : ty.isTensor = true) (hop : op = .plus ∨ op = .star) :
    arithmetic op ty.elementTy ty = .ok ty := by
  have hscalar : ty.elementTy.isTensor = false := by
    cases ty with
    | vector kind => cases kind <;> rfl
    | matrix kind => cases kind <;> rfl
    | _ => cases hty
  rw [arithmetic, if_neg fun h => Ty.elementTy_ne hty h.1.symm, if_pos, if_neg (by simp [hscalar])]
  rcases hop with rfl | rfl <;> simp [Check.broadcasts, hty]

/-- A number of indices that a word holds is counted, whatever the bounds. -/
theorem indexCount_eq {lo hi : Int} {n : Nat} (hn : 1 ≤ n) (hlimit : n < limit64) (h : hi - lo + 1 = n) :
    indexCount lo hi = .ok n := by
  unfold limit64 at hlimit
  have hspan : Fits128 (hi - lo) := by unfold Fits128; omega
  have hcount : Fits128 (hi - lo + 1) := by unfold Fits128; omega
  rw [indexCount, if_neg (not_not_intro hspan), if_neg (not_not_intro hcount), if_pos (by unfold limit64; omega), h,
    Int.toNat_natCast]

theorem indexCount_self (v : Int) : indexCount v v = .ok 1 := indexCount_eq (by decide) (by decide) (by omega)

theorem sliceTy_of_lt {n : Nat} (hn : 1 < n) : sliceTy kind n = .vector kind n := if_neg (by omega)

theorem windowTy_of_lt {m n : Nat} (hm : 1 < m) : windowTy kind m n = .matrix kind m n := if_neg (by omega)

/-- The operands of a matrix product have values, and their product has the type. -/
theorem Ty.productOperands_ok {records : Registry} {bound shared : Nat} (hty : ty.Sized records bound)
    (hshared : 1 ≤ shared ∧ shared ≤ bound) (vectorOnLeft : Bool) :
    ∃ operands, ty.productOperands shared vectorOnLeft = .ok operands ∧ ∀ left right,
      operands = some (left, right) → left.Sized records bound ∧ right.Sized records bound ∧
        BinaryOp.matmul.Joins left right ty := by
  have hvector (kind : Kind) : vectorOf kind shared = .ok (.vector kind shared) := vectorOf_ok hshared.1
  -- A type that is no such product asks nothing of operands.
  have hno : ∃ operands, (Except.ok none : Except Fault (Option (Ty × Ty))) = .ok operands ∧ ∀ left right,
      operands = some (left, right) → left.Sized records bound ∧ right.Sized records bound ∧
        BinaryOp.matmul.Joins left right ty := ⟨none, rfl, by simp⟩
  cases ty with
  | int =>
    refine ⟨some (.vector .int shared, .vector .int shared), by rw [productOperands, hvector]; rfl, ?_⟩
    rintro _ _ ⟨⟩
    exact ⟨hshared, hshared, by simp [BinaryOp.Joins, matrixProduct, ofKind]⟩
  | float =>
    refine ⟨some (.vector .float shared, .vector .float shared), by rw [productOperands, hvector]; rfl, ?_⟩
    rintro _ _ ⟨⟩
    exact ⟨hshared, hshared, by simp [BinaryOp.Joins, matrixProduct, ofKind]⟩
  | vector kind length =>
    rw [productOperands]
    split
    · exact hno
    · cases vectorOnLeft with
      | true =>
        refine ⟨some (.vector kind shared, .matrix kind shared length), ?_, ?_⟩
        · rw [hvector, matrixOf_ok hshared.1 hty.1]
          rfl
        · rintro _ _ ⟨⟩
          exact ⟨hshared, ⟨hshared, hty⟩, by simp [BinaryOp.Joins, matrixProduct]⟩
      | false =>
        refine ⟨some (.matrix kind length shared, .vector kind shared), ?_, ?_⟩
        · rw [hvector, matrixOf_ok hty.1 hshared.1]
          rfl
        · rintro _ _ ⟨⟩
          exact ⟨⟨hty, hshared⟩, hshared, by simp [BinaryOp.Joins, matrixProduct]⟩
  | matrix kind rows cols =>
    rw [productOperands]
    split
    · exact hno
    · refine ⟨some (.matrix kind rows shared, .matrix kind shared cols), ?_, ?_⟩
      · rw [matrixOf_ok hty.1.1 hshared.1, matrixOf_ok hshared.1 hty.2.1]
        rfl
      · rintro _ _ ⟨⟩
        exact ⟨⟨hty.1, hshared⟩, ⟨hshared, hty.2⟩, by simp [BinaryOp.Joins, matrixProduct]⟩
  | _ => exact hno

end TensorFuzz
