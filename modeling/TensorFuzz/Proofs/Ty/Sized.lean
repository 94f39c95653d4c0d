import TensorFuzz.Profile
import TensorFuzz.Record
import TensorFuzz.Ty.Spelled
import TensorFuzz.Proofs.Constant.Spelling

/-!
# Types inside a bound

Types that have values, with dimensions between one and a bound and registered records only. The functions that build
vectors and matrices give such types. The dimensions of a type are spelled as constant expressions of the same
values.
-/

namespace TensorFuzz

def Ty.dimensions : Ty → List Nat
  | .vector _ length => [length]
  | .matrix _ rows cols => [rows, cols]
  | _ => []

/-- The bound of the dimensions of declared types. -/
def Profile.dimensionBound (p : Profile) : Nat := max p.maxDimension 1

/-- The type has values, its dimensions lie between one and the bound, and its record is registered. -/
def Ty.Sized (records : Registry) (bound : Nat) : Ty → Prop
  | .void => False
  | .vector _ length => 1 ≤ length ∧ length ≤ bound
  | .matrix _ rows cols => (1 ≤ rows ∧ rows ≤ bound) ∧ (1 ≤ cols ∧ cols ≤ bound)
  | .record id => id ∈ records.ids
  | .bool | .int | .float | .string => True

section
variable {records records' : Registry} {bound bound' : Nat} {ty : Ty}

/-- No record is registered in the empty registry. -/
theorem Ty.Sized.recordId? (h : ty.Sized .empty bound) : ty.recordId? = none := by
  cases ty with
  | record => cases h
  | _ => rfl

theorem Ty.Sized.mono (h : ty.Sized records bound) (hids : records.ids ⊆ records'.ids) (hbound : bound ≤ bound') :
    ty.Sized records' bound' := by
  cases ty with
  | void => exact h
  | vector => exact ⟨h.1, Nat.le_trans h.2 hbound⟩
  | matrix => exact ⟨⟨h.1.1, Nat.le_trans h.1.2 hbound⟩, ⟨h.2.1, Nat.le_trans h.2.2 hbound⟩⟩
  | record => exact hids h
  | bool | int | float | string => trivial

theorem Ty.Sized.widen (h : ty.Sized records bound) (hbound : bound ≤ bound') : ty.Sized records bound' :=
  h.mono (List.Subset.refl _) hbound

theorem Ty.Sized.elementTy (h : ty.Sized records bound) : ty.elementTy.Sized records bound := by
  cases ty with
  | vector kind => cases kind <;> trivial
  | matrix kind => cases kind <;> trivial
  | _ => exact h

end

/-! ## Shapes -/

section
variable {ty : Ty} {kind : Kind}

theorem Ty.eq_bool (hty : ty.isBool = true) : ty = .bool := by cases ty <;> first | rfl | cases hty

theorem Ty.exists_kind (hty : ty.isNumber = true) : ∃ kind, ty = .ofKind kind := by
  cases ty with
  | int => exact ⟨.int, rfl⟩
  | float => exact ⟨.float, rfl⟩
  | _ => cases hty

theorem Ty.elementTy_ne (hty : ty.isTensor = true) : ty ≠ ty.elementTy := by
  cases ty with
  | vector kind => cases kind <;> exact fun h => by cases h
  | matrix kind => cases kind <;> exact fun h => by cases h
  | _ => cases hty

theorem Ty.vectorOf_ok {n : Nat} (hn : 1 ≤ n) : Ty.vectorOf kind n = .ok (.vector kind n) := if_neg (by omega)

theorem Ty.matrixOf_ok {m n : Nat} (hm : 1 ≤ m) (hn : 1 ≤ n) : Ty.matrixOf kind m n = .ok (.matrix kind m n) :=
  if_neg (by omega)

theorem Ty.asVector_ofKind {n : Nat} (hn : 1 ≤ n) : (Ty.ofKind kind).asVector n = .ok (.vector kind n) := by
  cases kind <;> exact Ty.vectorOf_ok hn

theorem Ty.asMatrix_ofKind {m n : Nat} (hm : 1 ≤ m) (hn : 1 ≤ n) :
    (Ty.ofKind kind).asMatrix m n = .ok (.matrix kind m n) := by
  cases kind <;> exact Ty.matrixOf_ok hm hn

end

/-! ## Spelled types -/

/-- The spelled type is the type, with constant expressions for the signed words that hold its dimensions. -/
inductive SpelledTy.Spells : SpelledTy → Ty → Prop
  | plain {ty : Ty} : ty.isTensor = false → Spells (.plain ty) ty
  | vector {kind : Kind} {c : ConstExpr} {length : Nat} : c.Denotes .sum (signed64 length) →
      Spells (.vector kind c) (.vector kind length)
  | matrix {kind : Kind} {c d : ConstExpr} {rows cols : Nat} : c.Denotes .sum (signed64 rows) →
      d.Denotes .sum (signed64 cols) → Spells (.matrix kind c d) (.matrix kind rows cols)

theorem Ty.spell_yields {σ : Type} [RandomSource σ] (levels : Nat) (ty : Ty) :
    (ty.spell levels : Draw σ SpelledTy).Yields (·.Spells ty) := by
  have hdimension (n : Nat) : (Constant.synthesize levels (signed64 n) : Draw σ ConstExpr).Yields
      (·.Denotes .sum (signed64 n)) := Constant.synthesize_yields levels (fits64_signed64 n)
  cases ty with
  | vector kind length => exact (hdimension length).bind fun c hc => .pure (.vector hc)
  | matrix kind rows cols =>
    exact (hdimension rows).bind fun c hc => (hdimension cols).bind fun d hd => .pure (.matrix hc hd)
  | _ => exact .pure (.plain rfl)

end TensorFuzz
