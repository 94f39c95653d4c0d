import TensorFuzz.Word

/-!
# Searches for decompositions

The divisors of a number up to its square root, and its forms as a perfect power. Both searches are
made only below a limit.
-/

namespace TensorFuzz.Search

/-- Magnitudes above this are not decomposed. -/
def limit : Nat := 1000000000

/-- The numbers from `n` on whose square is at most `m`, ascending. -/
def roots (m n : Nat) : List Nat :=
  if n * n ≤ m then n :: roots m (n + 1) else []
termination_by m + 1 - n
decreasing_by
  have := Nat.le_mul_self n
  omega

theorem mem_roots {m n k : Nat} : k ∈ roots m n ↔ n ≤ k ∧ k * k ≤ m := by
  fun_induction roots m n with
  | case1 n h ih =>
    rw [List.mem_cons, ih]
    constructor
    · rintro (rfl | ⟨h1, h2⟩)
      · exact ⟨Nat.le_refl _, h⟩
      · exact ⟨by omega, h2⟩
    · rintro ⟨h1, h2⟩
      by_cases hk : k = n
      · exact Or.inl hk
      · exact Or.inr ⟨by omega, h2⟩
  | case2 n h =>
    simp only [List.not_mem_nil, false_iff, not_and]
    intro h1 h2
    exact h (Nat.le_trans (Nat.mul_le_mul h1 h1) h2)

/-- Multiplies on from a power of `base`, whose exponent is given, until `value` is reached: the first power
that is not below it, and its exponent; `none` if an unsigned 64-bit word does not hold a product. -/
def climb? (base value power exponent : Nat) : Option (Nat × Nat) :=
  if h : power < value ∧ 1 < base ∧ 0 < power then
    if power * base < limit64 then climb? base value (power * base) (exponent + 1) else none
  else some (power, exponent)
termination_by value - power
decreasing_by
  have := Nat.mul_lt_mul_of_pos_left h.2.1 h.2.2
  omega

/-- The exponent from two on with which `base` gives `value`, if there is one. -/
def exponent? (base value : Nat) : Option Nat :=
  match climb? base value base 1 with
  | some (power, exponent) => if power = value ∧ 2 ≤ exponent then some exponent else none
  | none => none

/-- The divisors of `value` from one up to the square root of its magnitude; none for zero and beyond
the limit. -/
def divisors (value : Int) : List Nat :=
  if value = 0 ∨ limit < value.natAbs then []
  else (roots value.natAbs 1).filter (value.natAbs % · = 0)

/-- The pairs of a base and an exponent, both at least two, whose power is `value`; none beyond the
limit. -/
def perfectPowers (value : Nat) : List (Nat × Nat) :=
  if limit < value then []
  else (roots value 2).filterMap fun base => (exponent? base value).map (base, ·)

end TensorFuzz.Search
