/-!
# Machine words

Sizes are natural numbers and constants are integers; where an integer is stored in a signed word, the
functions here say what is kept of it, or whether it fits. Below the limits nothing is lost
(`signed64_of_fits`).
-/

namespace TensorFuzz

/-- The number of 64-bit words, which is the first size that none of them holds. -/
abbrev limit64 : Nat := 0x10000000000000000

abbrev limit32 : Nat := 0x100000000

/-- What a signed 64-bit word keeps of an integer. -/
def signed64 (n : Int) : Int := n.bmod 0x10000000000000000

/-- The integer lies in the range of a signed 64-bit word. -/
def Fits64 (n : Int) : Prop := -0x8000000000000000 ≤ n ∧ n < 0x8000000000000000

instance (n : Int) : Decidable (Fits64 n) := inferInstanceAs (Decidable (_ ∧ _))

/-- The integer lies in the range of a signed 128-bit word. -/
def Fits128 (n : Int) : Prop :=
  -0x80000000000000000000000000000000 ≤ n ∧ n < 0x80000000000000000000000000000000

instance (n : Int) : Decidable (Fits128 n) := inferInstanceAs (Decidable (_ ∧ _))

def least128 : Int := -0x80000000000000000000000000000000

theorem signed64_of_fits {n : Int} (h : Fits64 n) : signed64 n = n := by
  unfold Fits64 at h
  unfold signed64 Int.bmod
  dsimp only
  split <;> omega

theorem fits64_signed64 (n : Int) : Fits64 (signed64 n) := by
  unfold Fits64 signed64 Int.bmod
  dsimp only
  split <;> omega

/-- The integer nearest to `n` in the range of a signed 64-bit word. -/
def clamp64 (n : Int) : Int := max (-0x8000000000000000) (min n 0x7fffffffffffffff)

theorem fits64_clamp64 (n : Int) : Fits64 (clamp64 n) := by
  unfold Fits64 clamp64
  omega

/-- The integer, if a signed 128-bit word holds it. -/
def checked128 (n : Int) : Option Int := if Fits128 n then some n else none

theorem checked128_eq_some_iff {n m : Int} : checked128 n = some m ↔ Fits128 n ∧ n = m := by
  unfold checked128
  split <;> simp_all

/-- `base ^ exponent` in a signed 128-bit word, if it fits. Beyond an exponent of 127 only the powers
of `-1`, `0` and `1` fit, so no larger power is computed. -/
def checkedPow128 (base : Int) (exponent : Nat) : Option Int :=
  if base.natAbs ≤ 1 then
    some (if exponent = 0 then 1 else if exponent % 2 = 0 then base * base else base)
  else if exponent ≤ 127 then checked128 (Int.pow base exponent)
  else none

theorem not_fits128_pow {a : Int} {n : Nat} (ha : 2 ≤ a.natAbs) (hn : 128 ≤ n) : ¬ Fits128 (a.pow n) := by
  have hpow : 2 ^ 128 ≤ (a.pow n).natAbs :=
    calc 2 ^ 128 ≤ 2 ^ n := Nat.pow_le_pow_right (by decide) hn
      _ ≤ a.natAbs ^ n := Nat.pow_le_pow_left ha n
      _ = (a.pow n).natAbs := (Int.natAbs_pow a n).symm
  unfold Fits128
  omega

/-- The powers of minus one, zero and one alternate at most. -/
theorem pow_of_natAbs_le_one {a : Int} (ha : a.natAbs ≤ 1) (n : Nat) :
    a.pow n = if n = 0 then 1 else if n % 2 = 0 then a * a else a := by
  have hcube : a * a * a = a := by
    obtain rfl | rfl | rfl : a = 0 ∨ a = 1 ∨ a = -1 := by omega
    all_goals rfl
  induction n with
  | zero =>
    rw [if_pos rfl]
    exact Int.pow_zero a
  | succ n ih =>
    have hsucc : a.pow (n + 1) = a.pow n * a := Int.pow_succ a n
    rw [hsucc, ih, if_neg (Nat.succ_ne_zero n)]
    by_cases hzero : n = 0
    · rw [if_pos hzero, if_neg (by omega), Int.one_mul]
    · rw [if_neg hzero]
      by_cases heven : n % 2 = 0
      · rw [if_pos heven, if_neg (by omega), hcube]
      · rw [if_neg heven, if_pos (by omega)]

theorem checkedPow128_eq_checked128 (a : Int) (n : Nat) : checkedPow128 a n = checked128 (a.pow n) := by
  unfold checkedPow128
  split
  · next hsmall =>
    rw [← pow_of_natAbs_le_one hsmall n]
    have hpow : (a.pow n).natAbs ≤ 1 := by
      calc (a.pow n).natAbs = a.natAbs ^ n := Int.natAbs_pow a n
        _ ≤ 1 ^ n := Nat.pow_le_pow_left hsmall n
        _ = 1 := Nat.one_pow n
    have hfits : Fits128 (a.pow n) := by
      unfold Fits128
      omega
    exact (if_pos hfits).symm
  · next hlarge =>
    split
    · rfl
    · rw [checked128, if_neg (not_fits128_pow (by omega) (by omega))]

end TensorFuzz
