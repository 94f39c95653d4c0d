import TensorFuzz.Constant.Search

/-!
# The searches are exact

Both searches go through all numbers up to the square root of what is decomposed. A divisor is found where the
remainder is zero, and an exponent where climbing from power to power meets the value: the powers of a base from two on
grow, so the climb passes the value once, and below the limit no product on the way leaves its word.
-/

namespace TensorFuzz.Search

theorem le_of_mem_roots {m n k : Nat} (h : k ∈ roots m n) : n ≤ k := (mem_roots.mp h).1

theorem roots_ascending (m n : Nat) : (roots m n).Pairwise (· < ·) := by
  fun_induction roots m n with
  | case1 n h ih => exact List.pairwise_cons.mpr ⟨fun _ hk => le_of_mem_roots hk, ih⟩
  | case2 => exact .nil

/-! ## Divisors -/

theorem divisors_ascending (value : Int) : (divisors value).Pairwise (· < ·) := by
  unfold divisors
  split
  · exact .nil
  · exact (roots_ascending _ _).filter _

theorem mem_divisors_iff {value : Int} {n : Nat} : n ∈ divisors value ↔
    (0 < value.natAbs ∧ value.natAbs ≤ limit) ∧ 1 ≤ n ∧ n * n ≤ value.natAbs ∧ (n : Int) ∣ value := by
  have hdvd : value.natAbs % n = 0 ↔ (n : Int) ∣ value :=
    (Nat.dvd_iff_mod_eq_zero).symm.trans Int.ofNat_dvd_left.symm
  unfold divisors
  split
  · next hout =>
    simp only [List.not_mem_nil, false_iff]
    omega
  · next hin =>
    rw [List.mem_filter, decide_eq_true_iff, hdvd, mem_roots, and_assoc]
    exact (and_iff_right (by omega)).symm

/-! ## Perfect powers -/

/-- Below the limit the climb meets no product that leaves its word, and ends with the first power that is not below
the value. -/
theorem climb?_reaches {base value : Nat} (exponent : Nat) (hbase : 2 ≤ base) (hroot : base ≤ value)
    (hvalue : value ≤ limit) :
    ∃ n, climb? base value (base.pow exponent) exponent = some (base.pow n, n) ∧ exponent ≤ n ∧ value ≤ base.pow n ∧
      ∀ m, exponent ≤ m → m < n → base.pow m < value := by
  generalize hpower : base.pow exponent = p
  fun_induction climb? base value p exponent with
  | case1 p exponent h _ ih =>
    obtain ⟨n, hrun, hle, hreached, hbelow⟩ := ih (congrArg (· * base) hpower)
    refine ⟨n, hrun, by omega, hreached, fun m hm hlt => ?_⟩
    rcases Nat.eq_or_lt_of_le hm with rfl | hm
    · exact hpower ▸ h.1
    · exact hbelow m hm hlt
  | case2 p exponent h hlarge =>
    have hproduct : p * base ≤ limit * limit := Nat.mul_le_mul (by omega) (by omega)
    have hword : limit * limit < limit64 := by decide
    omega
  | case3 p exponent h =>
    have hpos : 0 < base.pow exponent := Nat.pow_pos (by omega)
    refine ⟨exponent, by rw [hpower], Nat.le_refl _, ?_, fun m hm hlt => absurd hlt (Nat.not_lt.mpr hm)⟩
    rw [hpower] at hpos ⊢
    omega

/-- The exponent is found wherever there is one. -/
theorem exponent?_eq_some_iff {base value n : Nat} (hbase : 2 ≤ base) (hroot : base ≤ value) (hvalue : value ≤ limit) :
    exponent? base value = some n ↔ 2 ≤ n ∧ base.pow n = value := by
  have hstart : base.pow 1 = base := Nat.pow_one base
  obtain ⟨m, hrun, -, hreached, hbelow⟩ := climb?_reaches 1 hbase hroot hvalue
  rw [hstart] at hrun
  rw [exponent?, hrun]
  dsimp only
  constructor
  · intro h
    split at h
    · next hfound =>
      cases h
      exact ⟨hfound.2, hfound.1⟩
    · cases h
  · rintro ⟨hn, rfl⟩
    -- Powers grow with their exponents, so the first one that reaches the value is the value itself.
    have hle : m ≤ n := Nat.not_lt.mp fun hlt => Nat.lt_irrefl _ (hbelow n (by omega) hlt)
    have hge : n ≤ m := (Nat.pow_le_pow_iff_right hbase).mp hreached
    obtain rfl : m = n := Nat.le_antisymm hle hge
    rw [if_pos ⟨rfl, hn⟩]

theorem perfectPowers_ascending (value : Nat) : ((perfectPowers value).map Prod.fst).Pairwise (· < ·) := by
  unfold perfectPowers
  split
  · exact .nil
  · rw [List.map_filterMap]
    refine List.pairwise_filterMap.mpr ((roots_ascending value 2).imp fun hlt base hbase base' hbase' => ?_)
    simp only [Option.map_map, Option.map_eq_some_iff, Function.comp_apply] at hbase hbase'
    obtain ⟨_, _, rfl⟩ := hbase
    obtain ⟨_, _, rfl⟩ := hbase'
    exact hlt

theorem mem_perfectPowers_iff {value base exponent : Nat} : (base, exponent) ∈ perfectPowers value ↔
    value ≤ limit ∧ 2 ≤ base ∧ 2 ≤ exponent ∧ base.pow exponent = value := by
  unfold perfectPowers
  split
  · next hout =>
    simp only [List.not_mem_nil, false_iff]
    omega
  · next hin =>
    have hpair : (base, exponent) ∈ (roots value 2).filterMap (fun base => (exponent? base value).map (base, ·)) ↔
        base ∈ roots value 2 ∧ exponent? base value = some exponent := by
      simp [List.mem_filterMap]
    rw [hpair, mem_roots]
    constructor
    · rintro ⟨⟨hbase, hroot⟩, hfound⟩
      have hle : base ≤ value := Nat.le_trans (Nat.le_mul_self base) hroot
      exact ⟨by omega, hbase, (exponent?_eq_some_iff hbase hle (by omega)).mp hfound⟩
    · rintro ⟨hvalue, hbase, hexponent, rfl⟩
      have hroot : base * base ≤ base.pow exponent := by
        rw [← Nat.pow_two]
        exact Nat.pow_le_pow_right (by omega) hexponent
      have hle : base ≤ base.pow exponent := Nat.le_trans (Nat.le_mul_self base) hroot
      exact ⟨⟨hbase, hroot⟩, (exponent?_eq_some_iff hbase hle hvalue).mpr ⟨hexponent, rfl⟩⟩

/-! ## Both searches -/

/-- Of a number up to the limit, the divisors up to the square root of its magnitude are found, ascending and each once,
and nothing else; of any other number, none. Up to the limit, the pairs of a base and an exponent from two on whose
power is the number are found, ascending in the base, and nothing else, and no product of the search leaves its word;
beyond the limit, none. -/
theorem searches_exact :
    (∀ value : Int, (divisors value).Pairwise (· < ·) ∧
      (0 < value.natAbs ∧ value.natAbs ≤ 1000000000 →
        ∀ n : Nat, n ∈ divisors value ↔ 1 ≤ n ∧ n * n ≤ value.natAbs ∧ (n : Int) ∣ value) ∧
      (¬ (0 < value.natAbs ∧ value.natAbs ≤ 1000000000) → divisors value = [])) ∧
    ∀ value : Nat, ((perfectPowers value).map Prod.fst).Pairwise (· < ·) ∧
      (value ≤ 1000000000 →
        (∀ base exponent, (base, exponent) ∈ perfectPowers value ↔ 2 ≤ base ∧ 2 ≤ exponent ∧ base.pow exponent = value) ∧
        ∀ base ∈ roots value 2, ∃ power exponent, climb? base value base 1 = some (power, exponent)) ∧
      (1000000000 < value → perfectPowers value = []) := by
  refine ⟨fun value => ⟨divisors_ascending value, fun hin n => ?_, fun hout => ?_⟩, fun value =>
    ⟨perfectPowers_ascending value, fun hin => ⟨fun base exponent => ?_, fun base hbase => ?_⟩, fun hout => ?_⟩⟩
  · exact mem_divisors_iff.trans (and_iff_right hin)
  · exact List.eq_nil_iff_forall_not_mem.mpr fun n hn => hout (mem_divisors_iff.mp hn).1
  · exact mem_perfectPowers_iff.trans (and_iff_right hin)
  · obtain ⟨hlow, hroot⟩ := mem_roots.mp hbase
    have hle : base ≤ value := Nat.le_trans (Nat.le_mul_self base) hroot
    obtain ⟨n, hrun, -⟩ := climb?_reaches 1 hlow hle hin
    have hstart : base.pow 1 = base := Nat.pow_one base
    exact ⟨_, n, by rw [← hrun, hstart]⟩
  · exact if_pos hout

/-- A square of a prime, the least signed word, a power with three bases, and a prime beyond the limit. -/
theorem searches_exact_square : 7 ∈ divisors (-49) ∧ divisors (-0x8000000000000000) = [] ∧
    (8, 2) ∈ perfectPowers 64 ∧ (∃ power exponent, climb? 8 64 8 1 = some (power, exponent)) ∧
    perfectPowers 1000000007 = [] := by
  obtain ⟨hdivisors, hpowers⟩ := searches_exact
  obtain ⟨-, hbelow, -⟩ := hpowers 64
  obtain ⟨hfound, hclimbs⟩ := hbelow (by decide)
  have hseven : 7 ∈ divisors (-49) := ((hdivisors (-49)).2.1 (by decide) 7).mpr (by decide)
  have hclimb := hclimbs 8 (mem_roots.mpr (by decide))
  exact ⟨hseven, (hdivisors _).2.2 (by decide), (hfound 8 2).mpr (by decide), hclimb, (hpowers _).2.2 (by decide)⟩

end TensorFuzz.Search
