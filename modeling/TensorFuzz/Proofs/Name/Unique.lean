import Mathlib.Data.List.Dedup
import TensorFuzz.Proofs.Name.Free

/-!
# The choice of a free name

Names are drawn one after another until one is free, thirty-three at most: the first free one is chosen. If all of them
are taken, the last one is numbered with the smallest number from two on that makes it free. How the names are drawn
does not matter: `names` is the sequence that they are drawn in, and `states` are the states between the draws.
-/

namespace TensorFuzz.Name

section
variable {S E : Type} {draw : StateT S (Except E) String} {names : Nat → String} {states : Nat → S}

/-- With so many redraws left, the first free name is chosen, or the last one is numbered. -/
theorem redraw_run (taken : List String) (redraws drawn : Nat)
    (hdraw : ∀ k, drawn ≤ k → k ≤ drawn + redraws → draw.run (states k) = .ok (names k, states (k + 1))) :
    (∃ k, drawn ≤ k ∧ k ≤ drawn + redraws ∧ names k ∉ taken ∧ (∀ j, drawn ≤ j → j < k → names j ∈ taken) ∧
        (redraw draw taken redraws).run (states drawn) = .ok (names k, states (k + 1))) ∨
      (∀ k, drawn ≤ k → k ≤ drawn + redraws → names k ∈ taken) ∧
        (redraw draw taken redraws).run (states drawn) =
          .ok (withSuffix taken (names (drawn + redraws)), states (drawn + redraws + 1)) := by
  have hfirst : draw (states drawn) = .ok (names drawn, states (drawn + 1)) :=
    hdraw drawn (Nat.le_refl _) (Nat.le_add_right _ _)
  induction redraws generalizing drawn with
  | zero =>
    have hrun : (redraw draw taken 0).run (states drawn) =
        .ok (if names drawn ∈ taken then withSuffix taken (names drawn) else names drawn, states (drawn + 1)) :=
      bind_of_ok hfirst
    by_cases htaken : names drawn ∈ taken
    · rw [if_pos htaken] at hrun
      refine .inr ⟨fun k hk hk' => ?_, hrun⟩
      obtain rfl : k = drawn := by omega
      exact htaken
    · rw [if_neg htaken] at hrun
      exact .inl ⟨drawn, Nat.le_refl _, Nat.le_refl _, htaken, fun j hj hlt => absurd hj (by omega), hrun⟩
  | succ redraws ih =>
    have hrun : (redraw draw taken (redraws + 1)).run (states drawn) =
        (if names drawn ∈ taken then redraw draw taken redraws else pure (names drawn)).run (states (drawn + 1)) :=
      bind_of_ok hfirst
    by_cases htaken : names drawn ∈ taken
    · rw [if_pos htaken] at hrun
      -- What was drawn before is taken, so the first free name is the first one from here on.
      have hextend {k : Nat} (h : ∀ j, drawn + 1 ≤ j → j < k → names j ∈ taken) (j : Nat) (hj : drawn ≤ j)
          (hlt : j < k) : names j ∈ taken := by
        rcases Nat.eq_or_lt_of_le hj with rfl | hj
        · exact htaken
        · exact h j hj hlt
      have hsum : drawn + 1 + redraws = drawn + (redraws + 1) := by omega
      have hrest := ih (drawn + 1) (fun k hk hk' => hdraw k (by omega) (by omega)) (hdraw _ (by omega) (by omega))
      rw [hsum, ← hrun] at hrest
      rcases hrest with ⟨k, hk, hk', hfree, hbefore, hresult⟩ | ⟨hall, hresult⟩
      · exact .inl ⟨k, by omega, hk', hfree, hextend hbefore, hresult⟩
      · refine .inr ⟨fun k hk hk' => hextend (k := drawn + (redraws + 1) + 1) ?_ k hk (by omega), hresult⟩
        exact fun j hj hlt => hall j hj (by omega)
    · rw [if_neg htaken] at hrun
      exact .inl ⟨drawn, Nat.le_refl _, by omega, htaken, fun j hj hlt => absurd hj (by omega), hrun⟩

/-- A name that is not taken is chosen with thirty-three draws at most: the first free one of the thirty-three, after no
more draws than up to it; or, if all are taken, the last one with the smallest number from two on behind it that is
free. The number fits a signed 32-bit word. -/
theorem unique_name_allocated (hdraw : ∀ k ≤ maxRedraws, draw.run (states k) = .ok (names k, states (k + 1)))
    {taken : List String} (htaken : taken.dedup.length < 0x7ffffffe) :
    ∃ name drawn, (unique draw taken).run (states 0) = .ok (name, states drawn) ∧ name ∉ taken ∧ drawn ≤ 33 ∧
      (∀ k < 33, names k ∉ taken → (∀ j < k, names j ∈ taken) → name = names k ∧ drawn = k + 1) ∧
      ((∀ k < 33, names k ∈ taken) → drawn = 33 ∧ ∃ n : Nat, 2 ≤ n ∧ n < 0x80000000 ∧
        name = names 32 ++ toString n ∧ ∀ m, 2 ≤ m → m < n → names 32 ++ toString m ∈ taken) := by
  have hmax : maxRedraws = 32 := rfl
  have hrun := redraw_run taken maxRedraws 0 fun k _ hk => hdraw k (by omega)
  rw [Nat.zero_add] at hrun
  rcases hrun with ⟨k, -, hk, hfree, hbefore, hresult⟩ | ⟨hall, hresult⟩
  · refine ⟨names k, k + 1, hresult, hfree, by omega, fun k' hk' hfree' hbefore' => ?_, fun hall => ?_⟩
    · have hle : ¬ k < k' := fun hlt => hfree (hbefore' k hlt)
      have hge : ¬ k' < k := fun hlt => hfree' (hbefore k' (Nat.zero_le _) hlt)
      obtain rfl : k = k' := by omega
      exact ⟨rfl, rfl⟩
    · exact absurd (hall k (by omega)) hfree
  · obtain ⟨n, hname, hfree, hlow, hsmallest⟩ := withSuffix_smallest taken (names 32)
    obtain ⟨m, hm, hfree'⟩ := exists_free_suffix taken.dedup (names 32)
    have hhigh : ¬ m + 2 < n := fun hlt => hfree' (List.mem_dedup.mpr (hsmallest _ (by omega) hlt))
    rw [hmax, hname] at hresult
    refine ⟨_, 33, hresult, hfree, Nat.le_refl _, fun k hk hfree' _ => ?_, fun _ => ?_⟩
    · exact absurd (hall k (Nat.zero_le _) (by omega)) hfree'
    · exact ⟨rfl, n, hlow, by omega, rfl, hsmallest⟩

end

/-- One name for ever, which is taken with the first numbers behind it. The state counts the draws. -/
theorem unique_name_allocated_numbered :
    let draw : StateT Nat (Except Fault) String := fun drawn => .ok ("packetNode", drawn + 1)
    (unique draw ["packetNode", "packetNode2", "packetNode3"]).run 0 = .ok ("packetNode4", 33) := by
  intro draw
  have hdraw : ∀ k ≤ maxRedraws, draw.run (id k) = .ok ("packetNode", id (k + 1)) := fun _ _ => rfl
  have htaken : ["packetNode", "packetNode2", "packetNode3"].dedup.length < 0x7ffffffe := by decide
  obtain ⟨name, drawn, hresult, hfree, -, -, hnumbered⟩ := unique_name_allocated hdraw htaken
  obtain ⟨rfl, n, hlow, -, rfl, hsmallest⟩ := hnumbered fun _ _ => by decide
  have hne2 : n ≠ 2 := fun heq => hfree (by rw [heq]; decide)
  have hne3 : n ≠ 3 := fun heq => hfree (by rw [heq]; decide)
  have hle : ¬ 4 < n := fun hlt => absurd (hsmallest 4 (by decide) hlt) (by decide)
  obtain rfl : n = 4 := by omega
  exact hresult

end TensorFuzz.Name
