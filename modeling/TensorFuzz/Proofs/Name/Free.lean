import TensorFuzz.Name.Draw
import TensorFuzz.Proofs.Random.Draws
import TensorFuzz.Text.Digits

/-!
# Free names

A name that is drawn until it is free is free: all redraws may be taken, but among one more numbers than there are
taken names, one makes the last draw free.
-/

namespace TensorFuzz.Name

theorem append_toString_inj {name : String} {m n : Nat} (h : name ++ toString m = name ++ toString n) : m = n := by
  have hdigits : (toString m).toList = (toString n).toList := by
    have hlist := congrArg String.toList h
    rw [String.toList_append, String.toList_append] at hlist
    exact List.append_cancel_left hlist
  rw [← Text.foldl_toString m, hdigits, Text.foldl_toString]

/-- Among one more candidates than there are names, one is not in the list. -/
theorem exists_free_suffix (names : List String) (name : String) :
    ∃ n ≤ names.length, name ++ toString (n + 2) ∉ names := by
  have hnodup : ((List.range (names.length + 1)).map fun n => name ++ toString (n + 2)).Nodup :=
    List.Pairwise.map _ (fun _ _ hne heq => hne (Nat.add_right_cancel (append_toString_inj heq))) List.nodup_range
  refine Decidable.byContradiction fun hnone => ?_
  have hsubset : (List.range (names.length + 1)).map (fun n => name ++ toString (n + 2)) ⊆ names := by
    intro candidate hmem
    obtain ⟨n, hn, rfl⟩ := List.mem_map.mp hmem
    exact Decidable.byContradiction fun hfree => hnone ⟨n, Nat.lt_succ_iff.mp (List.mem_range.mp hn), hfree⟩
  have hlength := hnodup.length_le_of_subset hsubset
  rw [List.length_map, List.length_range] at hlength
  omega

/-- The suffix is the smallest number from two on that makes the name free. -/
theorem withSuffix_smallest (taken : List String) (name : String) :
    ∃ n : Nat, withSuffix taken name = name ++ toString n ∧ name ++ toString n ∉ taken ∧ 2 ≤ n ∧
      ∀ m, 2 ≤ m → m < n → name ++ toString m ∈ taken := by
  obtain ⟨free, hle, hfree⟩ := exists_free_suffix taken name
  unfold withSuffix
  dsimp only
  rw [List.find?_map]
  cases hfind : (List.range (taken.length + 1)).find? ((fun candidate => decide (candidate ∉ taken)) ∘
      fun n => name ++ toString (n + 2)) with
  | none =>
    have hnone := List.find?_eq_none.mp hfind free (List.mem_range.mpr (Nat.lt_succ_of_le hle))
    exact absurd hfree (by simpa using hnone)
  | some n =>
    obtain ⟨hn, -, hbelow⟩ := List.find?_range_eq_some.mp hfind
    refine ⟨n + 2, rfl, by simpa using hn, by omega, fun m hm hlt => ?_⟩
    obtain ⟨k, rfl⟩ := Nat.exists_eq_add_of_le' hm
    simpa using hbelow k (by omega)

/-- A stem with the property, as it is or with a number behind it. -/
def Numbered (P : String → Prop) (name : String) : Prop :=
  ∃ stem, P stem ∧ (name = stem ∨ ∃ n : Nat, name = stem ++ toString n)

variable {σ : Type} [RandomSource σ] {act : Draw σ String} {P : String → Prop}

/-- However often a name is redrawn, it comes from a drawn stem and is free. -/
theorem redraw_yields (h : act.Yields P) (taken : List String) (redraws : Nat) :
    (redraw act taken redraws).Yields fun name => name ∉ taken ∧ Numbered P name := by
  induction redraws with
  | zero =>
    refine h.bind fun stem hstem => .pure ?_
    split
    · obtain ⟨n, heq, hfree, -⟩ := withSuffix_smallest taken stem
      exact ⟨heq ▸ hfree, stem, hstem, .inr ⟨n, heq⟩⟩
    · next hfree => exact ⟨hfree, stem, hstem, .inl rfl⟩
  | succ redraws ih =>
    refine h.bind fun stem hstem => .ite (fun _ => ih) fun hfree => .pure ?_
    exact ⟨hfree, stem, hstem, .inl rfl⟩

theorem unique_yields (h : act.Yields P) (taken : List String) :
    (unique act taken).Yields fun name => name ∉ taken ∧ Numbered P name := redraw_yields h taken maxRedraws

end TensorFuzz.Name
