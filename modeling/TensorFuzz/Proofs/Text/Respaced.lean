import Mathlib.Data.List.TakeWhile
import TensorFuzz.Proofs.Text.Runs

/-!
# Texts that differ in blank characters

Two texts are respaced if they have the same characters that are not blank, in the same order. The gaps in front of
these characters need not be the same, but are related: the relation may look at the characters around the gap.
-/

namespace TensorFuzz.Text

/-- All that stands in the gap is blank. -/
def IsGap (gap : List Char) : Prop := ∀ c ∈ gap, isBlank c = true

/-- Which gaps may stand for each other in front of a character that is not blank, behind the one before it if there is
one. -/
abbrev GapRelation := Option Char → Char → List Char → List Char → Prop

/-- The texts differ in blank characters only, and by related gaps. `last` is the character in front of the texts that is
not blank, if there is one. -/
inductive Respaced (R : GapRelation) : Option Char → List Char → List Char → Prop
  | ending {last : Option Char} {text text' : List Char} : IsGap text → IsGap text' → Respaced R last text text'
  | char {last : Option Char} {c : Char} {gap gap' text text' : List Char} : IsGap gap → IsGap gap' →
      isBlank c = false → R last c gap gap' → Respaced R (some c) text text' →
      Respaced R last (gap ++ c :: text) (gap' ++ c :: text')

variable {R R' : GapRelation} {last : Option Char} {text text' : List Char} {c : Char}

/-- The characters that are not blank, in order. -/
def ink (text : List Char) : List Char := text.filter (!isBlank ·)

theorem ink_of_isGap (h : IsGap text) : ink text = [] :=
  List.filter_eq_nil_iff.mpr fun c hc => by simp [h c hc]

namespace Respaced

theorem ink_eq (h : Respaced R last text text') : ink text = ink text' := by
  induction h with
  | ending htext htext' => rw [ink_of_isGap htext, ink_of_isGap htext']
  | @char _ c gap gap' text text' hgap hgap' hc _ _ ih =>
    have hfront {gap text : List Char} (hgap : IsGap gap) : ink (gap ++ c :: text) = c :: ink text := by
      rw [ink, List.filter_append, List.filter_cons_of_pos (by simp [hc])]
      exact congrArg (· ++ c :: ink text) (ink_of_isGap hgap)
    rw [hfront hgap, hfront hgap', ih]

theorem mono (h : Respaced R last text text') (hR : ∀ last c gap gap', R last c gap gap' → R' last c gap gap') :
    Respaced R' last text text' := by
  induction h with
  | ending htext htext' => exact .ending htext htext'
  | char hgap hgap' hc hrel _ ih => exact .char hgap hgap' hc (hR _ _ _ _ hrel) ih

theorem symm (h : Respaced R last text text') (hR : ∀ last c gap gap', R last c gap gap' → R last c gap' gap) :
    Respaced R last text' text := by
  induction h with
  | ending htext htext' => exact .ending htext' htext
  | char hgap hgap' hc hrel _ ih => exact .char hgap' hgap hc (hR _ _ _ _ hrel) ih

theorem dropWhile_of_isGap (h : IsGap text) : text.dropWhile isBlank = [] := List.dropWhile_eq_nil_iff.mpr h

/-- Behind the blank characters in front, both texts have ended or go on with the same character. -/
theorem trimmed (h : Respaced R last text text') :
    (text.dropWhile isBlank = [] ∧ text'.dropWhile isBlank = []) ∨
      ∃ c rest rest', text.dropWhile isBlank = c :: rest ∧ text'.dropWhile isBlank = c :: rest' ∧
        Respaced R (some c) rest rest' := by
  cases h with
  | ending htext htext' => exact .inl ⟨dropWhile_of_isGap htext, dropWhile_of_isGap htext'⟩
  | @char _ c gap gap' rest rest' hgap hgap' hc _ hrest =>
    have hfront {gap text : List Char} (hgap : IsGap gap) : (gap ++ c :: text).dropWhile isBlank = c :: text :=
      dropWhile_append_stop hgap (by rintro _ ⟨⟩; exact hc)
    exact .inr ⟨c, rest, rest', hfront hgap, hfront hgap', hrest⟩

/-- A word in both texts, with no gap between its characters. -/
theorem word {gap gap' word : List Char} (hgap : IsGap gap) (hgap' : IsGap gap')
    (hword : ∀ d ∈ c :: word, isBlank d = false) (hrel : R last c gap gap') (htight : ∀ d e, R (some d) e [] [])
    (hrest : Respaced R (c :: word).getLast? text text') :
    Respaced R last (gap ++ (c :: word ++ text)) (gap' ++ (c :: word ++ text')) := by
  obtain ⟨hc, hletters⟩ := List.forall_mem_cons.mp hword
  refine .char hgap hgap' hc hrel ?_
  clear hword hrel hgap hgap'
  induction word generalizing c with
  | nil => exact hrest
  | cons d word ih =>
    obtain ⟨hd, hletters⟩ := List.forall_mem_cons.mp hletters
    have hnone : IsGap [] := List.forall_mem_nil _
    rw [List.getLast?_cons_cons] at hrest
    exact .char hnone hnone hd (htight c d) (ih hrest hd hletters)

end Respaced

end TensorFuzz.Text
