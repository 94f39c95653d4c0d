import TensorFuzz.Stmt.Syntax
import TensorFuzz.Proofs.Name.Words
import TensorFuzz.Proofs.Text.Runs

/-!
# Texts without the words of headings

The words that a function or a record begins with stand nowhere else in a module. A text is clear of them if none of
its identifiers is one of them. Clear texts with marks between them are clear, as no identifier goes on across a mark.
-/

namespace TensorFuzz

open Check (isIdentChar IsName isDigit_iff)
open Text (runs Stops Closes runs_append_of_stops runs_append_of_closes runs_around runs_word subset_of_mem_runs)
open Name (Led)

/-- The words that functions and records begin with, and the word for what returns nothing. -/
def headingWords : List String := ["function", "record", "void"]

/-- The identifiers in a text, in order. -/
def identifiers (text : String) : List (List Char) := runs isIdentChar text.toList

/-- No identifier in the text is a word of headings. -/
def Clear (text : String) : Prop := ∀ word ∈ headingWords, word.toList ∉ identifiers text

instance (text : String) : Decidable (Clear text) :=
  decidable_of_iff (headingWords.all fun word => !(identifiers text).elem word.toList) (by simp [Clear])

/-- A clear text that no identifier of what follows begins in. -/
structure IsLead (lead : String) : Prop where
  clear : Clear lead
  closes : Closes isIdentChar lead.toList

/-- A clear text that no identifier goes on across: it begins and ends with other characters. -/
structure IsMark (mark : String) : Prop extends IsLead mark where
  stops : Stops isIdentChar mark.toList
  ne : mark ≠ ""

section
variable (p : Char → Bool) (text : String)

-- Named instances: a search may come upon the one that tries all characters.
instance : Decidable (Stops p text.toList) := Option.decidableForallMem _

instance : Decidable (Closes p text.toList) := Option.decidableForallMem _

instance : Decidable (IsLead text) :=
  decidable_of_iff (Clear text ∧ Closes isIdentChar text.toList) ⟨fun ⟨h, h'⟩ => ⟨h, h'⟩, fun ⟨h, h'⟩ => ⟨h, h'⟩⟩

instance : Decidable (IsMark text) :=
  decidable_of_iff (IsLead text ∧ Stops isIdentChar text.toList ∧ text ≠ "")
    ⟨fun ⟨h, hstops, hne⟩ => ⟨h, hstops, hne⟩, fun ⟨h, hstops, hne⟩ => ⟨h, hstops, hne⟩⟩

end

variable {text front rest mark name : String}

/-! ## Parts -/

theorem identifiers_append_of_stops (h : Stops isIdentChar rest.toList) :
    identifiers (front ++ rest) = identifiers front ++ identifiers rest := by
  rw [identifiers, String.toList_append, runs_append_of_stops h]
  rfl

theorem identifiers_append_of_closes (h : Closes isIdentChar front.toList) :
    identifiers (front ++ rest) = identifiers front ++ identifiers rest := by
  rw [identifiers, String.toList_append, runs_append_of_closes h]
  rfl

section
variable {q : Char → Bool}

theorem spaced_cons {text : String} {texts : List String} (h : texts ≠ []) :
    spaced (text :: texts) = text ++ " " ++ spaced texts := by
  cases texts with
  | nil => exact absurd rfl h
  | cons other others => exact String.intercalate_cons_cons

theorem runs_space (hspace : q ' ' = false) (front rest : String) :
    runs q (front ++ " " ++ rest).toList = runs q front.toList ++ runs q rest.toList := by
  rw [String.toList_append, String.toList_append, List.append_assoc]
  exact runs_around hspace

theorem runs_spaced (hspace : q ' ' = false) (texts : List String) :
    runs q (spaced texts).toList = texts.flatMap (runs q ·.toList) := by
  induction texts with
  | nil => rfl
  | cons text texts ih =>
    by_cases hnil : texts = []
    · subst hnil
      exact (List.append_nil _).symm
    · rw [spaced_cons hnil, runs_space hspace, ih]
      rfl

end

namespace Clear

theorem of_append (h : identifiers (front ++ rest) = identifiers front ++ identifiers rest) (hfront : Clear front)
    (hrest : Clear rest) : Clear (front ++ rest) := fun word hword hmem => by
  rw [h] at hmem
  exact (List.mem_append.mp hmem).elim (hfront word hword) (hrest word hword)

theorem behind (h : Clear rest) (hlead : IsLead front) : Clear (front ++ rest) :=
  of_append (identifiers_append_of_closes hlead.closes) hlead.clear h

theorem before (h : Clear front) (hmark : IsMark mark) : Clear (front ++ mark) :=
  of_append (identifiers_append_of_stops hmark.stops) h hmark.clear

/-- A mark between two texts. -/
theorem join (h : Clear front) (hmark : IsMark mark) (hrest : Clear rest) : Clear (front ++ mark ++ rest) := by
  refine hrest.behind ⟨h.before hmark, ?_⟩
  rw [String.toList_append]
  exact hmark.closes.append fun hnil => hmark.ne (String.toList_injective hnil)

theorem intercalate (hmark : IsMark mark) {texts : List String} (h : ∀ text ∈ texts, Clear text) :
    Clear (mark.intercalate texts) := by
  induction texts with
  | nil => exact (by decide : Clear "")
  | cons text texts ih =>
    obtain ⟨htext, htexts⟩ := List.forall_mem_cons.mp h
    cases texts with
    | nil => exact htext
    | cons other others =>
      rw [String.intercalate_cons_cons]
      exact htext.join hmark (ih htexts)

theorem spaced {texts : List String} (h : ∀ text ∈ texts, Clear text) : Clear (spaced texts) := intercalate (by decide) h

/-- All words of headings have a letter that neither numbers nor operators have. -/
theorem of_not_mem (h : 'o' ∉ text.toList) : Clear text := by
  have hletter : ∀ word ∈ headingWords, 'o' ∈ word.toList := by decide
  exact fun word hword hmem => h (subset_of_mem_runs hmem (hletter word hword))

theorem number (n : Nat) : Clear (toString n) :=
  of_not_mem fun hmem => absurd (Text.isDigit_of_mem_toString hmem) (by decide)

end Clear

/-! ## Names -/

/-- A name that no heading begins with. -/
def PlainName (name : String) : Prop := IsName name ∧ name ∉ headingWords

theorem identifiers_name (h : IsName name) : identifiers name = [name.toList] := by
  obtain ⟨c, cs, hlist, hc, hcs⟩ := h
  refine runs_word (by simp [hlist]) ?_
  rw [hlist]
  exact List.forall_mem_cons.mpr ⟨Check.isIdentChar_of_isIdentStart hc, hcs⟩

theorem PlainName.clear (h : PlainName name) : Clear name := fun word hword hmem => by
  rw [identifiers_name h.1] at hmem
  exact h.2 (String.toList_injective (List.mem_singleton.mp hmem) ▸ hword)

theorem PlainName.of_led {leads : List String} (h : Led leads name) (hwords : ∀ lead ∈ leads, Name.IsWord lead)
    (hplain : ∀ lead ∈ leads, lead ∉ headingWords) : PlainName name :=
  ⟨h.isName hwords, h.not_mem hwords (by decide) hplain⟩

theorem PlainName.of_variable {ty : Ty} (h : Led (Name.firstWords (Name.patterns ty)) name) : PlainName name :=
  .of_led h (Name.patterns_wordy ty).2.firstWords (by cases ty <;> (rw [Name.patterns]; decide))

theorem PlainName.of_function (h : Led Name.functionWords name) : PlainName name :=
  .of_led h Name.isWord_functionWords (by decide)

theorem PlainName.of_record (h : Led (Name.firstWords Name.records) name) : PlainName name :=
  .of_led h (by decide) (by decide)

end TensorFuzz
