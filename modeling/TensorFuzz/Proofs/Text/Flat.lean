import TensorFuzz.Expr.Generate
import TensorFuzz.Proofs.Expr.Tokens
import TensorFuzz.Proofs.Text.Clear
import TensorFuzz.Proofs.Text.Brackets

/-!
# Flat texts

The texts that modules are made of: brackets around texts, strings that the generator knows, and characters that open,
close and quote nothing. Braces are of three kinds: those around a block have a space on either side, those of a slice
touch what they enclose, and those between the rows and the columns of a window touch each other.
-/

namespace TensorFuzz

open Text (isBlank closer? isCloser isBrace Nested Neutral Settles BracesSettle Edged words)
open Check (isIdentChar)

/-- The character is no bracket and no quotation mark, and blank only if it is a space. -/
def isQuiet (c : Char) : Bool :=
  (closer? c).isNone && !isCloser c && c != '"' && (!isBlank c || c == ' ')

inductive Flat : List Char → Prop
  | nil : Flat []
  | quiet {c : Char} : isQuiet c = true → Flat [c]
  | append {front rest : List Char} : Flat front → Flat rest → Flat (front ++ rest)
  | literal {content : String} : content ∈ Expr.strings → Flat ('"' :: (content.toList ++ ['"']))
  | round {text : List Char} : Flat text → Flat ('(' :: (text ++ [')']))
  | square {text : List Char} : Flat text → Flat ('[' :: (text ++ [']']))
  | braces {text : List Char} : Flat text → Edged text → Flat ('\x7b' :: (text ++ ['\x7d']))
  | window {front rest : List Char} : Flat front → Edged front → Flat rest → Edged rest →
      Flat ('\x7b' :: (front ++ ' ' :: '\x7d' :: '\x7b' :: ' ' :: (rest ++ ['\x7d'])))
  | block {text : List Char} : Flat text → Flat (' ' :: '\x7b' :: ' ' :: (text ++ [' ', '\x7d', ' ']))

variable {c : Char}

theorem isQuiet_iff : isQuiet c = true ↔
    ((closer? c = none ∧ isCloser c = false) ∧ c ≠ '"') ∧ (isBlank c = true → c = ' ') := by
  rw [isQuiet, Bool.and_eq_true_iff, Bool.and_eq_true_iff, Bool.and_eq_true_iff, Option.isNone_iff_eq_none,
    Bool.not_eq_true', bne_iff_ne, Bool.or_eq_true_iff, Bool.not_eq_true', beq_iff_eq]
  refine and_congr_right fun _ => ?_
  cases isBlank c <;> simp

theorem isQuiet_of_isIdentChar (h : isIdentChar c = true) : isQuiet c = true := by
  have hne {d : Char} (hd : isIdentChar d = false) : c ≠ d := by
    rintro rfl
    exact Bool.noConfusion (h.symm.trans hd)
  have hcloser : closer? c = none := by
    unfold closer?
    split
    · exact absurd rfl (hne (by decide))
    · exact absurd rfl (hne (by decide))
    · exact absurd rfl (hne (by decide))
    · rfl
  refine isQuiet_iff.mpr ⟨⟨⟨hcloser, ?_⟩, hne (by decide)⟩, fun hblank => ?_⟩
  · simp [isCloser, hne (d := ')') (by decide), hne (d := ']') (by decide), hne (d := '\x7d') (by decide)]
  · exact Bool.noConfusion ((Check.isBlank_of_isIdentChar h).symm.trans hblank)

theorem isBrace_of_isQuiet (h : isQuiet c = true) : isBrace c = false := by
  refine Bool.eq_false_iff.mpr fun hbrace => ?_
  rcases Bool.or_eq_true_iff.mp hbrace with hbrace | hbrace <;>
    exact absurd h (by rw [beq_iff_eq.mp hbrace]; decide)

/-- The strings hold no brackets and no quotation marks, and no blank characters but spaces. -/
theorem isQuiet_of_mem_strings {content : String} (h : content ∈ Expr.strings) : ∀ c ∈ content.toList, isQuiet c = true := by
  revert content
  decide

namespace Flat

variable {text : List Char}

/-! ## Readings -/

/-- Brackets nest properly in a flat text. -/
theorem neutral (h : Flat text) : Neutral text := by
  induction h with
  | nil => exact .nil
  | quiet hc => exact .singleton (isQuiet_iff.mp hc).1.1.1 (isQuiet_iff.mp hc).1.1.2
  | append _ _ ih ih' => exact ih.append ih'
  | literal hcontent =>
    have hquote : Neutral ['"'] := .singleton rfl rfl
    have hquiet : Neutral _ := .of_forall fun c hc => (isQuiet_iff.mp (isQuiet_of_mem_strings hcontent c hc)).1.1
    exact hquote.append (hquiet.append hquote)
  | round _ ih => exact ih.enclose rfl
  | square _ ih => exact ih.enclose rfl
  | braces _ _ ih => exact ih.enclose rfl
  | @window front rest _ _ _ _ ih ih' =>
    have hspace : Neutral [' '] := .singleton rfl rfl
    have hrows : Neutral ('\x7b' :: (front ++ [' '] ++ ['\x7d'])) := (ih.append hspace).enclose rfl
    have hcols : Neutral ('\x7b' :: ([' '] ++ rest ++ ['\x7d'])) := (hspace.append ih').enclose rfl
    simpa using hrows.append hcols
  | @block text _ ih =>
    have hspace : Neutral [' '] := .singleton rfl rfl
    have hinner : Neutral ('\x7b' :: ([' '] ++ text ++ [' '] ++ ['\x7d'])) :=
      ((hspace.append ih).append hspace).enclose rfl
    simpa using (hspace.append hinner).append hspace

/-- The braces of a flat text that are words are those around blocks. -/
theorem bracesSettle (h : Flat text) : BracesSettle text := by
  induction h with
  | nil => exact .of_forall (List.forall_mem_nil _)
  | quiet hc => exact .of_forall (List.forall_mem_singleton.mpr (isBrace_of_isQuiet hc))
  | append _ _ ih ih' => exact ih.append ih'
  | literal hcontent =>
    have hquote : BracesSettle ['"'] := .of_forall (by decide)
    exact hquote.append (.append (.of_forall fun c hc => isBrace_of_isQuiet (isQuiet_of_mem_strings hcontent c hc)) hquote)
  | round _ ih =>
    have hopen : BracesSettle ['('] := .of_forall (by decide)
    exact hopen.append (ih.append (.of_forall (by decide)))
  | square _ ih =>
    have hopen : BracesSettle ['['] := .of_forall (by decide)
    exact hopen.append (ih.append (.of_forall (by decide)))
  | braces _ hedged ih => exact ih.glued hedged
  | window _ hedged _ hedged' ih ih' => exact ih.window ih' hedged hedged'
  | block _ ih => exact ih.block

/-- A flat text stands on one line. -/
theorem eq_space (h : Flat text) : ∀ c ∈ text, isBlank c = true → c = ' ' := by
  have hsolid {c : Char} (hc : isBlank c = false) : isBlank c = true → c = ' ' := fun h =>
    Bool.noConfusion (hc.symm.trans h)
  induction h with
  | nil => exact List.forall_mem_nil _
  | quiet hc => exact List.forall_mem_singleton.mpr (isQuiet_iff.mp hc).2
  | append _ _ ih ih' => exact List.forall_mem_append.mpr ⟨ih, ih'⟩
  | literal hcontent =>
    simp only [List.forall_mem_cons, List.forall_mem_append]
    exact ⟨hsolid (by decide), fun c hc => (isQuiet_iff.mp (isQuiet_of_mem_strings hcontent c hc)).2, by decide⟩
  | round _ ih | square _ ih | braces _ _ ih =>
    simp only [List.forall_mem_cons, List.forall_mem_append]
    exact ⟨hsolid (by decide), ih, by decide⟩
  | window _ _ _ _ ih ih' =>
    simp only [List.forall_mem_cons, List.forall_mem_append]
    exact ⟨hsolid (by decide), ih, by decide, by decide, by decide, by decide, ih', by decide⟩
  | block _ ih =>
    simp only [List.forall_mem_cons, List.forall_mem_append]
    exact ⟨by decide, by decide, by decide, ih, by decide⟩

/-! ## Parts -/

theorem of_forall (h : ∀ c ∈ text, isQuiet c = true) : Flat text := by
  induction text with
  | nil => exact nil
  | cons c text ih =>
    obtain ⟨hc, htext⟩ := List.forall_mem_cons.mp h
    exact (quiet hc).append (ih htext)

theorem cons (hc : isQuiet c = true) (h : Flat text) : Flat (c :: text) := (quiet hc).append h

theorem number (n : Nat) : Flat (toString n).toList :=
  of_forall fun _ hc => isQuiet_of_isIdentChar (Check.isIdentChar_of_isDigit (Text.isDigit_of_mem_toString hc))

variable {front lead mark rest : String}

theorem behind (h : Flat rest.toList) (hlead : ∀ c ∈ lead.toList, isQuiet c = true) : Flat (lead ++ rest).toList := by
  rw [String.toList_append]
  exact (of_forall hlead).append h

theorem before (h : Flat front.toList) (hmark : ∀ c ∈ mark.toList, isQuiet c = true) : Flat (front ++ mark).toList := by
  rw [String.toList_append]
  exact h.append (of_forall hmark)

theorem join (h : Flat front.toList) (hmark : ∀ c ∈ mark.toList, isQuiet c = true) (hrest : Flat rest.toList) :
    Flat (front ++ mark ++ rest).toList := by
  rw [String.toList_append]
  exact (h.before hmark).append hrest

theorem intercalate (hmark : ∀ c ∈ mark.toList, isQuiet c = true) {texts : List String}
    (h : ∀ text ∈ texts, Flat text.toList) : Flat (mark.intercalate texts).toList := by
  induction texts with
  | nil => exact nil
  | cons text texts ih =>
    obtain ⟨htext, htexts⟩ := List.forall_mem_cons.mp h
    cases texts with
    | nil => exact htext
    | cons other others =>
      rw [String.intercalate_cons_cons]
      exact htext.join hmark (ih htexts)

theorem spaced {texts : List String} (h : ∀ text ∈ texts, Flat text.toList) : Flat (spaced texts).toList :=
  intercalate (by decide) h

end Flat

theorem PlainName.flat {name : String} (h : PlainName name) : Flat name.toList := by
  obtain ⟨c, cs, hlist, hc, hcs⟩ := h.1
  rw [hlist]
  exact .of_forall (List.forall_mem_cons.mpr ⟨isQuiet_of_isIdentChar (Check.isIdentChar_of_isIdentStart hc),
    fun d hd => isQuiet_of_isIdentChar (hcs d hd)⟩)

end TensorFuzz
