import TensorFuzz.Proofs.Layout.Gaps
import TensorFuzz.Proofs.Module.Brackets

/-!
# The strings of a laid out text

The layout looks at words alone, and so breaks lines inside strings too. In the strings of a module the only gaps are
single spaces between letters, and those it keeps. So laying out a module changes neither its tokens nor its strings.
-/

namespace TensorFuzz

open Text (isBlank IsGap GapRelation Respaced ink)
open Check (isIdentChar tokens check)
open Layout (pretty)

/-! ## String literals -/

namespace Text

/-- The contents of the string literals in a text, behind what has been read of one that is still open. -/
def literalsAfter : Option (List Char) → List Char → List (List Char)
  | _, [] => []
  | none, c :: rest => literalsAfter (if c = '"' then some [] else none) rest
  | some content, c :: rest =>
    if c = '"' then content :: literalsAfter none rest else literalsAfter (some (content ++ [c])) rest

/-- The contents of the string literals in a text, in order. -/
def literals (text : List Char) : List (List Char) := literalsAfter none text

example : literals "print(\"a b\", \"\") ;".toList = ["a b".toList, []] := by decide

/-- In string literals, all blank characters are spaces between two letters. `inside` says whether the text begins inside
a literal, behind the character `last`. -/
def tame : Bool → Char → List Char → Bool
  | _, _, [] => true
  | false, _, c :: rest => tame (c == '"') c rest
  | true, last, c :: rest =>
    if c = '"' then tame false c rest
    else if isBlank c then c == ' ' && isIdentChar last && rest.head?.any isIdentChar && tame true c rest
    else tame true c rest

variable {text text' gap rest : List Char} {last : Option Char} {c d : Char}

theorem ne_quote_of_isBlank (h : isBlank c = true) : c ≠ '"' := by
  rintro rfl
  exact absurd h (by decide)

theorem literalsAfter_gap (h : IsGap gap) (content : Option (List Char)) : literalsAfter content gap = [] := by
  induction gap generalizing content with
  | nil => cases content <;> rfl
  | cons c gap ih =>
    obtain ⟨hc, hgap⟩ := List.forall_mem_cons.mp h
    have hquote := ne_quote_of_isBlank hc
    cases content <;> rw [literalsAfter, if_neg hquote] <;> exact ih hgap _

theorem literals_append_gap (h : IsGap gap) (rest : List Char) :
    literalsAfter none (gap ++ rest) = literalsAfter none rest := by
  induction gap with
  | nil => rfl
  | cons c gap ih =>
    obtain ⟨hc, hgap⟩ := List.forall_mem_cons.mp h
    rw [List.cons_append, literalsAfter, if_neg (ne_quote_of_isBlank hc)]
    exact ih hgap

theorem tame_append_gap (h : IsGap gap) (htame : tame false c (gap ++ d :: rest) = true) :
    tame (d == '"') d rest = true := by
  induction gap generalizing c with
  | nil => exact htame
  | cons b gap ih =>
    obtain ⟨hb, hgap⟩ := List.forall_mem_cons.mp h
    have hquote : (b == '"') = false := beq_eq_false_iff_ne.mpr (ne_quote_of_isBlank hb)
    rw [List.cons_append, tame, hquote] at htame
    exact ih hgap htame

/-- A gap inside a literal. -/
theorem gap_of_tame (hgap : IsGap gap) (h : tame true c (gap ++ d :: rest) = true) :
    gap = [] ∨ gap = [' '] ∧ isIdentChar c = true ∧ isIdentChar d = true := by
  cases gap with
  | nil => exact .inl rfl
  | cons b gap =>
    obtain ⟨hb, hblank⟩ := List.forall_mem_cons.mp hgap
    rw [List.cons_append, tame, if_neg (ne_quote_of_isBlank hb), if_pos hb, Bool.and_eq_true_iff, Bool.and_eq_true_iff,
      Bool.and_eq_true_iff, beq_iff_eq] at h
    obtain ⟨⟨⟨rfl, hc⟩, hnext⟩, -⟩ := h
    cases gap with
    | nil => exact .inr ⟨rfl, hc, hnext⟩
    | cons b gap =>
      have hletter : isIdentChar b = true := hnext
      exact Bool.noConfusion ((hblank b List.mem_cons_self).symm.trans (Check.isBlank_of_isIdentChar hletter))

theorem literalsAfter_respaced (h : Respaced Relaid last text text') {content : Option (List Char)}
    (hopen : content ≠ none → last ≠ none) (htame : tame content.isSome (last.getD ' ') text = true) :
    literalsAfter content text = literalsAfter content text' := by
  induction h generalizing content with
  | ending htext htext' => rw [literalsAfter_gap htext, literalsAfter_gap htext']
  | @char last d gap gap' text text' hgap hgap' hd hrel _ ih =>
    cases content with
    | none =>
      have hrest := tame_append_gap hgap htame
      rw [literals_append_gap hgap, literals_append_gap hgap', literalsAfter, literalsAfter]
      refine ih (fun _ => nofun) ?_
      by_cases hquote : d = '"'
      · rw [if_pos hquote]
        rwa [beq_iff_eq.mpr hquote] at hrest
      · rw [if_neg hquote]
        rwa [beq_eq_false_iff_ne.mpr hquote] at hrest
    | some content =>
      obtain ⟨c, rfl⟩ := Option.ne_none_iff_exists'.mp (hopen nofun)
      obtain ⟨htight, -, hletters⟩ := hrel c rfl
      have hnext {c : Char} (content : List Char) (htame : tame true c (d :: text) = true) :
          literalsAfter (some content) (d :: text) = literalsAfter (some content) (d :: text') := by
        rw [tame] at htame
        rw [literalsAfter, literalsAfter]
        by_cases hquote : d = '"'
        · rw [if_pos hquote] at htame ⊢
          have hclosed : literalsAfter none text = literalsAfter none text' := ih (fun _ => nofun) htame
          rw [if_pos hquote, hclosed]
        · rw [if_neg hquote, if_neg (by simp [hd])] at htame
          rw [if_neg hquote, if_neg hquote]
          exact ih (fun _ => nofun) htame
      rcases gap_of_tame hgap htame with rfl | ⟨rfl, hc, hletter⟩
      · rw [htight rfl]
        exact hnext content htame
      · rw [hletters (List.cons_ne_nil _ _) hc hletter]
        exact hnext (content ++ [' ']) (Bool.and_eq_true_iff.mp htame).2

theorem literals_respaced (h : Respaced Relaid none text text') (htame : tame false ' ' text = true) :
    literals text = literals text' := literalsAfter_respaced h (fun hnone => absurd rfl hnone) htame

end Text

/-! ## Modules -/

open Text (tame literals)

/-- The strings that the generator knows are tame, whatever follows them. -/
theorem tame_strings {content : String} (h : content ∈ Expr.strings) (rest : List Char) :
    tame true '"' (content.toList ++ '"' :: rest) = tame false '"' rest := by
  simp only [Expr.strings, List.mem_cons, List.not_mem_nil, or_false] at h
  rcases h with rfl | rfl | rfl | rfl | rfl | rfl | rfl | rfl <;> rfl

/-- The text is tame outside literals, whatever is in front of it. -/
def Text.Tame (text : List Char) : Prop := ∀ c, tame false c text = true

open Text (Tame)

theorem tame_cons {d : Char} (hd : d ≠ '"') {rest : List Char} (h : Tame rest) : Tame (d :: rest) := fun c => by
  rw [tame, beq_eq_false_iff_ne.mpr hd]
  exact h d

/-- A flat text is tame if what follows it is. -/
theorem Flat.tame_append {text : List Char} (h : Flat text) {rest : List Char} (hrest : Tame rest) :
    Tame (text ++ rest) := by
  induction h generalizing rest with
  | nil => exact hrest
  | quiet hc => exact tame_cons (isQuiet_iff.mp hc).1.2 hrest
  | append _ _ ih ih' =>
    rw [List.append_assoc]
    exact ih (ih' hrest)
  | @literal content hcontent =>
    intro c
    show tame true '"' (content.toList ++ ['"'] ++ rest) = true
    rw [List.append_assoc]
    exact (tame_strings hcontent rest).trans (hrest '"')
  | round _ ih | square _ ih | braces _ _ ih =>
    rw [List.cons_append, List.append_assoc]
    exact tame_cons (by decide) (ih (tame_cons (by decide) hrest))
  | @window front inner _ _ _ _ ih ih' =>
    have hinner : Tame (inner ++ '\x7d' :: rest) := ih' (tame_cons (by decide) hrest)
    have hbetween : Tame (' ' :: '\x7d' :: '\x7b' :: ' ' :: (inner ++ '\x7d' :: rest)) :=
      tame_cons (by decide) (tame_cons (by decide) (tame_cons (by decide) (tame_cons (by decide) hinner)))
    have htame := tame_cons (by decide : '\x7b' ≠ '"') (ih hbetween)
    simpa using htame
  | @block text _ ih =>
    have hclose : Tame (' ' :: '\x7d' :: ' ' :: rest) :=
      tame_cons (by decide) (tame_cons (by decide) (tame_cons (by decide) hrest))
    have htame := tame_cons (by decide : ' ' ≠ '"') (tame_cons (by decide : '\x7b' ≠ '"')
      (tame_cons (by decide : ' ' ≠ '"') (ih hclose)))
    simpa using htame

theorem Flat.tame {text : List Char} (h : Flat text) : tame false ' ' text = true := by
  have hnone : Tame [] := fun _ => rfl
  have htext := h.tame_append hnone ' '
  rwa [List.append_nil] at htext

namespace Layout

/-- Laying out a text keeps the characters that are not blank, the tokens if there are any, and so the type that an
expression has. Laying out a module keeps the contents of its string literals too. -/
theorem pretty_harmless (text : String) : ink (pretty text).toList = ink text.toList ∧
    (∀ ts, tokens (pretty text) = .ok ts ↔ tokens text = .ok ts) ∧
    (∀ scope records ty, check scope records (pretty text) = .ok ty ↔ check scope records text = .ok ty) ∧
    ∀ {σ : Type} [RandomSource σ] (p : Profile) (supply : Supply σ) (items : List Item) (e : Engine σ),
      Module.run p supply = .ok (items, e) →
        Text.literals (pretty (moduleText items)).toList = Text.literals (moduleText items).toList := by
  have hgaps := (pretty_respaced text).mono fun _ _ _ _ => Relaid.sameGaps
  refine ⟨hgaps.ink_eq.symm, fun ts => (Check.tokens_respaced hgaps ts).symm,
    fun scope records ty => (Check.check_respaced hgaps scope records ty).symm, fun p supply items e hrun => ?_⟩
  exact (Text.literals_respaced (pretty_respaced (moduleText items)) (Module.run_flat hrun).tame).symm

/-- A string of another text may change: its lines are broken too. -/
example : Text.literals (pretty "\"a ; b\"").toList = ["a;\nb".toList] := by decide

/-- The string of the sample stays as it is when the sample is laid out. -/
theorem pretty_harmless_sample : ∃ items e, Module.sample = .ok (items, e) ∧
    Text.literals (pretty (moduleText items)).toList = ["Hello World!".toList] := by
  obtain ⟨⟨items, e⟩, hrun, htext⟩ := exists_of_toOption_map Module.sample_text
  have hkept := (pretty_harmless "").2.2.2 Module.sampleProfile _ items e hrun
  have hliterals : Text.literals (moduleText items).toList = ["Hello World!".toList] := by
    rw [htext]
    simp only [String.toList_append]
    decide +kernel
  exact ⟨items, e, hrun, hkept.trans hliterals⟩

end Layout

end TensorFuzz
