import TensorFuzz.Proofs.Expr.Plain

/-!
# Texts of expressions

No word in the text of a plain expression is a word of headings: constants and numbers have no words, the strings and
the operators are few, and everything else is a plain name.
-/

namespace TensorFuzz

open Check (isIdentChar)

/-! ## Constants and types -/

theorem ConstExpr.clear (x : ConstExpr) : Clear x.text := by
  induction x with
  | literal value => exact .number value
  | sum _ _ hl hr => exact hl.join (by decide) hr
  | difference _ _ hl hr => exact hl.join (by decide) hr
  | product _ _ hl hr => exact hl.join (by decide) hr
  | quotient _ _ hl hr => exact hl.join (by decide) hr
  | power _ _ hl hr => exact hl.join (by decide) hr
  | negation _ h => exact h.behind (by decide)
  | group _ h => exact (h.behind (by decide)).before (by decide)

theorem Kind.clear (kind : Kind) : Clear kind.text := by cases kind <;> decide

/-- The spelling of a type with values. -/
theorem SpelledTy.Plain.clear {spelled : SpelledTy} (h : spelled.Plain) : Clear spelled.text := by
  cases h with
  | @plain ty htensor hvoid hty =>
    cases ty with
    | vector | matrix => cases htensor
    | void => exact absurd rfl hvoid
    | record id => exact PlainName.clear hty
    | bool | int | float | string => exact (by decide)
  | vector kind c =>
    have hkind : Clear ("vector <" ++ kind.text) := kind.clear.behind (by decide)
    exact (hkind.join (by decide) c.clear).before (by decide)
  | matrix kind c d =>
    have hkind : Clear ("matrix <" ++ kind.text) := kind.clear.behind (by decide)
    exact ((hkind.join (by decide) c.clear).join (by decide) d.clear).before (by decide)

namespace Expr

/-! ## Forms of expressions -/

theorem clear_floatText (parts : Nat) : Clear (floatText parts) := by
  refine .of_not_mem fun hmem => ?_
  have hdigits {n : Nat} (h : 'o' ∈ (toString n).toList) : False := absurd (Text.isDigit_of_mem_toString h) (by decide)
  simp only [floatText, String.toList_append, List.mem_append] at hmem
  rcases hmem with ((h | h) | h) | h
  · exact hdigits h
  · exact absurd h (by decide)
  · exact absurd (Check.isDigit_of_mem_pushn _ _ h) (by decide)
  · exact hdigits h

theorem clear_commaText {xs : List Expr} (h : ∀ x ∈ xs, Clear x.text) : Clear (commaText xs) := by
  induction xs with
  | nil => exact (by decide)
  | cons x xs ih =>
    obtain ⟨hx, hxs⟩ := List.forall_mem_cons.mp h
    cases xs with
    | nil => exact hx
    | cons y ys => exact hx.join (by decide) (ih hxs)

theorem clear_string {content : String} (h : content ∈ strings) : Clear (string content).text := by
  revert content
  decide

theorem clear_list {items : List Expr} (h : ∀ x ∈ items, Clear x.text) : Clear (list items).text :=
  ((clear_commaText h).behind (by decide)).before (by decide)

theorem clear_record {id : String} {values : List Expr} (hid : PlainName id) (h : ∀ x ∈ values, Clear x.text) :
    Clear (record id values).text :=
  ((hid.clear.behind (by decide)).join (by decide) (clear_commaText h)).before (by decide)

theorem clear_call {function : String} {args : List Expr} (hname : PlainName function)
    (h : ∀ x ∈ args, Clear x.text) : Clear (call function args).text :=
  (hname.clear.join (by decide) (clear_commaText h)).before (by decide)

/-- The bounds and the step of a slice, behind what stands before them. -/
theorem clear_span {front : String} {lo hi : ConstExpr} {step : Expr} (hlo : Clear (front ++ lo.text))
    (hstep : Clear step.text) : Clear (front ++ lo.text ++ " : " ++ step.text ++ " : " ++ hi.text) :=
  (hlo.join (by decide) hstep).join (by decide) hi.clear

theorem clear_slice {source step : Expr} (hsource : Clear source.text) (hstep : Clear step.text) (lo hi : ConstExpr) :
    Clear (slice source lo step hi).text :=
  (clear_span (hsource.join (by decide) lo.clear) hstep).before (by decide)

theorem clear_window {source rowStep colStep : Expr} (hsource : Clear source.text) (hrow : Clear rowStep.text)
    (hcol : Clear colStep.text) (rowLo rowHi colLo colHi : ConstExpr) :
    Clear (window source rowLo rowStep rowHi colLo colStep colHi).text :=
  (clear_span ((clear_span (hsource.join (by decide) rowLo.clear) hrow).join (by decide) colLo.clear) hcol).before
    (by decide)

theorem clear_query {source : Expr} (h : Clear source.text) (size : SizeQuery) : Clear (query source size).text :=
  h.join (by decide) (by cases size <;> decide)

theorem clear_binary {left right : Expr} (hl : Clear left.text) (hr : Clear right.text) (op : BinaryOp) :
    Clear (binary op left right).text :=
  (hl.join (by decide) (by cases op <;> decide)).join (by decide) hr

theorem clear_select {condition yes no : Expr} (hcondition : Clear condition.text) (hyes : Clear yes.text)
    (hno : Clear no.text) : Clear (select condition yes no).text :=
  (hcondition.join (by decide) hyes).join (by decide) hno

/-! ## Plain expressions -/

/-- No word of headings stands in the text of an expression with plain names. -/
theorem Plain.clear {x : Expr} (h : x.Plain) : Clear x.text := by
  induction h with
  | nothing => exact (by decide)
  | bool b => cases b <;> decide
  | int n => exact .number n
  | float parts => exact clear_floatText parts
  | string hcontent => exact clear_string hcontent
  | list _ ih => exact clear_list ih
  | record hid _ ih => exact clear_record hid ih
  | name hid => exact hid.clear
  | call hname _ ih => exact clear_call hname ih
  | field _ hlabel ih => exact ih.join (by decide) hlabel.clear
  | group _ ih => exact (ih.behind (by decide)).before (by decide)
  | entry _ _ ih ih' => exact (ih.join (by decide) ih').before (by decide)
  | row _ _ ih ih' => exact (ih.join (by decide) ih').before (by decide)
  | slice lo hi _ _ ih ih' => exact clear_slice ih ih' lo hi
  | window _ _ _ _ _ _ _ ih ih' ih'' => exact clear_window ih ih' ih'' _ _ _ _
  | query size _ ih => exact clear_query ih size
  | binary op _ _ ih ih' => exact clear_binary ih ih' op
  | negate _ ih => exact ih.behind (by decide)
  | not _ ih => exact ih.behind (by decide)
  | select _ _ _ ih ih' ih'' => exact clear_select ih ih' ih''

end Expr

end TensorFuzz
