import TensorFuzz.Proofs.Expr.Plain
import TensorFuzz.Proofs.Text.Flat

/-!
# Flat texts of expressions

The text of a plain expression is flat: the bounds of a slice are constants, so its braces touch what they enclose.
-/

namespace TensorFuzz

open Text (isBlank Edged Stops Closes)

/-! ## Constants -/

/-- A text that begins with one part and ends with another. -/
theorem edged_around {front between rest : List Char} (hfront : Edged front) (hrest : Edged rest) :
    Edged (front ++ (between ++ rest)) := by
  refine ⟨by simp [hfront.ne], ?_, ?_⟩
  · obtain ⟨c, front, rfl⟩ := List.exists_cons_of_ne_nil hfront.ne
    exact hfront.stops
  · rw [← List.append_assoc]
    exact hrest.closes.append hrest.ne

theorem edged_singleton {c : Char} (hc : isBlank c = false) : Edged [c] := by
  refine ⟨List.cons_ne_nil c [], ?_, ?_⟩ <;>
    · rintro _ ⟨⟩
      exact hc

theorem edged_of_forall {text : List Char} (hne : text ≠ []) (h : ∀ c ∈ text, isBlank c = false) : Edged text :=
  ⟨hne, fun c hc => h c (List.mem_of_head? hc), fun c hc => h c (List.mem_of_getLast? hc)⟩

namespace ConstExpr

theorem flat (x : ConstExpr) : Flat x.text.toList := by
  induction x with
  | literal value => exact .number value
  | sum _ _ hl hr => exact hl.join (by decide) hr
  | difference _ _ hl hr => exact hl.join (by decide) hr
  | product _ _ hl hr => exact hl.join (by decide) hr
  | quotient _ _ hl hr => exact hl.join (by decide) hr
  | power _ _ hl hr => exact hl.join (by decide) hr
  | negation _ h => exact h.behind (by decide)
  | group inner h =>
    have htext : inner.group.text.toList = '(' :: (inner.text.toList ++ [')']) := by simp [text]
    rw [htext]
    exact .round h

theorem edged (x : ConstExpr) : Edged x.text.toList := by
  have hbinary {left glue right : String} (hl : Edged left.toList) (hr : Edged right.toList) :
      Edged (left ++ glue ++ right).toList := by
    rw [String.toList_append, String.toList_append, List.append_assoc]
    exact edged_around hl hr
  induction x with
  | literal value =>
    refine edged_of_forall (Text.toList_toString_ne_nil value) fun c hc => ?_
    exact Check.isBlank_of_isIdentChar (Check.isIdentChar_of_isDigit (Text.isDigit_of_mem_toString hc))
  | sum _ _ hl hr => exact hbinary hl hr
  | difference _ _ hl hr => exact hbinary hl hr
  | product _ _ hl hr => exact hbinary hl hr
  | quotient _ _ hl hr => exact hbinary hl hr
  | power _ _ hl hr => exact hbinary hl hr
  | negation operand h =>
    have htext : operand.negation.text.toList = ['-'] ++ ([] ++ operand.text.toList) := by simp [text]
    rw [htext]
    exact edged_around (edged_singleton (by decide)) h
  | group inner h =>
    have htext : inner.group.text.toList = ['('] ++ (inner.text.toList ++ [')']) := by simp [text]
    rw [htext]
    exact edged_around (edged_singleton (by decide)) (edged_singleton (by decide))

end ConstExpr

/-! ## Types -/

theorem Kind.flat (kind : Kind) : Flat kind.text.toList := .of_forall (by cases kind <;> decide)

theorem flat_vector {kind length : String} (hkind : Flat kind.toList) (hlength : Flat length.toList) :
    Flat ("vector <" ++ kind ++ "> [" ++ length ++ "]").toList := by
  have htext : ("vector <" ++ kind ++ "> [" ++ length ++ "]").toList =
      ("vector <" ++ kind ++ "> ").toList ++ '[' :: (length.toList ++ [']']) := by simp
  rw [htext]
  exact ((hkind.behind (by decide)).before (by decide)).append (.square hlength)

theorem flat_matrix {kind rows cols : String} (hkind : Flat kind.toList) (hrows : Flat rows.toList)
    (hcols : Flat cols.toList) : Flat ("matrix <" ++ kind ++ "> [" ++ rows ++ "][" ++ cols ++ "]").toList := by
  have htext : ("matrix <" ++ kind ++ "> [" ++ rows ++ "][" ++ cols ++ "]").toList =
      ("matrix <" ++ kind ++ "> ").toList ++
        ('[' :: (rows.toList ++ [']']) ++ '[' :: (cols.toList ++ [']'])) := by simp
  rw [htext]
  exact ((hkind.behind (by decide)).before (by decide)).append (hrows.square.append hcols.square)

theorem SpelledTy.Plain.flat {spelled : SpelledTy} (h : spelled.Plain) : Flat spelled.text.toList := by
  cases h with
  | @plain ty htensor _ hty =>
    cases ty with
    | vector | matrix => cases htensor
    | record id => exact PlainName.flat hty
    | bool | int | float | string | void => exact .of_forall (by decide)
  | vector kind c => exact flat_vector kind.flat c.flat
  | matrix kind c d => exact flat_matrix kind.flat c.flat d.flat

namespace Expr

/-! ## Forms of expressions -/

theorem flat_floatText (parts : Nat) : Flat (floatText parts).toList := by
  have hplaces : Flat ("".pushn '0' (5 - (toString (parts % 100000)).length)).toList := .of_forall fun c hc =>
    isQuiet_of_isIdentChar (Check.isIdentChar_of_isDigit (Check.isDigit_of_mem_pushn _ c hc))
  rw [floatText, String.toList_append, String.toList_append]
  exact (((Flat.number _).before (by decide)).append hplaces).append (.number _)

theorem flat_commaText {xs : List Expr} (h : ∀ x ∈ xs, Flat x.text.toList) : Flat (commaText xs).toList := by
  induction xs with
  | nil => exact .nil
  | cons x xs ih =>
    obtain ⟨hx, hxs⟩ := List.forall_mem_cons.mp h
    cases xs with
    | nil => exact hx
    | cons y ys => exact hx.join (by decide) (ih hxs)

theorem flat_call {function : String} {args : List Expr} (hname : PlainName function)
    (h : ∀ x ∈ args, Flat x.text.toList) : Flat (call function args).text.toList := by
  have htext : (call function args).text.toList = function.toList ++ '(' :: ((commaText args).toList ++ [')']) := by
    simp [text]
  rw [htext]
  exact hname.flat.append (.round (flat_commaText h))

/-- Bounds with a step between them. -/
def spanText (lo : ConstExpr) (step : Expr) (hi : ConstExpr) : String :=
  lo.text ++ " : " ++ step.text ++ " : " ++ hi.text

theorem flat_span {step : Expr} (h : Flat step.text.toList) (lo hi : ConstExpr) : Flat (spanText lo step hi).toList :=
  (lo.flat.join (by decide) h).join (by decide) hi.flat

theorem edged_span (lo : ConstExpr) (step : Expr) (hi : ConstExpr) : Edged (spanText lo step hi).toList := by
  have htext : (spanText lo step hi).toList = lo.text.toList ++ ((" : " ++ step.text ++ " : ").toList ++ hi.text.toList) := by
    simp [spanText]
  rw [htext]
  exact edged_around lo.edged hi.edged

/-! ## Plain expressions -/

theorem Plain.flat {x : Expr} (h : x.Plain) : Flat x.text.toList := by
  induction h with
  | nothing => exact .nil
  | bool b => exact .of_forall (by cases b <;> decide)
  | int n => exact .number n
  | float parts => exact flat_floatText parts
  | @string content hcontent =>
    have htext : (Expr.string content).text.toList = '"' :: (content.toList ++ ['"']) := by simp [text]
    rw [htext]
    exact .literal hcontent
  | @list items _ ih =>
    have htext : (Expr.list items).text.toList = '[' :: ((commaText items).toList ++ [']']) := by simp [text]
    rw [htext]
    exact .square (flat_commaText ih)
  | @record id values hid _ ih =>
    have htext : (Expr.record id values).text.toList =
        ("@ " ++ id ++ " ").toList ++ '[' :: ((commaText values).toList ++ [']']) := by simp [text]
    rw [htext]
    exact ((hid.flat.behind (by decide)).before (by decide)).append (.square (flat_commaText ih))
  | name hid => exact hid.flat
  | call hname _ ih => exact flat_call hname ih
  | field _ hlabel ih => exact ih.join (by decide) hlabel.flat
  | @group inner _ ih =>
    have htext : inner.group.text.toList = '(' :: ((" " ++ inner.text ++ " ").toList ++ [')']) := by simp [text]
    rw [htext]
    exact .round ((ih.behind (by decide)).before (by decide))
  | @entry source index _ _ ih ih' =>
    have htext : (source.entry index).text.toList =
        (source.text ++ " ").toList ++ '[' :: (index.text.toList ++ [']']) := by simp [text]
    rw [htext]
    exact (ih.before (by decide)).append (.square ih')
  | @row source index _ _ ih ih' =>
    have htext : (source.row index).text.toList = source.text.toList ++ '[' :: (index.text.toList ++ [']']) := by
      simp [text]
    rw [htext]
    exact ih.append (.square ih')
  | @slice source step lo hi _ _ ih ih' =>
    have htext : (source.slice lo step hi).text.toList =
        (source.text ++ " ").toList ++ '\x7b' :: ((spanText lo step hi).toList ++ ['\x7d']) := by simp [text, spanText]
    rw [htext]
    exact (ih.before (by decide)).append (.braces (flat_span ih' lo hi) (edged_span lo step hi))
  | @window source rowStep colStep rowLo rowHi colLo colHi _ _ _ ih ih' ih'' =>
    have htext : (source.window rowLo rowStep rowHi colLo colStep colHi).text.toList = (source.text ++ " ").toList ++
        '\x7b' :: ((spanText rowLo rowStep rowHi).toList ++ ' ' :: '\x7d' :: '\x7b' :: ' ' ::
          ((spanText colLo colStep colHi).toList ++ ['\x7d'])) := by simp [text, spanText]
    rw [htext]
    exact (ih.before (by decide)).append (.window (flat_span ih' rowLo rowHi) (edged_span rowLo rowStep rowHi)
      (flat_span ih'' colLo colHi) (edged_span colLo colStep colHi))
  | query size _ ih => exact ih.join (by decide) (.of_forall (by cases size <;> decide))
  | binary op _ _ ih ih' => exact (ih.join (by decide) (.of_forall (by cases op <;> decide))).join (by decide) ih'
  | negate _ ih => exact ih.behind (by decide)
  | not _ ih => exact ih.behind (by decide)
  | select _ _ _ ih ih' ih'' => exact (ih.join (by decide) ih').join (by decide) ih''

end Expr

end TensorFuzz
