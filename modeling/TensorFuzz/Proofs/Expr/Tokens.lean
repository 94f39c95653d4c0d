import TensorFuzz.Proofs.Check.Cutting
import TensorFuzz.Proofs.Expr.Typing
import TensorFuzz.Proofs.Text.Takes

/-!
# Tokens of expression trees

The text of a well-typed expression is cut into the tokens that its tree consists of. Every part of a text is
followed by a space, a comma or a bracket, so no number or identifier runs into what follows it.
-/

namespace TensorFuzz

open Check
open Text (takeWhile_append_stop dropWhile_append_stop)

/-! ## Tokens -/

/-- The tokens of a constant expression inside an expression. -/
def ConstExpr.checkTokens : ConstExpr → List Token
  | literal value => [.int value]
  | sum left right => left.checkTokens ++ .symbol .plus :: right.checkTokens
  | difference left right => left.checkTokens ++ .symbol .minus :: right.checkTokens
  | product left right => left.checkTokens ++ .symbol .star :: right.checkTokens
  | quotient left right => left.checkTokens ++ .symbol .slash :: right.checkTokens
  | power base exponent => base.checkTokens ++ .symbol .caret :: exponent.checkTokens
  | negation operand => .symbol .minus :: operand.checkTokens
  | group inner => .symbol .openParen :: (inner.checkTokens ++ [.symbol .closeParen])

namespace Expr

mutual

/-- The tokens of an expression. -/
def tokens : Expr → List Token
  | nothing => []
  | bool value => [.ident (if value then "true" else "false")]
  | int value => [.int value]
  | float _ => [.float]
  | string _ => [.string]
  | list items => .symbol .openBracket :: (separated (itemTokens items) ++ [.symbol .closeBracket])
  | record id values =>
    .symbol .at :: .ident id :: .symbol .openBracket :: (separated (itemTokens values) ++ [.symbol .closeBracket])
  | name id => [.ident id]
  | call function args =>
    .ident function :: .symbol .openParen :: (separated (itemTokens args) ++ [.symbol .closeParen])
  | field source label => source.tokens ++ [.symbol .at, .ident label]
  | group inner => .symbol .openParen :: (inner.tokens ++ [.symbol .closeParen])
  | entry source index => source.tokens ++ .symbol .openBracket :: (index.tokens ++ [.symbol .closeBracket])
  | row source index => source.tokens ++ .symbol .openBracket :: (index.tokens ++ [.symbol .closeBracket])
  | slice source lo step hi => source.tokens ++ braced lo.checkTokens step.tokens hi.checkTokens
  | window source rowLo rowStep rowHi colLo colStep colHi =>
    source.tokens ++ (braced rowLo.checkTokens rowStep.tokens rowHi.checkTokens ++
      braced colLo.checkTokens colStep.tokens colHi.checkTokens)
  | query source size => source.tokens ++ [.query size.name]
  | binary op left right => left.tokens ++ .symbol op.symbol :: right.tokens
  | negate operand => .symbol .minus :: operand.tokens
  | not operand => .symbol .bang :: operand.tokens
  | select condition yes no =>
    condition.tokens ++ .symbol .question :: (yes.tokens ++ .symbol .colon :: no.tokens)

/-- The tokens of each expression. -/
def itemTokens : List Expr → List (List Token)
  | [] => []
  | e :: es => e.tokens :: itemTokens es

end

theorem itemTokens_eq_map (items : List Expr) : itemTokens items = items.map tokens := by
  induction items with
  | nil => rfl
  | cons e es ih => rw [itemTokens, ih, List.map_cons]

end Expr

namespace Check

/-! ## Single tokens -/

/-- No number or identifier goes on with the text. -/
def Bounded (rest : List Char) : Prop := ∀ c ∈ rest.head?, isIdentChar c = false ∧ c ≠ '.'

theorem bounded_cons {c : Char} (h : isIdentChar c = false ∧ c ≠ '.') (rest : List Char) : Bounded (c :: rest) := by
  rintro d ⟨⟩
  exact h

theorem bounded_nil : Bounded [] := by simp [Bounded]

theorem isUpper_iff {c : Char} : c.isUpper = true ↔ 65 ≤ c.toNat ∧ c.toNat ≤ 90 := decide_eq_true_iff

theorem isLower_iff {c : Char} : c.isLower = true ↔ 97 ≤ c.toNat ∧ c.toNat ≤ 122 :=
  Bool.and_eq_true_iff.trans (and_congr decide_eq_true_iff decide_eq_true_iff)

theorem isDigit_iff {c : Char} : c.isDigit = true ↔ 48 ≤ c.toNat ∧ c.toNat ≤ 57 :=
  Bool.and_eq_true_iff.trans (and_congr decide_eq_true_iff decide_eq_true_iff)

theorem isIdentChar_of_isDigit {c : Char} (h : c.isDigit = true) : isIdentChar c = true :=
  isIdentChar_iff.mpr (.inl (.inr h))

theorem isDigit_of_not_isIdentChar {c : Char} (h : isIdentChar c = false) : c.isDigit = false :=
  Bool.eq_false_iff.mpr fun hdigit => Bool.eq_false_iff.mp h (isIdentChar_of_isDigit hdigit)

theorem isBlank_of_isIdentChar {c : Char} (h : isIdentChar c = true) : Text.isBlank c = false := by
  have hrange : c.toNat < 0x80 ∧ 0x20 < c.toNat := by
    rw [isIdentChar_iff, isUpper_iff, isLower_iff, isDigit_iff] at h
    rcases h with h | rfl
    · omega
    · decide
  simp only [Text.isBlank, Bool.or_eq_false_iff, Bool.and_eq_false_iff, decide_eq_false_iff_not,
    beq_eq_false_iff_ne]
  omega

theorem isDigit_of_isIdentStart {c : Char} (h : isIdentStart c = true) : c.isDigit = false := by
  refine Bool.eq_false_iff.mpr fun hdigit => ?_
  have hdigit := isDigit_iff.mp hdigit
  rw [isIdentStart_iff, isUpper_iff, isLower_iff] at h
  rcases h with h | rfl
  · omega
  · exact absurd hdigit (by decide)

theorem lexes_blank {c : Char} {rest : List Char} {us : List Token} (hc : Text.isBlank c = true)
    (h : Lexes rest us) : Lexes (c :: rest) us := by
  have hdrop : (c :: rest).dropWhile Text.isBlank = rest.dropWhile Text.isBlank := List.dropWhile_cons_of_pos hc
  cases h with
  | nil h => exact .nil (hdrop.trans h)
  | cons h hnext hafter => exact .cons (hdrop.trans h) hnext hafter

theorem lexes_space {rest : List Char} {us : List Token} (h : Lexes rest us) : Lexes (' ' :: rest) us :=
  lexes_blank (by decide) h

variable {rest : List Char} {us : List Token}

theorem lexes_digits {d : Char} {digits : List Char} (hdigits : ∀ c ∈ d :: digits, c.isDigit = true)
    (hfits : Fits128 (digitsValue (d :: digits))) (hrest : Bounded rest) (h : Lexes rest us) :
    Lexes (d :: (digits ++ rest)) (.int (digitsValue (d :: digits)) :: us) := by
  have hd : d.isDigit = true := hdigits d (by simp)
  have htail : ∀ c ∈ digits, c.isDigit = true := fun c hc => hdigits c (by simp [hc])
  have hstop : ∀ c ∈ rest.head?, c.isDigit = false := fun c hc => isDigit_of_not_isIdentChar (hrest c hc).1
  have hblank : (d :: (digits ++ rest)).dropWhile Text.isBlank = d :: (digits ++ rest) :=
    List.dropWhile_cons_of_neg (by simp [isBlank_of_isIdentChar (isIdentChar_of_isDigit hd)])
  refine .cons hblank (fun whole => ?_) h
  rw [next, if_pos hd, takeWhile_append_stop htail hstop, dropWhile_append_stop htail hstop]
  dsimp only
  split
  · exact absurd rfl (hrest _ rfl).2
  · rw [next.integer]
    exact if_pos hfits

theorem lexes_int (n : Nat) (hn : Fits128 n) (hrest : Bounded rest) (h : Lexes rest us) :
    Lexes ((toString n).toList ++ rest) (.int n :: us) := by
  have hvalue : digitsValue (toString n).toList = n := Text.foldl_toString n
  have hdigits := fun c => Text.isDigit_of_mem_toString (n := n) (c := c)
  cases hs : (toString n).toList with
  | nil => exact absurd hs (Text.toList_toString_ne_nil n)
  | cons d digits =>
    rw [hs] at hvalue hdigits
    have hint := lexes_digits (fun c hc => hdigits c hc) (by rwa [hvalue]) hrest h
    rwa [hvalue] at hint

theorem lexes_float {digits places : List Char} (hdigits : ∀ c ∈ digits, c.isDigit = true) (hne : digits ≠ [])
    (hplaces : ∀ c ∈ places, c.isDigit = true) (hne' : places ≠ []) (hrest : Bounded rest) (h : Lexes rest us) :
    Lexes (digits ++ '.' :: (places ++ rest)) (.float :: us) := by
  obtain ⟨d, digits, rfl⟩ := List.exists_cons_of_ne_nil hne
  obtain ⟨e, places, rfl⟩ := List.exists_cons_of_ne_nil hne'
  have hd : d.isDigit = true := hdigits d (by simp)
  have he : e.isDigit = true := hplaces e (by simp)
  have htail : ∀ c ∈ digits, c.isDigit = true := fun c hc => hdigits c (by simp [hc])
  have htail' : ∀ c ∈ places, c.isDigit = true := fun c hc => hplaces c (by simp [hc])
  have hstop : ∀ c ∈ rest.head?, c.isDigit = false := fun c hc => isDigit_of_not_isIdentChar (hrest c hc).1
  have hblank : (d :: (digits ++ '.' :: (e :: places ++ rest))).dropWhile Text.isBlank =
      d :: (digits ++ '.' :: (e :: places ++ rest)) :=
    List.dropWhile_cons_of_neg (by simp [isBlank_of_isIdentChar (isIdentChar_of_isDigit hd)])
  show Lexes (d :: (digits ++ '.' :: (e :: places ++ rest))) _
  refine .cons hblank (fun whole => ?_) h
  rw [next, if_pos hd, dropWhile_append_stop htail (by simp)]
  show (if e.isDigit = true then Except.ok (Token.float, (places ++ rest).dropWhile _) else _) = _
  rw [if_pos he, dropWhile_append_stop htail' hstop]

theorem lexes_string {content : List Char} (hcontent : '"' ∉ content) (h : Lexes rest us) :
    Lexes ('"' :: (content ++ '"' :: rest)) (.string :: us) := by
  have hdrop : (content ++ '"' :: rest).dropWhile (· ≠ '"') = '"' :: rest := by
    refine dropWhile_append_stop (fun d hd => ?_) (by simp)
    simp only [ne_eq, decide_not, Bool.not_eq_eq_eq_not, Bool.not_true, decide_eq_false_iff_not]
    rintro rfl
    exact hcontent hd
  refine .cons rfl (fun whole => ?_) h
  rw [next, if_neg (by decide), if_pos rfl, hdrop]

theorem lexes_ident {name : String} (hname : IsName name) (hrest : Bounded rest) (h : Lexes rest us) :
    Lexes (name.toList ++ rest) (.ident name :: us) := by
  obtain ⟨c, cs, heq, hc, hcs⟩ := hname
  have hstop : ∀ c ∈ rest.head?, isIdentChar c = false := fun c hc => (hrest c hc).1
  have hquote : c ≠ '"' := by
    rintro rfl
    exact absurd hc (by decide)
  have hblank : (c :: (cs ++ rest)).dropWhile Text.isBlank = c :: (cs ++ rest) :=
    List.dropWhile_cons_of_neg (by simp [isBlank_of_isIdentChar (isIdentChar_of_isIdentStart hc)])
  have hwhole : String.ofList (c :: cs) = name := by rw [← heq, String.ofList_toList]
  rw [heq]
  refine .cons hblank (fun whole => ?_) h
  rw [next, if_neg (by simp [isDigit_of_isIdentStart hc]), if_neg hquote, if_pos hc,
    takeWhile_append_stop hcs hstop, dropWhile_append_stop hcs hstop, hwhole]

theorem lexes_query (query : SizeQuery) (hrest : Bounded rest) (h : Lexes rest us) :
    Lexes (query.text.toList ++ rest) (.query query.name :: us) := by
  have hstop : ∀ c ∈ rest.head?, isIdentChar c = false := fun c hc => (hrest c hc).1
  have hcut (cs : List Char) (c : Char) (hc : c.isAlpha = true) (hall : (c :: cs).all isIdentChar = true) :
      Lexes ('.' :: (c :: cs ++ rest)) (.query (String.ofList (c :: cs)) :: us) := by
    have hcs := List.all_eq_true.mp hall
    refine .cons rfl (fun whole => ?_) h
    rw [next, if_neg (by decide), if_neg (by decide), if_neg (by decide), if_pos (by simp [hc]),
      takeWhile_append_stop hcs hstop, dropWhile_append_stop hcs hstop]
  cases query with
  | dimension => exact hcut _ 'd' (by decide) (by decide)
  | rows => exact hcut _ 'r' (by decide) (by decide)
  | cols => exact hcut _ 'c' (by decide) (by decide)

/-- The characters that are a symbol whatever follows them. -/
def marks : List (Char × Symbol) := [
  ('(', .openParen), (')', .closeParen), ('[', .openBracket), (']', .closeBracket),
  ('\x7b', .openBrace), ('\x7d', .closeBrace), (',', .comma), (':', .colon), ('?', .question), ('-', .minus),
  ('@', .at)]

theorem lexes_mark (c : Char) (symbol : Symbol) (hmark : (c, symbol) ∈ marks) (h : Lexes rest us) :
    Lexes (c :: rest) (.symbol symbol :: us) := by
  simp only [marks, List.mem_cons, Prod.mk.injEq, List.not_mem_nil, or_false] at hmark
  rcases hmark with ⟨rfl, rfl⟩ | ⟨rfl, rfl⟩ | ⟨rfl, rfl⟩ | ⟨rfl, rfl⟩ | ⟨rfl, rfl⟩ | ⟨rfl, rfl⟩ | ⟨rfl, rfl⟩ |
    ⟨rfl, rfl⟩ | ⟨rfl, rfl⟩ | ⟨rfl, rfl⟩ | ⟨rfl, rfl⟩ <;> exact .cons rfl (fun _ => rfl) h

/-- An operator with a space on either side. -/
theorem lexes_operator (op : BinaryOp) (h : Lexes rest us) :
    Lexes (' ' :: (op.text.toList ++ ' ' :: rest)) (.symbol op.symbol :: us) := by
  refine lexes_space ?_
  cases op <;> exact .cons rfl (fun _ => rfl) (lexes_space h)

/-! ## Texts -/

theorem forall_of_zip {α β : Type} {P : α → Prop} {xs : List α} {ys : List β} (hlength : xs.length = ys.length)
    (h : ∀ part ∈ xs.zip ys, P part.1) : ∀ x ∈ xs, P x := by
  intro x hx
  rw [← List.map_fst_zip (Nat.le_of_eq hlength)] at hx
  obtain ⟨part, hpart, rfl⟩ := List.mem_map.mp hx
  exact h part hpart

/-- The text is cut into the tokens, whatever follows that no number or identifier goes on with. -/
def Cuts (text : String) (ts : List Token) : Prop :=
  ∀ rest us, Bounded rest → Lexes rest us → Lexes (text.toList ++ rest) (ts ++ us)

theorem bounded_space (rest : List Char) : Bounded (' ' :: rest) := bounded_cons (by decide) rest

theorem Cuts.operator {left right glue : String} {ts us : List Token} (hleft : Cuts left ts) (op : BinaryOp)
    (hright : Cuts right us) (hglue : glue.toList = ' ' :: (op.text.toList ++ [' '])) :
    Cuts (left ++ glue ++ right) (ts ++ .symbol op.symbol :: us) := by
  intro rest vs hrest h
  have hop := hleft _ _ (bounded_space _) (lexes_operator op (hright rest vs hrest h))
  simpa [hglue] using hop

theorem cuts_constant {prec : Constant.Precedence} {c : ConstExpr} {v : Int} (h : c.Denotes prec v) :
    Cuts c.text c.checkTokens := by
  induction h with
  | literal hn => exact fun rest us => lexes_int _ hn.fits128
  | @group c v _ ih =>
    intro rest us hrest h
    have hinner := ih (')' :: rest) _ (bounded_cons (by decide) rest) (lexes_mark ')' .closeParen (by decide) h)
    have htext : c.group.text.toList ++ rest = '(' :: (c.text.toList ++ ')' :: rest) := by simp [ConstExpr.text]
    rw [htext, ConstExpr.checkTokens, List.cons_append, List.append_assoc]
    exact lexes_mark '(' .openParen (by decide) hinner
  | ofPrimary _ ih | ofPower _ ih | ofSign _ ih | ofProduct _ ih => exact ih
  | power _ _ _ _ ihb ihe => exact ihb.operator .power ihe (by rfl)
  | @negation c v _ ih =>
    intro rest us hrest h
    have htext : c.negation.text.toList ++ rest = '-' :: (c.text.toList ++ rest) := by simp [ConstExpr.text]
    rw [htext, ConstExpr.checkTokens, List.cons_append]
    exact lexes_mark '-' .minus (by decide) (ih _ _ hrest h)
  | product _ _ _ iha ihb => exact iha.operator .multiply ihb (by rfl)
  | quotient _ _ _ iha ihb => exact iha.operator .divide ihb (by rfl)
  | sum _ _ _ iha ihb => exact iha.operator .add ihb (by rfl)
  | difference _ _ _ iha ihb => exact iha.operator .subtract ihb (by rfl)

theorem cuts_commaText {items : List Expr} (h : ∀ x ∈ items, Cuts x.text x.tokens) :
    Cuts (Expr.commaText items) (separated (items.map (·.tokens))) := by
  induction items with
  | nil => exact fun _ _ _ h => h
  | cons x items ih =>
    cases items with
    | nil => exact h x (by simp)
    | cons y items =>
      intro rest us hrest hus
      have hothers := ih (fun z hz => h z (List.mem_cons_of_mem _ hz)) rest us hrest hus
      have htext : (Expr.commaText (x :: y :: items)).toList ++ rest =
          x.text.toList ++ ',' :: ' ' :: ((Expr.commaText (y :: items)).toList ++ rest) := by simp [Expr.commaText]
      rw [htext]
      simp only [List.map_cons, separated, List.append_assoc, List.cons_append] at hothers ⊢
      exact h x (by simp) _ _ (bounded_cons (by decide) _)
        (lexes_mark ',' .comma (by decide) (lexes_space hothers))

theorem cuts_labelled {x : Expr} {label : Option String} (hx : Cuts x.text x.tokens)
    (hlabel : ∀ l ∈ label, IsName l) : Cuts (x.labelled label).text (x.labelled label).tokens := by
  cases label with
  | none => exact hx
  | some label =>
    intro rest us hrest h
    have htext : (x.labelled (some label)).text.toList ++ rest =
        x.text.toList ++ ' ' :: '@' :: ' ' :: (label.toList ++ rest) := by simp [Expr.labelled, Expr.text]
    rw [htext, Expr.labelled, Expr.tokens, List.append_assoc]
    exact hx _ _ (bounded_space _)
      (lexes_space (lexes_mark '@' .at (by decide) (lexes_space (lexes_ident (hlabel label rfl) hrest h))))

/-- Constant bounds and a step in braces. -/
theorem lexes_bounds {lo hi : ConstExpr} {step : Expr} {a b : Int} (hlo : lo.Denotes .sum a)
    (hstep : Cuts step.text step.tokens) (hhi : hi.Denotes .sum b) {after : List Char}
    (hafter : Bounded after) (h : Lexes after (.symbol .closeBrace :: us)) :
    Lexes (lo.text.toList ++ ' ' :: ':' :: ' ' :: (step.text.toList ++ ' ' :: ':' :: ' ' ::
        (hi.text.toList ++ after)))
      (lo.checkTokens ++ .symbol .colon :: (step.tokens ++ .symbol .colon ::
        (hi.checkTokens ++ .symbol .closeBrace :: us))) := by
  have hlast := cuts_constant hhi _ _ hafter h
  have hmiddle := hstep _ _ (bounded_space _)
    (lexes_space (lexes_mark ':' .colon (by decide) (lexes_space hlast)))
  exact cuts_constant hlo _ _ (bounded_space _)
    (lexes_space (lexes_mark ':' .colon (by decide) (lexes_space hmiddle)))

theorem isDigit_of_mem_pushn (n : Nat) : ∀ c ∈ ("".pushn '0' n).toList, c.isDigit = true := by
  rw [String.pushn_eq_repeat_push]
  induction n with
  | zero => simp [Nat.repeat]
  | succ n ih =>
    intro c hc
    rw [Nat.repeat, String.toList_push, List.mem_append, List.mem_singleton] at hc
    rcases hc with hc | rfl
    · exact ih c hc
    · decide

theorem cuts_float (parts : Nat) : Cuts (Expr.floatText parts) [.float] := by
  intro rest us hrest h
  have hplaces : ∀ c ∈ ("".pushn '0' (5 - (toString (parts % 100000)).length)).toList ++
      (toString (parts % 100000)).toList, c.isDigit = true := fun c hc =>
    (List.mem_append.mp hc).elim (isDigit_of_mem_pushn _ c) Text.isDigit_of_mem_toString
  have hfloat := lexes_float (fun c => Text.isDigit_of_mem_toString) (Text.toList_toString_ne_nil (parts / 100000))
    hplaces (by simp) hrest h
  simpa [Expr.floatText] using hfloat

/-! ## Texts of expressions -/

section
attribute [local simp] Expr.text Expr.tokens

theorem cuts_bool (value : Bool) : Cuts (Expr.bool value).text (Expr.bool value).tokens := by
  intro rest us hrest h
  cases value with
  | false => exact lexes_ident ⟨'f', ['a', 'l', 's', 'e'], rfl, rfl, List.all_eq_true.mp rfl⟩ hrest h
  | true => exact lexes_ident ⟨'t', ['r', 'u', 'e'], rfl, rfl, List.all_eq_true.mp rfl⟩ hrest h

theorem cuts_string {content : String} (hcontent : '"' ∉ content.toList) :
    Cuts (Expr.string content).text (Expr.string content).tokens := by
  intro rest us hrest h
  have htext : (Expr.string content).text.toList ++ rest = '"' :: (content.toList ++ '"' :: rest) := by
    simp
  rw [htext]
  exact lexes_string hcontent h

section
variable {items : List Expr} (hitems : ∀ x ∈ items, Cuts x.text x.tokens)
include hitems

theorem cuts_list : Cuts (Expr.list items).text (Expr.list items).tokens := by
  intro rest us hrest h
  have hinner := cuts_commaText hitems (']' :: rest) _ (bounded_cons (by decide) rest)
    (lexes_mark ']' .closeBracket (by decide) h)
  have htext : (Expr.list items).text.toList ++ rest =
      '[' :: ((Expr.commaText items).toList ++ ']' :: rest) := by simp
  rw [htext, Expr.tokens, Expr.itemTokens_eq_map, List.cons_append, List.append_assoc]
  exact lexes_mark '[' .openBracket (by decide) hinner

theorem cuts_record {id : String} (hid : IsName id) :
    Cuts (Expr.record id items).text (Expr.record id items).tokens := by
  intro rest us hrest h
  have hinner := cuts_commaText hitems (']' :: rest) _ (bounded_cons (by decide) rest)
    (lexes_mark ']' .closeBracket (by decide) h)
  have htext : (Expr.record id items).text.toList ++ rest =
      '@' :: ' ' :: (id.toList ++ ' ' :: '[' :: ((Expr.commaText items).toList ++ ']' :: rest)) := by
    simp
  rw [htext, Expr.tokens, Expr.itemTokens_eq_map, List.cons_append, List.cons_append, List.cons_append,
    List.append_assoc]
  exact lexes_mark '@' .at (by decide) (lexes_space (lexes_ident hid (bounded_space _)
    (lexes_space (lexes_mark '[' .openBracket (by decide) hinner))))

theorem cuts_call {id : String} (hid : IsName id) : Cuts (Expr.call id items).text (Expr.call id items).tokens := by
  intro rest us hrest h
  have hinner := cuts_commaText hitems (')' :: rest) _ (bounded_cons (by decide) rest)
    (lexes_mark ')' .closeParen (by decide) h)
  have htext : (Expr.call id items).text.toList ++ rest =
      id.toList ++ '(' :: ((Expr.commaText items).toList ++ ')' :: rest) := by simp
  rw [htext, Expr.tokens, Expr.itemTokens_eq_map, List.cons_append, List.cons_append, List.append_assoc]
  exact lexes_ident hid (bounded_cons (by decide) _) (lexes_mark '(' .openParen (by decide) hinner)

end

section
variable {x y z : Expr} (hx : Cuts x.text x.tokens)
include hx

theorem cuts_group : Cuts x.group.text x.group.tokens := by
  intro rest us hrest h
  have hclose := lexes_space (lexes_mark ')' .closeParen (by decide) h)
  have hinner := hx (' ' :: ')' :: rest) _ (bounded_space _) hclose
  have htext : x.group.text.toList ++ rest = '(' :: ' ' :: (x.text.toList ++ ' ' :: ')' :: rest) := by
    simp
  rw [htext, Expr.tokens, List.cons_append, List.append_assoc]
  exact lexes_mark '(' .openParen (by decide) (lexes_space hinner)

theorem cuts_entry (hy : Cuts y.text y.tokens) : Cuts (x.entry y).text (x.entry y).tokens := by
  intro rest us hrest h
  have hindex := hy (']' :: rest) _ (bounded_cons (by decide) rest) (lexes_mark ']' .closeBracket (by decide) h)
  have htext : (x.entry y).text.toList ++ rest = x.text.toList ++ ' ' :: '[' :: (y.text.toList ++ ']' :: rest) := by
    simp
  rw [htext, Expr.tokens, List.append_assoc, List.cons_append, List.append_assoc]
  exact hx _ _ (bounded_space _) (lexes_space (lexes_mark '[' .openBracket (by decide) hindex))

theorem cuts_row (hy : Cuts y.text y.tokens) : Cuts (x.row y).text (x.row y).tokens := by
  intro rest us hrest h
  have hindex := hy (']' :: rest) _ (bounded_cons (by decide) rest) (lexes_mark ']' .closeBracket (by decide) h)
  have htext : (x.row y).text.toList ++ rest = x.text.toList ++ '[' :: (y.text.toList ++ ']' :: rest) := by
    simp
  rw [htext, Expr.tokens, List.append_assoc, List.cons_append, List.append_assoc]
  exact hx _ _ (bounded_cons (by decide) _) (lexes_mark '[' .openBracket (by decide) hindex)

theorem cuts_slice {lo hi : ConstExpr} {a b : Int} (hlo : lo.Denotes .sum a) (hy : Cuts y.text y.tokens)
    (hhi : hi.Denotes .sum b) : Cuts (x.slice lo y hi).text (x.slice lo y hi).tokens := by
  intro rest us hrest h
  have hbounds := lexes_bounds hlo hy hhi (bounded_cons (by decide) rest)
    (lexes_mark '\x7d' .closeBrace (by decide) h)
  have htext : (x.slice lo y hi).text.toList ++ rest = x.text.toList ++ ' ' :: '\x7b' ::
      (lo.text.toList ++ ' ' :: ':' :: ' ' :: (y.text.toList ++ ' ' :: ':' :: ' ' ::
        (hi.text.toList ++ '\x7d' :: rest))) := by simp
  have hsource := hx _ _ (bounded_space _) (lexes_space (lexes_mark '\x7b' .openBrace (by decide) hbounds))
  rw [htext]
  simpa [braced] using hsource

theorem cuts_window {rowLo rowHi colLo colHi : ConstExpr} {a b c d : Int} (ha : rowLo.Denotes .sum a)
    (hy : Cuts y.text y.tokens) (hb : rowHi.Denotes .sum b) (hc : colLo.Denotes .sum c) (hz : Cuts z.text z.tokens)
    (hd : colHi.Denotes .sum d) :
    Cuts (x.window rowLo y rowHi colLo z colHi).text (x.window rowLo y rowHi colLo z colHi).tokens := by
  intro rest us hrest h
  have hcols := lexes_bounds hc hz hd (bounded_cons (by decide) rest)
    (lexes_mark '\x7d' .closeBrace (by decide) h)
  have hrows := lexes_bounds ha hy hb (bounded_space _) (lexes_space (lexes_mark '\x7d' .closeBrace (by decide)
    (lexes_mark '\x7b' .openBrace (by decide) (lexes_space hcols))))
  have htext : (x.window rowLo y rowHi colLo z colHi).text.toList ++ rest =
      x.text.toList ++ ' ' :: '\x7b' ::
        (rowLo.text.toList ++ ' ' :: ':' :: ' ' :: (y.text.toList ++ ' ' :: ':' :: ' ' ::
          (rowHi.text.toList ++ ' ' :: '\x7d' :: '\x7b' :: ' ' ::
            (colLo.text.toList ++ ' ' :: ':' :: ' ' :: (z.text.toList ++ ' ' :: ':' :: ' ' ::
              (colHi.text.toList ++ '\x7d' :: rest)))))) := by simp
  have hsource := hx _ _ (bounded_space _) (lexes_space (lexes_mark '\x7b' .openBrace (by decide) hrows))
  rw [htext]
  simpa [braced] using hsource

theorem cuts_query (query : SizeQuery) : Cuts (x.query query).text (x.query query).tokens := by
  intro rest us hrest h
  have htext : (x.query query).text.toList ++ rest = x.text.toList ++ ' ' :: (query.text.toList ++ rest) := by
    simp
  rw [htext, Expr.tokens, List.append_assoc]
  exact hx _ _ (bounded_space _) (lexes_space (lexes_query query hrest h))

theorem cuts_binary (op : BinaryOp) (hy : Cuts y.text y.tokens) :
    Cuts (Expr.binary op x y).text (Expr.binary op x y).tokens := by
  have htext : (Expr.binary op x y).text = x.text ++ (" " ++ op.text ++ " ") ++ y.text := by
    simp [String.append_assoc]
  rw [htext]
  exact hx.operator op hy (by simp)

theorem cuts_negate : Cuts x.negate.text x.negate.tokens := by
  intro rest us hrest h
  have htext : x.negate.text.toList ++ rest = '-' :: ' ' :: (x.text.toList ++ rest) := by simp
  rw [htext, Expr.tokens, List.cons_append]
  exact lexes_mark '-' .minus (by decide) (lexes_space (hx _ _ hrest h))

theorem cuts_not : Cuts x.not.text x.not.tokens := by
  intro rest us hrest h
  have htext : x.not.text.toList ++ rest = '!' :: ' ' :: (x.text.toList ++ rest) := by simp
  rw [htext, Expr.tokens, List.cons_append]
  exact .cons rfl (fun _ => rfl) (lexes_space (hx _ _ hrest h))

theorem cuts_select (hy : Cuts y.text y.tokens) (hz : Cuts z.text z.tokens) :
    Cuts (x.select y z).text (x.select y z).tokens := by
  intro rest us hrest h
  have htext : (x.select y z).text.toList ++ rest = x.text.toList ++ ' ' :: '?' :: ' ' ::
      (y.text.toList ++ ' ' :: ':' :: ' ' :: (z.text.toList ++ rest)) := by simp
  rw [htext, Expr.tokens, List.append_assoc, List.cons_append, List.append_assoc, List.cons_append]
  have hno := hz _ _ hrest h
  have hyes := hy _ _ (bounded_space _) (lexes_space (lexes_mark ':' .colon (by decide) (lexes_space hno)))
  exact hx _ _ (bounded_space _) (lexes_space (lexes_mark '?' .question (by decide) (lexes_space hyes)))

end

end

theorem cuts_text {scope : Scope} {records : Registry} {level : Level} {x : Expr} {ty : Ty}
    (h : x.HasType scope records level ty) : Cuts x.text x.tokens := by
  induction h with
  | lift _ _ ih => exact ih
  | bool value => exact cuts_bool value
  | int hn => exact fun rest us => lexes_int _ hn
  | float parts => exact cuts_float parts
  | string hcontent => exact cuts_string hcontent
  | list _ _ ih => exact cuts_list ih
  | record hid _ hlength _ ih => exact cuts_record (forall_of_zip hlength ih) hid
  | name label hid hlabel => exact cuts_labelled (fun rest us => lexes_ident hid.isName) hlabel
  | call label hid hlabel _ _ hlength _ _ ih =>
    exact cuts_labelled (cuts_call (forall_of_zip hlength ih) hid.isName) hlabel
  | group _ ih => exact cuts_group ih
  | entry _ _ ih ih' => exact cuts_entry ih ih'
  | row _ _ ih ih' => exact cuts_row ih ih'
  | slice _ hlo _ hhi _ ih ih' => exact cuts_slice ih hlo ih' hhi
  | window _ ha _ hb _ hc _ hd _ ih ih₁ ih₂ => exact cuts_window ih ha ih₁ hb hc ih₂ hd
  | query _ _ ih => exact cuts_query ih _
  | binary _ _ _ ih ih' => exact cuts_binary ih _ ih'
  | negate _ _ ih => exact cuts_negate ih
  | not _ ih => exact cuts_not ih
  | select _ _ _ ih ih' ih'' => exact cuts_select ih ih' ih''

end Check

end TensorFuzz
