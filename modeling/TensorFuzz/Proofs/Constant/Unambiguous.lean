import TensorFuzz.Proofs.Constant.Agreement

/-!
# One tree for each constant text

The text of a tree is cut back into its tokens, and they are the tokens of no other tree: two trees written at one
precedence, each followed by tokens that do not go on with it, are the same tree if they are the same tokens. Where
operators group to the left, an operand is followed by more operators, so the statement is that of two trees with the
same beginning the longer one goes on from the shorter one, operator by operator (`GoesOn`).
-/

namespace TensorFuzz

open Constant (Precedence)
open Check (Symbol Stops stops_symbol levelRank symbolRank)

namespace ConstExpr

/-! ## Operators that group to the left -/

/-- The operators that group to the left at a precedence, with the trees that they build. -/
inductive LeftOperator : Precedence → Symbol → (ConstExpr → ConstExpr → ConstExpr) → Prop
  | sum : LeftOperator .sum .plus .sum
  | difference : LeftOperator .sum .minus .difference
  | product : LeftOperator .product .star .product
  | quotient : LeftOperator .product .slash .quotient

/-- The precedence of what stands between these operators; the same one where there are none. -/
def operand : Precedence → Precedence
  | .sum => .product
  | .product => .sign
  | prec => prec

/-- Reading on from a tree that stands before the tokens, operator by operator, comes to the tree `whole` and leaves
`left`. -/
inductive GoesOn (prec : Precedence) (whole : ConstExpr) (left : List Check.Token) :
    ConstExpr → List Check.Token → Prop
  | done : GoesOn prec whole left whole left
  | step {symbol : Symbol} {build : ConstExpr → ConstExpr → ConstExpr} {a b : ConstExpr} {rest : List Check.Token} :
      LeftOperator prec symbol build → b.Stands (operand prec) → Stops (operand prec).level rest →
      GoesOn prec whole left (build a b) rest → GoesOn prec whole left a (.symbol symbol :: (b.checkTokens ++ rest))

section
variable {prec : Precedence} {symbol : Symbol} {build build' : ConstExpr → ConstExpr → ConstExpr}
  {a b c whole : ConstExpr} {rest left : List Check.Token}

theorem rank_operand (prec : Precedence) : levelRank (operand prec).level ≤ levelRank prec.level := by
  cases prec <;> decide

namespace LeftOperator

theorem unique (h : LeftOperator prec symbol build) (h' : LeftOperator prec symbol build') : build = build' := by
  cases h <;> cases h' <;> rfl

theorem checkTokens (h : LeftOperator prec symbol build) (a b : ConstExpr) :
    (build a b).checkTokens = a.checkTokens ++ .symbol symbol :: b.checkTokens := by
  cases h <;> rfl

/-- The operator goes on at its precedence, and stops an operand before it. -/
theorem rank (h : LeftOperator prec symbol build) :
    levelRank (operand prec).level < symbolRank symbol ∧ symbolRank symbol ≤ levelRank prec.level := by
  cases h <;> decide

theorem stops (h : LeftOperator prec symbol build) (rest : List Check.Token) :
    Stops (operand prec).level (.symbol symbol :: rest) := stops_symbol h.rank.1 rest

theorem not_stops (h : LeftOperator prec symbol build) : ¬ Stops prec.level (.symbol symbol :: rest) := fun hstops =>
  hstops.head_ne h.rank.2 rfl

end LeftOperator

namespace GoesOn

/-- Nothing goes on where the tokens stop. -/
theorem of_stops (h : GoesOn prec whole left c rest) (hrest : Stops prec.level rest) : c = whole ∧ rest = left := by
  cases h with
  | done => exact ⟨rfl, rfl⟩
  | step hop => exact absurd hrest hop.not_stops

/-- What goes on over an operator has its operand behind it. -/
theorem of_operator (h : GoesOn prec whole left a (.symbol symbol :: rest)) (hop : LeftOperator prec symbol build)
    (hleft : Stops prec.level left) : ∃ b more, rest = b.checkTokens ++ more ∧ b.Stands (operand prec) ∧
      Stops (operand prec).level more ∧ GoesOn prec whole left (build a b) more := by
  cases h with
  | done => exact absurd hleft hop.not_stops
  | @step _ _ _ b more hop' hb hmore hon => exact ⟨b, more, rfl, hb, hmore, hop'.unique hop ▸ hon⟩

end GoesOn

/-- The tokens begin with an operand, and the rest of them goes on from it to the tree `whole`. -/
def StartsToward (prec : Precedence) (whole : ConstExpr) (left ts : List Check.Token) : Prop :=
  ∃ first more, ts = first.checkTokens ++ more ∧ first.Stands (operand prec) ∧ Stops (operand prec).level more ∧
    GoesOn prec whole left first more

/-- A tree begins with an operand that the rest of it goes on from. -/
theorem Stands.startsToward (hprec : prec = .sum ∨ prec = .product) (hc : c.Stands prec)
    (hrest : Stops (operand prec).level rest) (h : GoesOn prec whole left c rest) :
    StartsToward prec whole left (c.checkTokens ++ rest) := by
  have hoperator {prec : Precedence} {symbol : Symbol} {build : ConstExpr → ConstExpr → ConstExpr} {a b : ConstExpr}
      {rest : List Check.Token} (hop : LeftOperator prec symbol build) (hb : b.Stands (operand prec))
      (ih : ∀ {rest}, Stops (operand prec).level rest → GoesOn prec whole left a rest →
        StartsToward prec whole left (a.checkTokens ++ rest))
      (hrest : Stops (operand prec).level rest) (h : GoesOn prec whole left (build a b) rest) :
      StartsToward prec whole left ((build a b).checkTokens ++ rest) := by
    rw [hop.checkTokens, List.append_assoc]
    exact ih (hop.stops _) (.step hop hb hrest h)
  induction hc generalizing rest with
  | literal | group | ofPrimary | power | ofPower | negation => rcases hprec with h | h <;> cases h
  | ofSign hc | ofProduct hc => exact ⟨_, _, rfl, hc, hrest, h⟩
  | sum _ hb iha => exact hoperator .sum hb (iha (.inl rfl)) hrest h
  | difference _ hb iha => exact hoperator .difference hb (iha (.inl rfl)) hrest h
  | product _ hb iha => exact hoperator .product hb (iha (.inr rfl)) hrest h
  | quotient _ hb iha => exact hoperator .quotient hb (iha (.inr rfl)) hrest h

/-! ## Trees with the same beginning -/

/-- Every tree of the precedence that begins with the same tokens goes on from this one. -/
def Begins (c : ConstExpr) (prec : Precedence) : Prop :=
  ∀ (whole : ConstExpr) (rest left : List Check.Token), whole.Stands prec →
    c.checkTokens ++ rest = whole.checkTokens ++ left → Stops (operand prec).level rest → Stops prec.level left →
    GoesOn prec whole left c rest

namespace Begins

/-- Where the tokens stop behind both trees, they are the same. -/
theorem complete (h : c.Begins prec) (hwhole : whole.Stands prec)
    (heq : c.checkTokens ++ rest = whole.checkTokens ++ left) (hrest : Stops prec.level rest)
    (hleft : Stops prec.level left) : c = whole ∧ rest = left :=
  (h _ _ _ hwhole heq (hrest.mono (rank_operand prec)) hleft).of_stops hrest

theorem of_complete (hoperand : operand prec = prec)
    (h : ∀ {whole : ConstExpr} {rest left : List Check.Token}, whole.Stands prec →
      c.checkTokens ++ rest = whole.checkTokens ++ left → Stops prec.level rest → Stops prec.level left →
      c = whole ∧ rest = left) : c.Begins prec := by
  intro whole rest left hwhole heq hrest hleft
  rw [hoperand] at hrest
  obtain ⟨rfl, rfl⟩ := h hwhole heq hrest hleft
  exact .done

theorem lift (hprec : prec = .sum ∨ prec = .product) (h : c.Begins (operand prec)) : c.Begins prec := by
  intro whole rest left hwhole heq hrest hleft
  obtain ⟨first, more, hfirst, hstands, hmore, hon⟩ :=
    hwhole.startsToward hprec (hleft.mono (rank_operand prec)) .done
  obtain ⟨rfl, rfl⟩ := h.complete hstands (heq.trans hfirst) hrest hmore
  exact hon

theorem operator (hop : LeftOperator prec symbol build) (ha : a.Begins prec) (hb : b.Begins (operand prec)) :
    (build a b).Begins prec := by
  intro whole rest left hwhole heq hrest hleft
  rw [hop.checkTokens, List.append_assoc, List.cons_append] at heq
  obtain ⟨b', more, hmore, hstands, hstops, hon⟩ := (ha _ _ _ hwhole heq (hop.stops _) hleft).of_operator hop hleft
  obtain ⟨rfl, rfl⟩ := hb.complete hstands hmore hrest hstops
  exact hon

end Begins

end

/-- A power is a signed value without signs: it does not begin with one. -/
theorem checkTokens_head_ne {c : ConstExpr} (h : c.Stands .power) (rest : List Check.Token) :
    (c.checkTokens ++ rest).head? ≠ some (.symbol .minus) := by
  have hprimary {b : ConstExpr} (hb : b.Stands .primary) (rest : List Check.Token) :
      (b.checkTokens ++ rest).head? ≠ some (.symbol .minus) := by
    cases hb <;> simp [checkTokens]
  cases h with
  | ofPrimary h => exact hprimary h rest
  | power hb _ =>
    rw [checkTokens, List.append_assoc]
    exact hprimary hb _

theorem Stands.begins {prec : Precedence} {c : ConstExpr} (h : c.Stands prec) : c.Begins prec := by
  have hcaret : symbolRank .caret ≤ levelRank Precedence.power.level := by decide
  induction h with
  | literal n =>
    refine .of_complete rfl fun hwhole heq _ _ => ?_
    cases hwhole with
    | literal m =>
      cases heq
      exact ⟨rfl, rfl⟩
    | group => cases heq
  | group _ ih =>
    refine .of_complete rfl fun hwhole heq _ _ => ?_
    cases hwhole with
    | literal m => cases heq
    | group hd =>
      simp only [checkTokens, List.cons_append, List.append_assoc, List.cons.injEq, true_and, List.nil_append] at heq
      obtain ⟨rfl, hrest⟩ := ih.complete hd heq (stops_symbol (by decide) _) (stops_symbol (by decide) _)
      exact ⟨rfl, (List.cons.inj hrest).2⟩
  | ofPrimary _ ih =>
    refine .of_complete rfl fun hwhole heq hrest hleft => ?_
    cases hwhole with
    | ofPrimary hd => exact ih.complete hd heq (hrest.mono (by decide)) (hleft.mono (by decide))
    | power hb he =>
      rw [checkTokens, List.append_assoc, List.cons_append] at heq
      obtain ⟨-, rfl⟩ := ih.complete hb heq (hrest.mono (by decide)) (stops_symbol (by decide) _)
      exact absurd rfl (hrest.head_ne hcaret)
  | power _ _ ihb ihe =>
    refine .of_complete rfl fun hwhole heq hrest hleft => ?_
    rw [checkTokens, List.append_assoc, List.cons_append] at heq
    cases hwhole with
    | ofPrimary hd =>
      obtain ⟨-, rfl⟩ := ihb.complete hd heq (stops_symbol (by decide) _) (hleft.mono (by decide))
      exact absurd rfl (hleft.head_ne hcaret)
    | power hb he =>
      rw [checkTokens, List.append_assoc, List.cons_append] at heq
      obtain ⟨rfl, hexponent⟩ := ihb.complete hb heq (stops_symbol (by decide) _) (stops_symbol (by decide) _)
      obtain ⟨rfl, rfl⟩ := ihe.complete he (List.cons.inj hexponent).2 hrest hleft
      exact ⟨rfl, rfl⟩
  | ofPower hc ih =>
    refine .of_complete rfl fun hwhole heq hrest hleft => ?_
    cases hwhole with
    | ofPower hd => exact ih.complete hd heq (hrest.mono (by decide)) (hleft.mono (by decide))
    | negation => exact absurd (congrArg List.head? heq) (checkTokens_head_ne hc _)
  | negation _ ih =>
    refine .of_complete rfl fun hwhole heq hrest hleft => ?_
    cases hwhole with
    | ofPower hd => exact absurd (congrArg List.head? heq).symm (checkTokens_head_ne hd _)
    | negation hd =>
      obtain ⟨rfl, rfl⟩ := ih.complete hd (List.cons.inj heq).2 hrest hleft
      exact ⟨rfl, rfl⟩
  | ofSign _ ih => exact .lift (.inr rfl) ih
  | ofProduct _ ih => exact .lift (.inl rfl) ih
  | sum _ _ iha ihb => exact .operator .sum iha ihb
  | difference _ _ iha ihb => exact .operator .difference iha ihb
  | product _ _ iha ihb => exact .operator .product iha ihb
  | quotient _ _ iha ihb => exact .operator .quotient iha ihb

/-- A text spells one tree at most. -/
theorem Spells.unique {c d : ConstExpr} {text : String} (h : c.Spells text) (h' : d.Spells text) : c = d := by
  have heq : c.checkTokens ++ [] = d.checkTokens ++ [] := by rw [← h.2, ← h'.2]
  exact (h.1.begins.complete h'.1 heq (.nil _) (.nil _)).1

end ConstExpr

/-! ## Texts of trees -/

namespace Constant

theorem cut_digits (digits : List Char) {rest : List Char} (hdigits : ∀ c ∈ digits, c.isDigit = true) (n : Nat) :
    cut (some n) (digits ++ rest) =
      cut (some (digits.foldl (fun value d => value * 10 + (d.toNat - '0'.toNat)) n)) rest := by
  induction digits generalizing n with
  | nil => rfl
  | cons d digits ih =>
    obtain ⟨hd, hdigits⟩ := List.forall_mem_cons.mp hdigits
    rw [List.cons_append, cut, if_pos hd, ih hdigits]
    rfl

/-- A number is cut off complete in front of what is no digit. -/
theorem cut_number (n : Nat) {rest : List Char} (hrest : NoDigit rest) :
    cut none ((toString n).toList ++ rest) = .int n :: cut none rest := by
  have hpending (n : Nat) : cut (some n) rest = .int n :: cut none rest := by
    cases rest with
    | nil => rfl
    | cons c rest =>
      have hc : ¬ c.isDigit = true := Bool.eq_false_iff.mp (hrest c rfl)
      rw [cut, if_neg hc, cut, if_neg hc]
      rfl
  have hfold := Text.foldl_toString n
  have hdigits := fun c => Text.isDigit_of_mem_toString (n := n) (c := c)
  cases h : (toString n).toList with
  | nil => exact absurd h (Text.toList_toString_ne_nil n)
  | cons d digits =>
    rw [h] at hfold hdigits
    obtain ⟨hd, hdigits⟩ := List.forall_mem_cons.mp hdigits
    rw [List.cons_append, cut, if_pos hd, cut_digits digits hdigits, hpending]
    exact congrArg (Check.Token.int · :: _) hfold

/-- The text is cut into the tokens, whatever follows that does not go on with a number. -/
def CutsInto (text : String) (ts : List Check.Token) : Prop :=
  ∀ rest, NoDigit rest → cut none (text.toList ++ rest) = ts ++ cut none rest

/-- An operator between two texts. -/
theorem CutsInto.operator {left right op : String} {s t : List Check.Token} {mark : Char} {symbol : Symbol}
    (hleft : CutsInto left s) (hright : CutsInto right t) (hop : op.toList = [' ', mark, ' '])
    (hmark : ∀ rest, cut none (mark :: rest) = .symbol symbol :: cut none rest) :
    CutsInto (left ++ op ++ right) (s ++ .symbol symbol :: t) := fun rest hrest => by
  have hspace (rest : List Char) : cut none (' ' :: rest) = cut none rest := rfl
  have htext : (left ++ op ++ right).toList ++ rest =
      left.toList ++ (' ' :: mark :: ' ' :: (right.toList ++ rest)) := by simp [hop]
  rw [htext, hleft _ (by simp [NoDigit]), hspace, hmark, hspace, hright _ hrest, List.append_assoc, List.cons_append]

theorem cutsInto_text (c : ConstExpr) : CutsInto c.text c.checkTokens := by
  induction c with
  | literal n => exact fun rest => cut_number n
  | sum a b iha ihb => exact iha.operator ihb (by rfl) fun _ => rfl
  | difference a b iha ihb => exact iha.operator ihb (by rfl) fun _ => rfl
  | product a b iha ihb => exact iha.operator ihb (by rfl) fun _ => rfl
  | quotient a b iha ihb => exact iha.operator ihb (by rfl) fun _ => rfl
  | power a b iha ihb => exact iha.operator ihb (by rfl) fun _ => rfl
  | negation a ih =>
    intro rest hrest
    have hmark (rest : List Char) : cut none ('-' :: rest) = .symbol .minus :: cut none rest := rfl
    have htext : (ConstExpr.negation a).text.toList ++ rest = '-' :: (a.text.toList ++ rest) := by
      simp [ConstExpr.text]
    rw [htext, hmark, ih rest hrest]
    rfl
  | group a ih =>
    intro rest hrest
    have hopen (rest : List Char) : cut none ('(' :: rest) = .symbol .openParen :: cut none rest := rfl
    have hclose (rest : List Char) : cut none (')' :: rest) = .symbol .closeParen :: cut none rest := rfl
    have htext : (ConstExpr.group a).text.toList ++ rest = '(' :: (a.text.toList ++ ')' :: rest) := by
      simp [ConstExpr.text]
    rw [htext, hopen, ih _ (by simp [NoDigit]), hclose]
    simp [ConstExpr.checkTokens]

end Constant

/-- The text of a tree spells the tree, and no other. -/
theorem ConstExpr.Stands.spells_text_iff {c : ConstExpr} (h : c.Stands .sum) (tree : ConstExpr) :
    tree.Spells c.text ↔ tree = c := by
  have hcut : Constant.cut none c.text.toList = c.checkTokens := by
    have hfollowed := Constant.cutsInto_text c [] (by simp [Constant.NoDigit])
    rw [List.append_nil] at hfollowed
    exact hfollowed.trans (List.append_nil _)
  have hspells : c.Spells c.text := ⟨h, hcut⟩
  exact ⟨fun htree => htree.unique hspells, fun heq => heq ▸ hspells⟩

end TensorFuzz
