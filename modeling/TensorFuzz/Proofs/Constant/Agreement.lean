import TensorFuzz.Proofs.Check.Acceptance
import TensorFuzz.Proofs.Constant.Cutting

/-!
# Two readings of a constant text

The evaluator of constants has five levels and stops at the first operation without a value; the checker has fifteen,
goes on, and only drops the value. On texts of digits, marks and blanks both take the same trees off the tokens, so
they agree on which texts have a value and which value that is, as long as words hold the values of all parts.
-/

namespace TensorFuzz

open Constant

/-- The numbers and marks of the text are those of the tree, written without parentheses. -/
def ConstExpr.Spells (c : ConstExpr) (text : String) : Prop := c.Stands .sum ∧ cut none text.toList = c.checkTokens

namespace Constant

/-! ## Trees that the evaluator reads -/

/-- The tokens are those of a tree that stands at the precedence. -/
def IsTree (prec : Precedence) (us : List Token) : Prop :=
  ∃ c : ConstExpr, c.Stands prec ∧ c.checkTokens = us.map Token.toCheck

/-- What an operator makes of the trees on either side of it. -/
theorem IsTree.binary {prec left right : Precedence} {us vs : List Token} {mark : Char}
    {build : ConstExpr → ConstExpr → ConstExpr} (hl : IsTree left us) (hr : IsTree right vs)
    (hstands : ∀ {a b : ConstExpr}, a.Stands left → b.Stands right → (build a b).Stands prec)
    (htokens : ∀ a b, (build a b).checkTokens = a.checkTokens ++ (Token.symbol mark).toCheck :: b.checkTokens) :
    IsTree prec (us ++ .symbol mark :: vs) := by
  obtain ⟨a, ha, hus⟩ := hl
  obtain ⟨b, hb, hvs⟩ := hr
  exact ⟨build a b, hstands ha hb, by rw [htokens, hus, hvs, List.map_append, List.map_cons]⟩

theorem IsTree.lift {prec tighter : Precedence} {us : List Token}
    (hlift : ∀ {c : ConstExpr}, c.Stands tighter → c.Stands prec) (h : IsTree tighter us) : IsTree prec us := by
  obtain ⟨c, hc, hus⟩ := h
  exact ⟨c, hlift hc, hus⟩

theorem eat_consumes (mark : Char) :
    Consumes (eat mark) fun us taken => us = if taken then [.symbol mark] else [] := by
  intro ts taken rest h
  by_cases hhead : ts.head? = some (.symbol mark)
  · obtain ⟨ts, rfl⟩ := List.head?_eq_some_iff.mp hhead
    rw [eat_same] at h
    cases h
    exact ⟨[.symbol mark], rfl, rfl⟩
  · rw [eat_other hhead] at h
    cases h
    exact ⟨[], rfl, rfl⟩

theorem branch_consumes {mark : Char} {taken other : Reader Int} {Q : List Token → Int → Prop}
    (htaken : Consumes taken fun us v => Q (.symbol mark :: us) v) (hother : Consumes other Q) :
    Consumes (do if ← eat mark then taken else other : Reader Int) Q := by
  refine (eat_consumes mark).bind fun us found hus => ?_
  cases found with
  | true =>
    cases hus
    exact htaken
  | false =>
    cases hus
    exact hother

section
variable {below : Precedence → Reader Int} (hbelow : ∀ prec, Consumes (below prec) fun us _ => IsTree prec us)
include hbelow

theorem primary_consumes : Consumes (primary below) fun us _ => IsTree .primary us := by
  intro ts v rest h
  have hget : (get : Reader (List Token)) ts = .ok (ts, ts) := rfl
  rw [primary, bind_of_ok hget] at h
  split at h
  · next value others =>
    cases h
    exact ⟨[.number v], rfl, .literal v.toNat, .literal _, rfl⟩
  · next others =>
    have hgroup : Consumes (do
        let value ← below .sum
        if ← eat ')' then return value
        throw .unclosed) fun us _ => IsTree .primary (.symbol '(' :: us) := by
      refine (hbelow .sum).bind fun us value htree => branch_consumes (.pure ?_) (.throw _)
      obtain ⟨c, hc, hus⟩ := htree
      exact ⟨.group c, .group hc, by simp [ConstExpr.checkTokens, hus]; decide⟩
    obtain ⟨us, rfl, htree⟩ := hgroup others v rest h
    exact ⟨.symbol '(' :: us, rfl, htree⟩
  · cases h

theorem power_consumes : Consumes (power below) fun us _ => IsTree .power us := by
  refine (primary_consumes hbelow).bind fun us base hbase => branch_consumes ?_ (.pure ?_)
  · refine (hbelow .power).bind fun vs exponent hexponent => .lift fun _ _ => ?_
    rw [List.append_nil]
    exact hbase.binary hexponent .power fun _ _ => rfl
  · rw [List.append_nil]
    exact hbase.lift .ofPrimary

theorem signed_consumes : Consumes (signed below) fun us _ => IsTree .sign us := by
  refine branch_consumes ((hbelow .sign).bind fun us _ htree => .lift fun _ _ => ?_)
    ((power_consumes hbelow).mono fun _ _ htree => htree.lift .ofPower)
  obtain ⟨c, hc, hus⟩ := htree
  exact ⟨.negation c, .negation hc, by rw [List.append_nil, ConstExpr.checkTokens, hus, List.map_cons]; rfl⟩

theorem factors_consumes (fuel : Nat) {us : List Token} (hus : IsTree .product us) (v : Int) :
    Consumes (factors below fuel v) fun vs _ => IsTree .product (us ++ vs) := by
  induction fuel generalizing us v with
  | zero => exact .pure (by rwa [List.append_nil])
  | succ fuel ih =>
    refine branch_consumes ?_ (branch_consumes ?_ (.pure (by rwa [List.append_nil])))
    · refine (signed_consumes hbelow).bind fun vs w hvs => .bind_lift fun _ _ => ?_
      have hproduct : IsTree .product (us ++ .symbol '*' :: vs) := hus.binary hvs .product fun _ _ => rfl
      exact (ih hproduct _).mono fun _ _ h => by simpa using h
    · refine (signed_consumes hbelow).bind fun vs w hvs => .bind_lift fun _ _ => ?_
      have hquotient : IsTree .product (us ++ .symbol '/' :: vs) := hus.binary hvs .quotient fun _ _ => rfl
      exact (ih hquotient _).mono fun _ _ h => by simpa using h

theorem product_consumes : Consumes (product below) fun us _ => IsTree .product us :=
  (signed_consumes hbelow).bind fun _ _ hus => .get fun _ => factors_consumes hbelow _ (hus.lift .ofSign) _

theorem summands_consumes (fuel : Nat) {us : List Token} (hus : IsTree .sum us) (v : Int) :
    Consumes (summands below fuel v) fun vs _ => IsTree .sum (us ++ vs) := by
  induction fuel generalizing us v with
  | zero => exact .pure (by rwa [List.append_nil])
  | succ fuel ih =>
    refine branch_consumes ?_ (branch_consumes ?_ (.pure (by rwa [List.append_nil])))
    · refine (product_consumes hbelow).bind fun vs w hvs => .bind_lift fun _ _ => ?_
      have hsum : IsTree .sum (us ++ .symbol '+' :: vs) := hus.binary hvs .sum fun _ _ => rfl
      exact (ih hsum _).mono fun _ _ h => by simpa using h
    · refine (product_consumes hbelow).bind fun vs w hvs => .bind_lift fun _ _ => ?_
      have hdifference : IsTree .sum (us ++ .symbol '-' :: vs) := hus.binary hvs .difference fun _ _ => rfl
      exact (ih hdifference _).mono fun _ _ h => by simpa using h

theorem sum_consumes : Consumes (sum below) fun us _ => IsTree .sum us :=
  (product_consumes hbelow).bind fun _ _ hus => .get fun _ => summands_consumes hbelow _ (hus.lift .ofProduct) _

end

theorem reader_consumes (fuel : Nat) (prec : Precedence) : Consumes (reader fuel prec) fun us _ => IsTree prec us := by
  induction fuel generalizing prec with
  | zero => exact .throw _
  | succ fuel ih =>
    cases prec with
    | sum => exact sum_consumes ih
    | product => exact product_consumes ih
    | sign => exact signed_consumes ih
    | power => exact power_consumes ih
    | primary => exact primary_consumes ih

/-- A text that is evaluated is spelled by a tree. -/
theorem exists_spells_of_evaluate {text : String} {v : Int} (hchars : ∀ c ∈ text.toList, IsConstantChar c)
    (hfits : ∀ n, Check.Token.int n ∈ cut none text.toList → Fits128 n) (h : evaluate text = .ok v) :
    ∃ c : ConstExpr, c.Spells text := by
  rw [evaluate, (tokens_eq_cut hchars hfits).2, ok_bind] at h
  obtain ⟨⟨w, rest⟩, hread, hend⟩ := exists_of_bind_ok h
  obtain ⟨us, hus, c, hc, heq⟩ := reader_consumes _ _ _ _ _ hread
  cases rest with
  | cons => cases hend
  | nil =>
    have hback : ∀ t ∈ cut none text.toList, (Token.toCheck ∘ ofCheckToken) t = id t := fun t ht =>
      toCheck_ofCheckToken (isConstantToken_of_mem_cut hchars t ht)
    rw [List.append_nil] at hus
    exact ⟨c, hc, by rw [heq, ← hus, List.map_map, List.map_congr_left hback, List.map_id]⟩

end Constant

/-! ## Trees that the checker reads -/

namespace Check

/-- The precedence at which constant expressions stand at a level. -/
def levelPrecedence : Level → Precedence
  | .whole | .select | .or | .and | .not | .compare | .sum => .sum
  | .product => .product
  | .negate => .sign
  | .power => .power
  | .query | .dot | .matmul | .slice | .element | .atom => .primary

theorem stands_of_tighter {level tighter : Level} (h : level.tighter? = some tighter) {c : ConstExpr}
    (hc : c.Stands (levelPrecedence tighter)) : c.Stands (levelPrecedence level) := by
  cases level <;> cases h
  case sum => exact .ofProduct hc
  case product => exact .ofSign hc
  case negate => exact .ofPower hc
  case power => exact .ofPrimary hc
  all_goals exact hc

variable {scope : Scope} {records : Registry}

/-- Numbers and marks that are an expression are a constant expression. -/
theorem Derivation.exists_tree {level : Level} {ts : List Token} {t : Typed} (h : Derivation scope records level ts t)
    (hts : ∀ token ∈ ts, isConstantToken token = true) :
    ∃ c : ConstExpr, c.Stands (levelPrecedence level) ∧ c.checkTokens = ts := by
  induction h with
  | lift htighter _ ih =>
    obtain ⟨c, hc, heq⟩ := ih hts
    exact ⟨c, stands_of_tighter htighter hc, heq⟩
  | int n => exact ⟨.literal n, .literal n, rfl⟩
  | group _ ih =>
    obtain ⟨c, hc, rfl⟩ := ih fun token htoken => hts token (by simp [htoken])
    exact ⟨.group c, .group hc, rfl⟩
  | power _ _ _ ihl ihr =>
    obtain ⟨a, ha, rfl⟩ := ihl fun token htoken => hts token (by simp [htoken])
    obtain ⟨b, hb, rfl⟩ := ihr fun token htoken => hts token (by simp [htoken])
    exact ⟨.power a b, .power ha hb, rfl⟩
  | negate _ _ ih =>
    obtain ⟨c, hc, rfl⟩ := ih fun token htoken => hts token (by simp [htoken])
    exact ⟨.negation c, .negation hc, rfl⟩
  | product hop _ _ _ ihl ihr =>
    obtain ⟨a, ha, rfl⟩ := ihl fun token htoken => hts token (by simp [htoken])
    obtain ⟨b, hb, rfl⟩ := ihr fun token htoken => hts token (by simp [htoken])
    rcases hop with rfl | rfl
    · exact ⟨.product a b, .product ha hb, rfl⟩
    · exact ⟨.quotient a b, .quotient ha hb, rfl⟩
  | sum hop _ _ _ ihl ihr =>
    obtain ⟨a, ha, rfl⟩ := ihl fun token htoken => hts token (by simp [htoken])
    obtain ⟨b, hb, rfl⟩ := ihr fun token htoken => hts token (by simp [htoken])
    rcases hop with rfl | rfl
    · exact ⟨.sum a b, .sum ha hb, rfl⟩
    · exact ⟨.difference a b, .difference ha hb, rfl⟩
  | compare hop =>
    have hsymbol := hts (.symbol _) (List.mem_append_right _ List.mem_cons_self)
    simp only [comparisons, List.mem_cons, List.not_mem_nil, or_false] at hop
    rcases hop with rfl | rfl | rfl | rfl | rfl | rfl <;> cases hsymbol
  | float => exact absurd (hts .float (by simp)) (by decide)
  | string => exact absurd (hts .string (by simp)) (by decide)
  | bool | name | call => exact absurd (hts (.ident _) List.mem_cons_self) (by simp [isConstantToken])
  | record => exact absurd (hts (.symbol .at) (by simp)) (by decide)
  | vector | matrix | entry | row => exact absurd (hts (.symbol .openBracket) (by simp)) (by decide)
  | slice | window => exact absurd (hts (.symbol .openBrace) (by simp [braced])) (by decide)
  | matmul => exact absurd (hts (.symbol .hash) (by simp)) (by decide)
  | dot => exact absurd (hts (.symbol .dot) (by simp)) (by decide)
  | query =>
    exact absurd (hts (.query _) (List.mem_append_right _ List.mem_cons_self)) (by simp [isConstantToken])
  | not => exact absurd (hts (.symbol .bang) (by simp)) (by decide)
  | and => exact absurd (hts (.symbol .ampersand) (by simp)) (by decide)
  | or => exact absurd (hts (.symbol .bar) (by simp)) (by decide)
  | select => exact absurd (hts (.symbol .question) (by simp)) (by decide)

/-- The checker reads the whole text as an expression, and comes to the type and value. -/
def ComesTo (scope : Scope) (records : Registry) (text : String) (t : Typed) : Prop :=
  ∃ ts, tokens text = .ok ts ∧ typeOf scope records ts = .ok (t, [])

/-- A constant text that the checker reads is spelled by a tree. -/
theorem ComesTo.exists_spells {text : String} {t : Typed} (hchars : ∀ c ∈ text.toList, IsConstantChar c)
    (hfits : ∀ n, Check.Token.int n ∈ cut none text.toList → Fits128 n) (h : ComesTo scope records text t) :
    ∃ c : ConstExpr, c.Spells text := by
  obtain ⟨ts, htokens, hread⟩ := h
  cases (tokens_eq_cut hchars hfits).1.symm.trans htokens
  obtain ⟨us, hus, hd⟩ := readers_consumes _ _ _ _ _ hread
  rw [List.append_nil] at hus
  subst hus
  obtain ⟨c, hc, heq⟩ := hd.exists_tree (isConstantToken_of_mem_cut hchars)
  exact ⟨c, hc, heq.symm⟩

end Check

/-! ## Agreement -/

namespace Constant

open Check (ComesTo)

/-- Words hold the numbers of the text and, if it is a constant expression, the values of all its parts. -/
def NoOverflow (text : String) : Prop :=
  (∀ n, Check.Token.int n ∈ cut none text.toList → Fits128 n) ∧
    ((∃ c : ConstExpr, c.Spells text) → ∃ c : ConstExpr, c.Spells text ∧ c.InRange)

section
variable {text : String} (hchars : ∀ c ∈ text.toList, IsConstantChar c)
include hchars

/-- Both readings of a tree come to its exact value, or to none. -/
theorem readings_of_spells (hfits : ∀ n, Check.Token.int n ∈ cut none text.toList → Fits128 n) {c : ConstExpr}
    (hspells : c.Spells text) (hrange : c.InRange) (scope : Scope) (records : Registry) :
    (evaluate text).toOption = c.integer? ∧ ∀ t, ComesTo scope records text t ↔ t = ⟨.int, c.integer?⟩ := by
  obtain ⟨hstands, hcut⟩ := hspells
  obtain ⟨hcheck, htokens⟩ := tokens_eq_cut hchars hfits
  rw [hcut] at hcheck htokens
  rw [map_checkTokens] at htokens
  have hread : Check.typeOf scope records c.checkTokens = .ok (⟨.int, c.integer?⟩, []) :=
    Check.typeOf_of_derives ((Check.derives_of_stands hstands hrange).loosen (by decide))
  refine ⟨evaluate_of_tokens hstands hrange htokens, fun t => ⟨?_, ?_⟩⟩
  · rintro ⟨ts, hts, ht⟩
    cases hcheck.symm.trans hts
    cases hread.symm.trans ht
    rfl
  · rintro rfl
    exact ⟨_, hcheck, hread⟩

/-- The evaluator of constants and the checker agree on every text of digits, marks and blanks in which nothing
overflows: one gives a value exactly where the other reads the whole text as an integer of that constant value. Both
do so because they read the trees of one grammar, with its precedences and the sides that its operators group to, and
come to their exact values. -/
theorem evaluate_iff_comesTo (hrange : NoOverflow text) (scope : Scope) (records : Registry) :
    (∀ v, evaluate text = .ok v ↔ ComesTo scope records text ⟨.int, some v⟩) ∧
      (∀ v, evaluate text = .ok v ↔ ∃ c : ConstExpr, c.Spells text ∧ c.InRange ∧ c.integer? = some v) ∧
      ∀ t, ComesTo scope records text t ↔ ∃ c : ConstExpr, c.Spells text ∧ c.InRange ∧ t = ⟨.int, c.integer?⟩ := by
  obtain ⟨hfits, hspelled⟩ := hrange
  have hevaluate (v : Int) : evaluate text = .ok v ↔
      ∃ c : ConstExpr, c.Spells text ∧ c.InRange ∧ c.integer? = some v := by
    constructor
    · intro h
      obtain ⟨c, hc, hin⟩ := hspelled (exists_spells_of_evaluate hchars hfits h)
      have hvalue := (readings_of_spells hchars hfits hc hin scope records).1
      exact ⟨c, hc, hin, by rw [← hvalue, h]; rfl⟩
    · rintro ⟨c, hc, hin, hvalue⟩
      exact eq_ok_of_toOption ((readings_of_spells hchars hfits hc hin scope records).1.trans hvalue)
  have hcheck (t : Check.Typed) : ComesTo scope records text t ↔
      ∃ c : ConstExpr, c.Spells text ∧ c.InRange ∧ t = ⟨.int, c.integer?⟩ := by
    constructor
    · intro h
      obtain ⟨c, hc, hin⟩ := hspelled (h.exists_spells hchars hfits)
      exact ⟨c, hc, hin, ((readings_of_spells hchars hfits hc hin scope records).2 t).mp h⟩
    · rintro ⟨c, hc, hin, ht⟩
      exact ((readings_of_spells hchars hfits hc hin scope records).2 t).mpr ht
  refine ⟨fun v => ?_, hevaluate, hcheck⟩
  rw [hevaluate, hcheck]
  refine exists_congr fun c => and_congr_right fun _ => and_congr_right fun _ => ?_
  simp [eq_comm]

end

/-- Differences group to the left and powers to the right, and a power is tighter than a sign. -/
theorem evaluate_iff_comesTo_mixed :
    evaluate "7 - 2 - 2^3^2 /\t-(4 * 2)" = .ok 69 ∧
      ComesTo .empty ⟨[]⟩ "7 - 2 - 2^3^2 /\t-(4 * 2)" ⟨.int, some 69⟩ := by
  let power : ConstExpr := .power (.literal 2) (.power (.literal 3) (.literal 2))
  let quotient : ConstExpr := .quotient power (.negation (.group (.product (.literal 4) (.literal 2))))
  let tree : ConstExpr := .difference (.difference (.literal 7) (.literal 2)) quotient
  have hliteral (n : Nat) : ConstExpr.Stands .product (.literal n) := .ofSign (.ofPower (.ofPrimary (.literal n)))
  have hpower : power.Stands .power := .power (.literal 2) (.power (.literal 3) (.ofPrimary (.literal 2)))
  have hgroup : ConstExpr.Stands .power (.group (.product (.literal 4) (.literal 2))) :=
    .ofPrimary (.group (.ofProduct (.product (hliteral 4) (.ofPower (.ofPrimary (.literal 2))))))
  have hstands : tree.Stands .sum :=
    .difference (.difference (.ofProduct (hliteral 7)) (hliteral 2))
      (.quotient (.ofSign (.ofPower hpower)) (.negation (.ofPower hgroup)))
  have hspells : tree.Spells "7 - 2 - 2^3^2 /\t-(4 * 2)" := ⟨hstands, by decide⟩
  have hrange : tree.InRange := by decide
  have hfits : ∀ n, Check.Token.int n ∈ cut none "7 - 2 - 2^3^2 /\t-(4 * 2)".toList → Fits128 n := by
    intro n hn
    have hn : n = 7 ∨ n = 2 ∨ n = 3 ∨ n = 4 := by
      rw [hspells.2] at hn
      simp [tree, quotient, power, ConstExpr.checkTokens] at hn
      omega
    unfold Fits128
    omega
  have hchars : "7 - 2 - 2^3^2 /\t-(4 * 2)".toList.all (IsConstantChar ·) = true := by decide
  have hagree := evaluate_iff_comesTo (fun c hc => of_decide_eq_true (List.all_eq_true.mp hchars c hc))
    ⟨hfits, fun _ => ⟨tree, hspells, hrange⟩⟩ .empty ⟨[]⟩
  have hvalue := (hagree.2.1 69).mpr ⟨tree, hspells, hrange, by decide⟩
  exact ⟨hvalue, (hagree.1 69).mp hvalue⟩

end Constant

end TensorFuzz
