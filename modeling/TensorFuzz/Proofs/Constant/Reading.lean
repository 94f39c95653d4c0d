import TensorFuzz.Proofs.Constant.Exact
import TensorFuzz.Text.Digits

/-!
# Reading constant expressions back

The text of a constant expression is cut into the tokens that its tree consists of, and a reader of the
precedence at which the expression stands reads exactly its value off them, or fails where it has none. As sums
and products group to the left, their readers are followed to the point where an operand is complete and the loop
goes on.
-/

namespace TensorFuzz

open Constant

/-! ## Tokens -/

/-- The tokens of a constant expression. -/
def ConstExpr.tokens : ConstExpr → List Token
  | literal value => [.number value]
  | sum left right => left.tokens ++ .symbol '+' :: right.tokens
  | difference left right => left.tokens ++ .symbol '-' :: right.tokens
  | product left right => left.tokens ++ .symbol '*' :: right.tokens
  | quotient left right => left.tokens ++ .symbol '/' :: right.tokens
  | power base exponent => base.tokens ++ .symbol '^' :: exponent.tokens
  | negation operand => .symbol '-' :: operand.tokens
  | group inner => .symbol '(' :: (inner.tokens ++ [.symbol ')'])

namespace Constant

/-- A number that the text ends with is complete before the rest. -/
def NoDigit (rest : List Char) : Prop := ∀ c ∈ rest.head?, c.isDigit = false

/-- The result of an operation that a word holds. -/
theorem held_of_fits {x : Int} (h : Fits128 x) (overflow : Fault) : held overflow x = .ok x := if_pos h

theorem appendDigit_of_fits {n digit : Nat} (h : Fits128 (n * 10 + digit : Nat)) :
    appendDigit n digit = .ok (n * 10 + digit) := by
  have htens : Fits128 (n * 10) := by
    unfold Fits128 at *
    omega
  rw [appendDigit, held_of_fits htens, ok_bind, held_of_fits (by simpa using h), ok_bind]
  exact congrArg Except.ok (Int.toNat_natCast (n * 10 + digit))

/-- Further digits make a number no smaller. -/
theorem le_foldl_digits (digits : List Char) (n : Nat) :
    n ≤ digits.foldl (fun value d => value * 10 + (d.toNat - '0'.toNat)) n := by
  induction digits generalizing n with
  | nil => exact Nat.le_refl n
  | cons d digits ih =>
    have hstep : n ≤ n * 10 + (d.toNat - '0'.toNat) := by omega
    exact Nat.le_trans hstep (ih _)

theorem scan_digits {digits rest : List Char} (hdigits : ∀ c ∈ digits, c.isDigit) (n : Nat)
    (hfits : Fits128 (digits.foldl (fun value d => value * 10 + (d.toNat - '0'.toNat)) n : Nat)) :
    scan (some n) (digits ++ rest) =
      scan (some (digits.foldl (fun value d => value * 10 + (d.toNat - '0'.toNat)) n)) rest := by
  induction digits generalizing n with
  | nil => rfl
  | cons d digits ih =>
    have hle := le_foldl_digits digits (n * 10 + (d.toNat - '0'.toNat))
    have hnext : Fits128 (n * 10 + (d.toNat - '0'.toNat) : Nat) := by
      rw [List.foldl_cons] at hfits
      unfold Fits128 at *
      omega
    rw [List.cons_append, scan, if_pos (hdigits d (by simp)), Option.getD_some, appendDigit_of_fits hnext, ok_bind,
      ih (fun c hc => hdigits c (by simp [hc])) _ hfits]
    rfl

theorem scan_pending {rest : List Char} (hrest : NoDigit rest) (n : Nat) :
    scan (some n) rest = (.number n :: ·) <$> scan none rest := by
  cases rest with
  | nil => rfl
  | cons c rest =>
    have hc : c.isDigit = false := hrest c rfl
    simp only [scan, hc, Bool.false_eq_true, if_false]
    split
    · cases scan none rest <;> rfl
    · split
      · cases scan none rest <;> rfl
      · rfl

theorem scan_number {n : Nat} (hn : Fits128 n) {rest : List Char} (hrest : NoDigit rest) :
    scan none ((toString n).toList ++ rest) = (.number n :: ·) <$> scan none rest := by
  have hfold := Text.foldl_toString n
  have hdigits := fun c => Text.isDigit_of_mem_toString (n := n) (c := c)
  cases h : (toString n).toList with
  | nil => exact absurd h (Text.toList_toString_ne_nil n)
  | cons d digits =>
    rw [h] at hfold hdigits
    rw [← scan_pending hrest, ← hfold]
    rw [← hfold] at hn
    have hd : d.isDigit = true := hdigits d (by simp)
    have hstart : scan none (d :: (digits ++ rest)) = scan (some 0) (d :: (digits ++ rest)) := by
      rw [scan, scan, if_pos hd, if_pos hd]
      rfl
    rw [List.cons_append, hstart]
    exact scan_digits hdigits 0 hn

theorem scan_symbol {mark : Char} (hmark : mark ∈ marks) (rest : List Char) :
    scan none (mark :: rest) = (.symbol mark :: ·) <$> scan none rest := by
  have hmarks : marks.all (fun mark => !mark.isDigit && !Text.isAsciiBlank mark) = true := by decide
  have h : mark.isDigit = false ∧ Text.isAsciiBlank mark = false := by
    simpa using List.all_eq_true.mp hmarks mark hmark
  rw [scan, h.1, h.2, if_neg (by decide), if_neg (by decide), if_pos hmark]
  rfl

theorem scan_space (rest : List Char) : scan none (' ' :: rest) = scan none rest := by
  show scan none rest >>= _ = _
  cases scan none rest <;> rfl

/-- The text is cut into the tokens, whatever follows that does not continue a number. -/
def Cuts (text : String) (ts : List Token) : Prop :=
  ∀ rest, NoDigit rest → scan none (text.toList ++ rest) = (ts ++ ·) <$> scan none rest

/-- An operator between two texts. -/
theorem Cuts.operator {left right op : String} {s t : List Token} {mark : Char} (hleft : Cuts left s)
    (hright : Cuts right t) (hop : op.toList = [' ', mark, ' ']) (hmark : mark ∈ marks) :
    Cuts (left ++ op ++ right) (s ++ .symbol mark :: t) := fun rest hrest => by
  have hspace : NoDigit (' ' :: mark :: ' ' :: (right.toList ++ rest)) := by simp [NoDigit]
  have htext : (left ++ op ++ right).toList ++ rest =
      left.toList ++ (' ' :: mark :: ' ' :: (right.toList ++ rest)) := by simp [hop]
  rw [htext, hleft _ hspace, scan_space, scan_symbol hmark, scan_space, hright _ hrest]
  simp [Functor.map_map]

theorem cuts_text {c : ConstExpr} (hrange : c.InRange) : Cuts c.text c.tokens := by
  induction c with
  | literal n => exact fun rest => scan_number ((ConstExpr.inRange_iff.mp hrange).1 n rfl)
  | sum a b iha ihb | difference a b iha ihb | product a b iha ihb | quotient a b iha ihb | power a b iha ihb =>
    obtain ⟨-, ha, hb⟩ := ConstExpr.inRange_iff.mp hrange
    exact (iha ha).operator (ihb hb) (by rfl) (by decide)
  | negation a ih =>
    intro rest hrest
    replace ih := ih (ConstExpr.inRange_iff.mp hrange).2
    rw [show (ConstExpr.negation a).text.toList ++ rest = '-' :: (a.text.toList ++ rest) by simp [ConstExpr.text]]
    rw [scan_symbol (by decide), ih rest hrest, Functor.map_map]
    rfl
  | group a ih =>
    intro rest hrest
    replace ih := ih (ConstExpr.inRange_iff.mp hrange).2
    have htext : (ConstExpr.group a).text.toList ++ rest = '(' :: (a.text.toList ++ ')' :: rest) := by
      simp [ConstExpr.text]
    rw [htext, scan_symbol (by decide), ih _ (by simp [NoDigit]), scan_symbol (by decide)]
    simp [Functor.map_map, ConstExpr.tokens]

theorem tokens_text {c : ConstExpr} (hrange : c.InRange) : tokens c.text.toList = .ok c.tokens := by
  have h := cuts_text hrange [] (by simp [NoDigit])
  rw [List.append_nil] at h
  rw [tokens, h]
  exact congrArg Except.ok (List.append_nil _)

/-! ## Readers -/

/-- The marks that go on with what is read at a precedence. -/
def continuing : Precedence → List Char
  | .sum => ['+', '-', '*', '/', '^']
  | .product => ['*', '/', '^']
  | .sign => ['^']
  | .power => ['^']
  | .primary => []

/-- The tokens do not go on with what is read at a precedence before them. -/
def Stops (prec : Precedence) (ts : List Token) : Prop :=
  ∀ mark ∈ continuing prec, ts.head? ≠ some (.symbol mark)

theorem Stops.mono {prec prec' : Precedence} {ts : List Token} (h : Stops prec ts)
    (hsub : continuing prec' ⊆ continuing prec) : Stops prec' ts :=
  fun mark hmark => h mark (hsub hmark)

theorem stops_symbol (mark : Char) {prec : Precedence} (h : mark ∉ continuing prec) (ts : List Token) :
    Stops prec (.symbol mark :: ts) := by
  rintro mark' hmark' heq
  cases heq
  exact h hmark'

theorem eat_same (mark : Char) (rest : List Token) : eat mark (.symbol mark :: rest) = .ok (true, rest) := by
  show (if mark = mark then _ else _ : Reader Bool) _ = _
  rw [if_pos rfl]
  rfl

theorem eat_other {mark : Char} {ts : List Token} (h : ts.head? ≠ some (.symbol mark)) :
    eat mark ts = .ok (false, ts) := by
  match ts with
  | [] | .number _ :: _ => rfl
  | .symbol c :: rest =>
    show (if c = mark then _ else _ : Reader Bool) _ = _
    rw [if_neg fun hc => h (congrArg _ (congrArg _ hc))]
    rfl

/-- The reader takes the tokens before `rest` and comes to the value, or fails if there is none. -/
def Gives {α : Type} (r : Reader α) (ts : List Token) (o : Option α) (rest : List Token) : Prop :=
  (r ts).toOption = o.map (·, rest)

theorem Gives.of_ok {α : Type} {r : Reader α} {ts rest : List Token} {a : α} (h : r ts = .ok (a, rest)) :
    Gives r ts (some a) rest := by
  rw [Gives, h]
  rfl

theorem Gives.bind {α β : Type} {r : Reader α} {ts mid : List Token} {o : Option α} (h : Gives r ts o mid)
    (f : α → Reader β) : ((r >>= f) ts).toOption = o.bind fun a => (f a mid).toOption := by
  unfold Gives at h
  cases hread : r ts with
  | error e =>
    rw [hread] at h
    rw [bind_of_error hread, Option.map_eq_none_iff.mp h.symm]
    rfl
  | ok found =>
    rw [hread] at h
    obtain ⟨a, rfl, rfl⟩ := Option.map_eq_some_iff.mp h.symm
    rw [bind_of_ok hread]
    rfl

section
variable {below : Precedence → Reader Int} {ts rest : List Token} {o : Option Int} {v : Int}

theorem primary_group (ts : List Token) :
    primary below (.symbol '(' :: ts) =
      (below .sum >>= fun value => eat ')' >>= fun closed => if closed then return value else throw .unclosed) ts :=
  rfl

theorem signed_of_power (h : Gives (power below) ts o rest) (hts : ts.head? ≠ some (.symbol '-')) :
    Gives (signed below) ts o rest := by
  rw [Gives, signed, bind_of_ok (eat_other hts)]
  exact h

theorem power_of_primary (h : Gives (primary below) ts o rest) (hrest : Stops .power rest) :
    Gives (power below) ts o rest := by
  rw [Gives, power, h.bind, Option.map_eq_bind]
  refine Option.bind_congr fun v _ => ?_
  rw [bind_of_ok (eat_other (hrest '^' (by decide)))]
  rfl

theorem factors_stop (hrest : Stops .product rest) (n : Nat) : factors below n v rest = .ok (v, rest) := by
  cases n with
  | zero => rfl
  | succ n =>
    rw [factors, bind_of_ok (eat_other (hrest '*' (by decide)))]
    rw [if_neg (by decide), bind_of_ok (eat_other (hrest '/' (by decide)))]
    rfl

theorem summands_stop (hrest : Stops .sum rest) (n : Nat) : summands below n v rest = .ok (v, rest) := by
  cases n with
  | zero => rfl
  | succ n =>
    rw [summands, bind_of_ok (eat_other (hrest '+' (by decide)))]
    rw [if_neg (by decide), bind_of_ok (eat_other (hrest '-' (by decide)))]
    rfl

theorem factors_times (h : Gives (signed below) ts o rest) (x : Int) (n : Nat) :
    (factors below (n + 1) x (.symbol '*' :: ts)).toOption =
      o.bind fun y => (held .multiplyOverflow (x * y)).toOption.bind fun z =>
        (factors below n z rest).toOption := by
  rw [factors, bind_of_ok (eat_same _ _), if_pos rfl, h.bind]
  refine Option.bind_congr fun y _ => ?_
  cases held .multiplyOverflow (x * y) <;> rfl

theorem factors_over (h : Gives (signed below) ts o rest) (x : Int) (n : Nat) :
    (factors below (n + 1) x (.symbol '/' :: ts)).toOption =
      o.bind fun y => (exactQuotient x y).toOption.bind fun z => (factors below n z rest).toOption := by
  rw [factors, bind_of_ok (eat_other (by simp)), if_neg (by decide), bind_of_ok (eat_same _ _), if_pos rfl, h.bind]
  refine Option.bind_congr fun y _ => ?_
  cases exactQuotient x y <;> rfl

theorem summands_plus (h : Gives (product below) ts o rest) (x : Int) (n : Nat) :
    (summands below (n + 1) x (.symbol '+' :: ts)).toOption =
      o.bind fun y => (held .addOverflow (x + y)).toOption.bind fun z => (summands below n z rest).toOption := by
  rw [summands, bind_of_ok (eat_same _ _), if_pos rfl, h.bind]
  refine Option.bind_congr fun y _ => ?_
  cases held .addOverflow (x + y) <;> rfl

theorem summands_minus (h : Gives (product below) ts o rest) (x : Int) (n : Nat) :
    (summands below (n + 1) x (.symbol '-' :: ts)).toOption =
      o.bind fun y => (held .subtractOverflow (x - y)).toOption.bind fun z =>
        (summands below n z rest).toOption := by
  rw [summands, bind_of_ok (eat_other (by simp)), if_neg (by decide), bind_of_ok (eat_same _ _), if_pos rfl, h.bind]
  refine Option.bind_congr fun y _ => ?_
  cases held .subtractOverflow (x - y) <;> rfl

end

/-- Only where the quotient is too large for a word, the remainder is not computed either. -/
theorem not_least_of_fits {x y : Int} (h : ∀ v ∈ quotient? x y, Fits128 v) : ¬ (x = least128 ∧ y = -1) := by
  rintro ⟨rfl, rfl⟩
  exact absurd (h 0x80000000000000000000000000000000 (by decide)) (by decide)

/-- A quotient that a word holds is computed exactly. -/
theorem toOption_exactQuotient {x y : Int} (h : ∀ v ∈ quotient? x y, Fits128 v) :
    (exactQuotient x y).toOption = quotient? x y := by
  unfold exactQuotient
  by_cases hzero : y = 0
  · rw [if_pos hzero, quotient?, if_neg (by simp [hzero])]
    rfl
  · rw [if_neg hzero, if_neg (not_least_of_fits h)]
    by_cases hdvd : y ∣ x
    · rw [if_neg (by simp [Int.tmod_eq_zero_of_dvd hdvd]), quotient?, if_pos ⟨hzero, hdvd⟩,
        Int.tdiv_eq_ediv_of_dvd hdvd]
      rfl
    · rw [if_pos fun hmod => hdvd (Int.dvd_of_tmod_eq_zero hmod), quotient?, if_neg fun h => hdvd h.2]
      rfl

/-- A power that a word holds is computed exactly. -/
theorem toOption_powerOf {x y : Int} (h : ∀ v ∈ power? x y, Fits128 v) : (powerOf x y).toOption = power? x y := by
  unfold powerOf
  by_cases hneg : y < 0
  · rw [if_pos hneg, power?, if_neg fun h => by omega]
    rfl
  · by_cases hlimit : y < limit32
    · have hpower : power? x y = some (x.pow y.toNat) := if_pos ⟨by omega, hlimit⟩
      rw [if_neg hneg, if_neg (by omega), checkedPow128_eq_checked128, hpower]
      rw [checked128, if_pos (h _ hpower)]
      rfl
    · rw [if_neg hneg, if_pos (by omega), power?, if_neg fun h => hlimit h.2]
      rfl

/-- The reader of the precedence reads the value off the tokens, or fails if there is none, whatever follows that
does not go on with them. The loops of products and sums are followed to where the value is complete and `rest` is
still to be read, with enough fuel for it. -/
def Reads (below : Precedence → Reader Int) (ts : List Token) (o : Option Int) : Precedence → Prop
  | .primary => ∀ rest, Gives (primary below) (ts ++ rest) o rest
  | .power => ∀ rest, Stops .power rest → Gives (power below) (ts ++ rest) o rest
  | .sign => ∀ rest, Stops .sign rest → Gives (signed below) (ts ++ rest) o rest
  | .product => ∀ rest, Stops .sign rest →
      ∃ n, rest.length ≤ n ∧ (product below (ts ++ rest)).toOption = o.bind fun v => (factors below n v rest).toOption
  | .sum => ∀ rest, Stops .product rest →
      ∃ n, rest.length ≤ n ∧ (sum below (ts ++ rest)).toOption = o.bind fun v => (summands below n v rest).toOption

namespace Reads

variable {below : Precedence → Reader Int} {ts rest : List Token} {o : Option Int}

theorem sum_complete (h : Reads below ts o .sum) (hrest : Stops .sum rest) : Gives (sum below) (ts ++ rest) o rest := by
  obtain ⟨n, -, heq⟩ := h rest (hrest.mono (by decide))
  rw [Gives, heq, Option.map_eq_bind]
  refine Option.bind_congr fun v _ => ?_
  rw [summands_stop hrest]
  rfl

theorem product_complete (h : Reads below ts o .product) (hrest : Stops .product rest) :
    Gives (product below) (ts ++ rest) o rest := by
  obtain ⟨n, -, heq⟩ := h rest (hrest.mono (by decide))
  rw [Gives, heq, Option.map_eq_bind]
  refine Option.bind_congr fun v _ => ?_
  rw [factors_stop hrest]
  rfl

/-- The loop of a product goes on behind a complete value, with fuel left for the rest. -/
theorem factor (h : Reads below ts o .product) (mark : Char) (hmark : mark ∉ continuing .sign) {us : List Token}
    {f : Int → Option Int}
    (hstep : ∀ x ∈ o, ∀ n rest, Stops .sign rest → (factors below (n + 1) x (.symbol mark :: (us ++ rest))).toOption =
      (f x).bind fun v => (factors below n v rest).toOption) :
    Reads below (ts ++ .symbol mark :: us) (o.bind f) .product := by
  intro rest hrest
  obtain ⟨n, hn, heq⟩ := h _ (stops_symbol mark hmark (us ++ rest))
  rw [List.length_cons, List.length_append] at hn
  refine ⟨n - 1, by omega, ?_⟩
  rw [List.append_assoc, List.cons_append, heq, Option.bind_assoc]
  refine Option.bind_congr fun x hx => ?_
  rw [← hstep x hx (n - 1) rest hrest, Nat.sub_add_cancel (by omega)]

/-- The loop of a sum goes on behind a complete value, with fuel left for the rest. -/
theorem summand (h : Reads below ts o .sum) (mark : Char) (hmark : mark ∉ continuing .product) {us : List Token}
    {f : Int → Option Int}
    (hstep : ∀ x ∈ o, ∀ n rest, Stops .product rest →
      (summands below (n + 1) x (.symbol mark :: (us ++ rest))).toOption =
        (f x).bind fun v => (summands below n v rest).toOption) :
    Reads below (ts ++ .symbol mark :: us) (o.bind f) .sum := by
  intro rest hrest
  obtain ⟨n, hn, heq⟩ := h _ (stops_symbol mark hmark (us ++ rest))
  rw [List.length_cons, List.length_append] at hn
  refine ⟨n - 1, by omega, ?_⟩
  rw [List.append_assoc, List.cons_append, heq, Option.bind_assoc]
  refine Option.bind_congr fun x hx => ?_
  rw [← hstep x hx (n - 1) rest hrest, Nat.sub_add_cancel (by omega)]

end Reads

/-! ## Trees -/

/-- A power is a signed value without signs: it does not begin with one. -/
theorem head_ne_of_stands {c : ConstExpr} (h : c.Stands .power) (rest : List Token) :
    (c.tokens ++ rest).head? ≠ some (.symbol '-') := by
  have hprimary {b : ConstExpr} (hb : b.Stands .primary) (rest : List Token) :
      (b.tokens ++ rest).head? ≠ some (.symbol '-') := by
    cases hb <;> simp [ConstExpr.tokens]
  cases h with
  | ofPrimary h => exact hprimary h rest
  | power hb _ =>
    rw [ConstExpr.tokens, List.append_assoc]
    exact hprimary hb _

section
attribute [local simp] ConstExpr.tokens ConstExpr.integer?

variable {below : Precedence → Reader Int} {a b c : ConstExpr}

theorem group_reads
    (h : ∀ rest, Gives (below .sum) (c.tokens ++ .symbol ')' :: rest) c.integer? (.symbol ')' :: rest)) :
    Reads below (ConstExpr.group c).tokens (ConstExpr.group c).integer? .primary := by
  intro rest
  rw [show (ConstExpr.group c).tokens ++ rest = .symbol '(' :: (c.tokens ++ .symbol ')' :: rest) by simp]
  rw [Gives, primary_group, (h rest).bind, ConstExpr.integer?, Option.map_eq_bind]
  refine Option.bind_congr fun v _ => ?_
  rw [bind_of_ok (eat_same _ _)]
  rfl

theorem power_reads (hrange : (ConstExpr.power a b).InRange) (ha : Reads below a.tokens a.integer? .primary)
    (hb : ∀ rest, Stops .power rest → Gives (below .power) (b.tokens ++ rest) b.integer? rest) :
    Reads below (ConstExpr.power a b).tokens (ConstExpr.power a b).integer? .power := by
  intro rest hrest
  obtain ⟨hvalue, -, -⟩ := ConstExpr.inRange_iff.mp hrange
  rw [ConstExpr.tokens, List.append_assoc, List.cons_append, Gives, power, (ha _).bind, ConstExpr.integer?,
    Option.bind_eq_bind, Option.map_bind]
  refine Option.bind_congr fun x hx => ?_
  rw [bind_of_ok (eat_same _ _), if_pos rfl, (hb rest hrest).bind, Function.comp, Option.map_bind]
  refine Option.bind_congr fun y hy => ?_
  rw [Function.comp, ← toOption_powerOf fun v hv => hvalue v ?_]
  · cases powerOf x y <;> rfl
  · rw [ConstExpr.integer?, hx, hy]
    exact hv

theorem negation_reads (hrange : (ConstExpr.negation c).InRange)
    (hc : ∀ rest, Stops .sign rest → Gives (below .sign) (c.tokens ++ rest) c.integer? rest) :
    Reads below (ConstExpr.negation c).tokens (ConstExpr.negation c).integer? .sign := by
  intro rest hrest
  obtain ⟨hvalue, -⟩ := ConstExpr.inRange_iff.mp hrange
  rw [ConstExpr.tokens, List.cons_append, Gives, signed, bind_of_ok (eat_same _ _), if_pos rfl,
    (hc rest hrest).bind, ConstExpr.integer?, Option.bind_eq_bind, Option.map_bind]
  refine Option.bind_congr fun x hx => ?_
  rw [held_of_fits (hvalue (-x) (by simp [hx]))]
  rfl

theorem product_reads (hrange : (ConstExpr.product a b).InRange) (ha : Reads below a.tokens a.integer? .product)
    (hb : Reads below b.tokens b.integer? .sign) :
    Reads below (ConstExpr.product a b).tokens (ConstExpr.product a b).integer? .product := by
  obtain ⟨hvalue, -, -⟩ := ConstExpr.inRange_iff.mp hrange
  refine ha.factor '*' (by decide) fun x hx n rest hrest => ?_
  rw [factors_times (hb rest hrest), Option.bind_eq_bind, Option.bind_assoc]
  refine Option.bind_congr fun y hy => ?_
  rw [held_of_fits (hvalue (x * y) (by simp [Option.mem_def.mp hx, hy]))]
  rfl

theorem quotient_reads (hrange : (ConstExpr.quotient a b).InRange) (ha : Reads below a.tokens a.integer? .product)
    (hb : Reads below b.tokens b.integer? .sign) :
    Reads below (ConstExpr.quotient a b).tokens (ConstExpr.quotient a b).integer? .product := by
  obtain ⟨hvalue, -, -⟩ := ConstExpr.inRange_iff.mp hrange
  refine ha.factor '/' (by decide) fun x hx n rest hrest => ?_
  rw [factors_over (hb rest hrest), Option.bind_eq_bind, Option.bind_assoc]
  refine Option.bind_congr fun y hy => ?_
  rw [toOption_exactQuotient fun v hv => hvalue v ?_]
  rw [ConstExpr.integer?, hx, hy]
  exact hv

theorem sum_reads (hrange : (ConstExpr.sum a b).InRange) (ha : Reads below a.tokens a.integer? .sum)
    (hb : Reads below b.tokens b.integer? .product) :
    Reads below (ConstExpr.sum a b).tokens (ConstExpr.sum a b).integer? .sum := by
  obtain ⟨hvalue, -, -⟩ := ConstExpr.inRange_iff.mp hrange
  refine ha.summand '+' (by decide) fun x hx n rest hrest => ?_
  rw [summands_plus (hb.product_complete hrest), Option.bind_eq_bind, Option.bind_assoc]
  refine Option.bind_congr fun y hy => ?_
  rw [held_of_fits (hvalue (x + y) (by simp [Option.mem_def.mp hx, hy]))]
  rfl

theorem difference_reads (hrange : (ConstExpr.difference a b).InRange) (ha : Reads below a.tokens a.integer? .sum)
    (hb : Reads below b.tokens b.integer? .product) :
    Reads below (ConstExpr.difference a b).tokens (ConstExpr.difference a b).integer? .sum := by
  obtain ⟨hvalue, -, -⟩ := ConstExpr.inRange_iff.mp hrange
  refine ha.summand '-' (by decide) fun x hx n rest hrest => ?_
  rw [summands_minus (hb.product_complete hrest), Option.bind_eq_bind, Option.bind_assoc]
  refine Option.bind_congr fun y hy => ?_
  rw [held_of_fits (hvalue (x - y) (by simp [Option.mem_def.mp hx, hy]))]
  rfl

end

/-- A token of a text is read only after those before it, so the tokens are fuel enough for the nesting. -/
theorem reads_of_stands {prec : Precedence} {c : ConstExpr} (h : c.Stands prec) (hrange : c.InRange) (fuel : Nat)
    (hfuel : c.tokens.length ≤ fuel) : Reads (reader fuel) c.tokens c.integer? prec := by
  induction h generalizing fuel with
  | literal n => exact fun rest => .of_ok rfl
  | group _ ih =>
    simp only [ConstExpr.tokens, List.length_append, List.length_cons] at hfuel
    obtain ⟨f, rfl⟩ : ∃ f, fuel = f + 1 := ⟨fuel - 1, by omega⟩
    have hinner := ih (ConstExpr.inRange_iff.mp hrange).2 f (by omega)
    exact group_reads fun rest => hinner.sum_complete (stops_symbol ')' (by decide) rest)
  | ofPrimary _ ih => exact fun rest hrest => power_of_primary (ih hrange fuel hfuel rest) hrest
  | power _ _ iha ihb =>
    obtain ⟨-, ha, hb⟩ := ConstExpr.inRange_iff.mp hrange
    simp only [ConstExpr.tokens, List.length_append, List.length_cons] at hfuel
    obtain ⟨f, rfl⟩ : ∃ f, fuel = f + 1 := ⟨fuel - 1, by omega⟩
    exact power_reads hrange (iha ha _ (by omega)) (ihb hb f (by omega))
  | ofPower hc ih =>
    exact fun rest hrest => signed_of_power (ih hrange fuel hfuel rest hrest) (head_ne_of_stands hc rest)
  | negation _ ih =>
    simp only [ConstExpr.tokens, List.length_cons] at hfuel
    obtain ⟨f, rfl⟩ : ∃ f, fuel = f + 1 := ⟨fuel - 1, by omega⟩
    exact negation_reads hrange (ih (ConstExpr.inRange_iff.mp hrange).2 f (by omega))
  | ofSign _ ih =>
    intro rest hrest
    exact ⟨rest.length, Nat.le_refl _, by rw [product, (ih hrange fuel hfuel rest hrest).bind]; rfl⟩
  | ofProduct _ ih =>
    intro rest hrest
    have hproduct := (ih hrange fuel hfuel).product_complete hrest
    exact ⟨rest.length, Nat.le_refl _, by rw [sum, hproduct.bind]; rfl⟩
  | product _ _ iha ihb =>
    obtain ⟨-, ha, hb⟩ := ConstExpr.inRange_iff.mp hrange
    simp only [ConstExpr.tokens, List.length_append, List.length_cons] at hfuel
    exact product_reads hrange (iha ha fuel (by omega)) (ihb hb fuel (by omega))
  | quotient _ _ iha ihb =>
    obtain ⟨-, ha, hb⟩ := ConstExpr.inRange_iff.mp hrange
    simp only [ConstExpr.tokens, List.length_append, List.length_cons] at hfuel
    exact quotient_reads hrange (iha ha fuel (by omega)) (ihb hb fuel (by omega))
  | sum _ _ iha ihb =>
    obtain ⟨-, ha, hb⟩ := ConstExpr.inRange_iff.mp hrange
    simp only [ConstExpr.tokens, List.length_append, List.length_cons] at hfuel
    exact sum_reads hrange (iha ha fuel (by omega)) (ihb hb fuel (by omega))
  | difference _ _ iha ihb =>
    obtain ⟨-, ha, hb⟩ := ConstExpr.inRange_iff.mp hrange
    simp only [ConstExpr.tokens, List.length_append, List.length_cons] at hfuel
    exact difference_reads hrange (iha ha fuel (by omega)) (ihb hb fuel (by omega))

/-! ## Evaluation -/

/-- A text of the tokens of an expression evaluates to its value, or to an error if it has none. -/
theorem evaluate_of_tokens {c : ConstExpr} (hc : c.Stands .sum) (hrange : c.InRange) {text : String}
    (htokens : tokens text.toList = .ok c.tokens) : (evaluate text).toOption = c.integer? := by
  have hread : Gives (reader (c.tokens.length + 1) .sum) c.tokens c.integer? [] := by
    have hstop : Stops .sum [] := by simp [Stops]
    have hsum := (reads_of_stands hc hrange _ (Nat.le_refl _)).sum_complete hstop
    rwa [List.append_nil] at hsum
  rw [evaluate, htokens]
  show ((reader (c.tokens.length + 1) .sum) c.tokens >>= _).toOption = _
  unfold Gives at hread
  cases hrun : reader (c.tokens.length + 1) .sum c.tokens with
  | error e =>
    rw [hrun] at hread
    exact (Option.map_eq_none_iff.mp hread.symm).symm
  | ok found =>
    rw [hrun] at hread
    obtain ⟨v, hv, rfl⟩ := Option.map_eq_some_iff.mp hread.symm
    exact hv.symm

theorem evaluate_text {c : ConstExpr} {v : Int} (h : c.Denotes .sum v) : evaluate c.text = .ok v :=
  eq_ok_of_toOption ((evaluate_of_tokens h.stands h.inRange (tokens_text h.inRange)).trans h.integer?_eq)

variable {σ : Type} [RandomSource σ]

/-- The text of every spelling of an integer evaluates to exactly that integer, and only a draw that does not
end keeps an integer from being spelled. -/
theorem evaluate_synthesize (levels : Nat) {v : Int} (hv : Fits64 v) (supply : Supply σ) :
    (∀ c supply', synthesize levels v supply = .ok (c, supply') → evaluate c.text = .ok v) ∧
      (supply.Steady → ∃ c supply', synthesize levels v supply = .ok (c, supply') ∧ evaluate c.text = .ok v) :=
  ((synthesize_yields levels hv).mono fun _ hc => evaluate_text hc).results supply

theorem evaluate_synthesize_least :
    ∃ c supply', synthesize 32 (-0x8000000000000000) ⟨Repeating.mk 0, fun _ => 1⟩ = .ok (c, supply') ∧
      evaluate c.text = .ok (-0x8000000000000000) :=
  (evaluate_synthesize 32 (by decide) _).2 Repeating.zero_steady

end Constant

end TensorFuzz
